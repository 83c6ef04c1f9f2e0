import WeatherStation.Network.HttpResponse
import WeatherStation.Weather.JsonResponse

/-!
# From the bytes of a connection to the globals

{lit}`webclient_get` behind the request, and {lit}`fetch_weather` on top of it: the
answers of the reads come from the connection.

Main results:

- Theorem {lit}`fetchWeather_of_response`: a response with its length determines the
  globals, however it is segmented.
- Theorem {lit}`not_reassembled_of_chunks`: a response in more than one chunk is never
  handed to the parser as it was sent.
- Theorem {lit}`webclientGet_stale_chunk`: a redirection in chunks leaves the session in
  chunk mode.
-/

open Foundation

namespace WeatherStation

/-! ## Requests -/

/-- What the next connection brings: its bytes, and what the array for the line of the
first chunk holds before. -/
structure Connection where
  wire : Wire UInt8
  stack : List UInt8

/-- {lit}`-WEBCLIENT_CONNECT_FAILED` -/
def webclientConnectFailed : Int := -6

/-- {lit}`webclient_session_create`. -/
def webclientSessionCreate (header_sz : Nat) : Session where
  header := ⟨List.replicate header_sz 0, 0, header_sz⟩
  wire := ⟨[], []⟩
  socket := false
  chunk_sz := 0
  chunk_offset := 0
  content_length := -1
  content_remainder := 0
  resp_status := 0

/-- {lit}`webclient_clean`. -/
def webclientClean (s : Session) : Session :=
  { s with socket := false, content_length := -1 }

/-- {lit}`webclient_get` over the connections that are made one after the other.  A
redirection with a location is followed. -/
def webclientGet : List Connection → Session → Client (Int × Session)
  | [], s => .ok (webclientConnectFailed, s)
  | c :: cs, s => do
      let (resp_status, s) ← handleResponse true c.stack { s with wire := c.wire, socket := true }
      if 0 < resp_status then do
        let location ← headerFieldsGet s.header (ascii "Location")
        if (resp_status = 302 ∨ resp_status = 301) ∧ location.isSome then
          let header := ⟨List.replicate s.header.size 0, 0, s.header.size⟩
          webclientGet cs { webclientClean s with header := header }
        else pure (resp_status, s)
      else pure (resp_status, s)

/-- {lit}`GET_HEADER_BUFSZ` -/
def getHeaderBufsz : Nat := 1024

/-- The reads of {lit}`fetch_weather`.  Each call that goes on takes at least one byte
from the connection, so its bytes bound the calls. -/
def received (s : Session) : Client (List (List UInt8)) :=
  let rounds := s.wire.stream.length + 1
  if s.content_length < 0 then answers (fun _ => getRespBufsz) rounds 0 s
  else answers (fun content_pos => requestLength s.content_length content_pos) rounds 0 s

/-- What {lit}`fetch_weather` meets when all allocations succeed. -/
def exchangeOf (connections : List Connection) : Client Exchange := do
  let (resp_status, s) ← webclientGet connections (webclientSessionCreate getHeaderBufsz)
  let answers ← if resp_status = 200 then received s else pure []
  pure
    { weatherUrl := true
      session := true
      respStatus := resp_status
      buffer := true
      contentLength := s.content_length
      answers := answers }

/-- {lit}`fetch_weather` over the bytes of its connections. -/
def fetchWeatherFrom (env : ParseEnv) (connections : List Connection) : Client (Parse Unit) := do
  let x ← exchangeOf connections
  pure (fetchWeather env x)

/-! ## One response -/

/-- The session that handles the response of a connection. -/
def Session.connect (s : Session) (c : Connection) : Session :=
  { s with wire := c.wire, socket := true }

/-- The session that handles the response of the first connection. -/
def connected (c : Connection) : Session :=
  (webclientSessionCreate getHeaderBufsz).connect c

/-- A response with status 200 is the result of the request. -/
theorem webclientGet_ok {c : Connection} (cs : List Connection) {s s' : Session}
    (hresponse : handleResponse true c.stack (s.connect c) = .ok (200, s'))
    {lines : List (List UInt8)} {behind : List UInt8} {size : Nat}
    (hheader : s'.header = keptHeader lines behind size)
    (hlines : HeaderLines getHeaderBufsz lines) :
    webclientGet (c :: cs) s = .ok (200, s') := by
  unfold webclientGet
  change handleResponse true c.stack (s.connect c) >>= _ = _
  rw [hresponse, Outcome.ok_bind]
  dsimp only
  rw [if_pos (by decide), hheader, headerFieldsGet_lines hlines.nonempty hlines.noNul,
    Outcome.ok_bind, if_neg (fun h => absurd h.1 (by decide))]
  rfl

/-- The session that follows a redirection. -/
def Session.redirected (s : Session) : Session :=
  { webclientClean s with header := ⟨List.replicate s.header.size 0, 0, s.header.size⟩ }

theorem webclientGet_redirect {c : Connection} (cs : List Connection) {s s' : Session}
    {code : Int} (hresponse : handleResponse true c.stack (s.connect c) = .ok (code, s'))
    (hcode : code = 302 ∨ code = 301) {lines : List (List UInt8)} {behind : List UInt8}
    {size : Nat} (hheader : s'.header = keptHeader lines behind size)
    (hlines : HeaderLines getHeaderBufsz lines)
    (hlocation : (lines.findSome? (fieldValue (ascii "Location"))).isSome) :
    webclientGet (c :: cs) s = webclientGet cs s'.redirected := by
  conv_lhs => unfold webclientGet
  change handleResponse true c.stack (s.connect c) >>= _ = _
  have hpos : 0 < code := by
    rcases hcode with rfl | rfl <;> decide
  have hfield : headerFieldsGet s'.header (ascii "Location") =
      .ok (lines.findSome? (fieldValue (ascii "Location"))) := by
    rw [hheader]
    exact headerFieldsGet_lines hlines.nonempty hlines.noNul _ _ _
  rw [hresponse, Outcome.ok_bind]
  dsimp only
  rw [if_pos hpos, hfield, Outcome.ok_bind, if_pos ⟨hcode, hlocation⟩]
  rfl

/-- What a fetch needs so that the answers of the reads are those of the body. -/
structure Exchange.Answers (x : Exchange) (content_length : Int) (body : List UInt8) : Prop where
  weatherUrl : x.weatherUrl = true
  session : x.session = true
  respStatus : x.respStatus = 200
  buffer : x.buffer = true
  contentLength : x.contentLength = content_length
  split : SplitOf body x.answers

theorem exchangeOf_of_received {connections : List Connection} {s : Session}
    {pieces : List (List UInt8)} {body : List UInt8}
    (hget : webclientGet connections (webclientSessionCreate getHeaderBufsz) = .ok (200, s))
    (hreceived : received s = .ok pieces) (hsplit : SplitOf body pieces) :
    ∃ x, exchangeOf connections = .ok x ∧ x.Answers s.content_length body ∧
      x.answers = pieces := by
  refine ⟨⟨true, true, 200, true, s.content_length, pieces⟩, ?_, ⟨rfl, rfl, rfl, rfl, rfl, hsplit⟩,
    rfl⟩
  rw [exchangeOf, hget, Outcome.ok_bind]
  dsimp only
  rw [if_pos rfl, hreceived]
  rfl

/-- The answers to the reads of a body of known length. -/
theorem exchangeOf_known {c : Connection} (cs : List Connection) {lines : List (List UInt8)}
    {body after value : List UInt8} {transfer_encoding : Option (List UInt8)}
    (hquiet : c.wire.Quiet) (hstream : c.wire.stream = headerText lines ++ (body ++ after))
    (hlines : HeaderLines getHeaderBufsz lines)
    (hmeans : HeaderSays lines 0 200 (some value) transfer_encoding)
    (hvalue : atoi (CStr.ofBytes value) = body.length) (hbody : body ≠ [])
    (hplain : transfer_encoding ≠ some (ascii "chunked")) :
    ∃ x, exchangeOf (c :: cs) = .ok x ∧ x.Answers body.length body ∧
      (body.length ≤ getRespBufsz → x.answers.length ≤ 1) := by
  obtain ⟨s, hresponse, hknown, hlength, behind, hheader⟩ :=
    handleResponse_known (s := connected c) hquiet hstream hlines hmeans hvalue hbody hplain rfl rfl
      c.stack
  have hget := webclientGet_ok cs hresponse hheader hlines
  obtain ⟨after', hleft⟩ := hknown.stream
  have hrounds : body.length < s.wire.stream.length + 1 := by
    rw [hleft, List.length_append]
    omega
  obtain ⟨pieces, hanswers, hsplit, hcount⟩ := answers_of_known hknown hrounds
    (show s.content_length - ((0 : Nat) : Int) = body.length by rw [hlength]; exact Int.sub_zero _)
  have hreceived : received s = .ok pieces := by
    rw [received, if_neg (by omega), hanswers]
  obtain ⟨x, hx, hxanswers, rfl⟩ := exchangeOf_of_received hget hreceived hsplit
  rw [hlength] at hxanswers
  exact ⟨x, hx, hxanswers, hcount⟩

/-- A response with its length determines the globals: whatever the header says besides,
however the response is segmented and the text of its body is laid out, every member
holds what the text says, and every name array holds its converted name. -/
theorem fetchWeather_of_response {conv : CStr → CStr} {c : Connection} {cs : List Connection}
    {lines : List (List UInt8)} {body : CStr} {after value : List UInt8}
    {transfer_encoding : Option (List UInt8)} {root : CJson} {s : Field → CStr} {v : Field → Int}
    (hquiet : c.wire.Quiet) (hstream : c.wire.stream = headerText lines ++ (body.bytes ++ after))
    (hlines : HeaderLines getHeaderBufsz lines)
    (hmeans : HeaderSays lines 0 200 (some value) transfer_encoding)
    (hvalue : atoi (CStr.ofBytes value) = body.strlen)
    (hplain : transfer_encoding ≠ some (ascii "chunked")) (hfits : body.strlen ≤ 4095)
    (htext : JsonText.Derives (.item root) body.bytes) (hresponse : CompleteResponse root s)
    (hs : Storable conv s v) :
    ∃ p, fetchWeatherFrom (.ofSource conv) (c :: cs) = .ok p ∧ p.result = .ok () ∧
      ∀ g : Globals, (∀ f : Field, f.read (p.run g) = f.expected conv s v) ∧
        ∀ n : NameField,
          CStr.ofBytes ((p.run g).rt.read n.offset nameSize) = conv (s (.name n)) := by
  have hbody : body.bytes ≠ [] := htext.item_ne_nil
  obtain ⟨x, hx, hanswers, hone⟩ :=
    exchangeOf_known cs hquiet hstream hlines hmeans hvalue hbody hplain
  have hdelivers : x.Delivers body :=
    { weatherUrl := hanswers.weatherUrl
      session := hanswers.session
      respStatus := hanswers.respStatus
      buffer := hanswers.buffer
      fits := hfits
      contentLength := .inr hanswers.contentLength
      split := hanswers.split
      onePiece := hone (le_trans hfits (by decide)) }
  have hdetermined := fetchWeather_of_derives hdelivers htext hresponse hs
  refine ⟨fetchWeather (.ofSource conv) x, ?_, ?_, fun g => (hdetermined g).2⟩
  · rw [fetchWeatherFrom, hx]
    rfl
  · exact (hdetermined ⟨fun _ => 0, fun _ => ⟨0, 0, 0, 0⟩⟩).1

/-- The text that the printer hands back. -/
def printedText : Scan (List UInt8) → List UInt8
  | .ok t => t
  | _ => []

/-- The formatted text of {lit}`winterTree`. -/
@[irreducible] def winterText : List UInt8 :=
  printedText (JsonText.cJSONPrint id true winterTree)

theorem winterText_spec : 0 ∉ winterText ∧ winterText.length = 553 := by
  decide +kernel

/-- {lit}`winterText` as a body. -/
def winterBody : CStr where
  bytes := winterText
  zero_notMem := winterText_spec.1

/-- The lines of a response with its length. -/
def winterLines : List (List UInt8) :=
  [ascii "HTTP/1.1 200 OK", ascii "Content-Type: application/json", ascii "Content-Length: 553"]

theorem headerLines_winterLines : HeaderLines getHeaderBufsz winterLines := by
  refine ⟨?_, ?_, ?_, ?_⟩ <;> decide

theorem headerSays_winterLines : HeaderSays winterLines 0 200 (some (ascii "553")) none := by
  refine ⟨?_, ?_, ?_⟩ <;> decide

/-- A connection that brings the response in segments of one byte and more. -/
def winterConnection : Connection where
  wire := ⟨headerText winterLines ++ (winterText ++ []), [.upTo 1, .upTo 700, .upTo 0]⟩
  stack := List.replicate 16 0

theorem quiet_winterConnection : winterConnection.wire.Quiet := by
  unfold Wire.Quiet winterConnection
  decide

theorem derives_winterText : JsonText.Derives (.item winterTree) winterText := by
  have hnumbers : JsonText.numbers winterTree = [[48]] := rfl
  obtain ⟨t, ht, hderives⟩ := @JsonText.printValue_derives id true 0 winterTree
    (by
      rw [hnumbers]
      exact List.forall_mem_singleton.mpr (.parts (.inl rfl) (.inl rfl) (.inl rfl) (.inl rfl)))
  rw [(JsonText.mapNumbers_eq_self_iff id winterTree).mpr fun _ _ => rfl] at hderives
  have htext : winterText = t := by
    delta winterText
    rw [JsonText.cJSONPrint, ht]
    rfl
  have hitem := JsonText.Derives.item JsonText.isSpace_nil hderives JsonText.isSpace_nil
  rwa [List.nil_append, List.append_nil, ← htext] at hitem

theorem fetchWeather_of_response_winter :
    ∃ p, fetchWeatherFrom (.ofSource id) [winterConnection] = .ok p ∧ p.result = .ok () ∧
      ∀ (g : Globals) (f : Field),
        f.read (p.run g) = f.expected id winterStrings winterNumbers := by
  have hlength : winterBody.strlen = 553 := winterText_spec.2
  have hvalue : atoi (CStr.ofBytes (ascii "553")) = winterBody.strlen := by
    rw [hlength]
    decide
  obtain ⟨p, hp, hresult, hread⟩ := fetchWeather_of_response quiet_winterConnection
    rfl headerLines_winterLines headerSays_winterLines hvalue (by decide) (by omega)
    derives_winterText completeResponse_winterTree storable_winterStrings
  exact ⟨p, hp, hresult, fun g => (hread g).1⟩

/-! ## Responses in chunks -/

/-- The answers to the reads of a body in chunks: no piece holds bytes of two chunks. -/
theorem exchangeOf_chunked {c : Connection} (cs : List Connection) {lines : List (List UInt8)}
    {d sz rest : List UInt8} {ds : List (List UInt8)} (hquiet : c.wire.Quiet)
    (hstream : c.wire.stream =
      headerText lines ++ (sz ++ 13 :: 10 :: (d ++ 13 :: 10 :: rest)))
    (hlines : HeaderLines getHeaderBufsz lines)
    (hmeans : HeaderSays lines 0 200 none (some (ascii "chunked"))) (hd : d ≠ [])
    (hlen : d.length ≤ 2147483647) (hsize : SizeLine d.length sz) (hsz : sz.length ≤ 15)
    (hrest : ChunkText ds rest) :
    ∃ x, exchangeOf (c :: cs) = .ok x ∧ x.Answers (-1) (d ++ ds.flatten) ∧
      ds.length + 1 ≤ x.answers.length := by
  obtain ⟨s, hresponse, hposition, hlength, behind, hheader⟩ :=
    handleResponse_chunked (s := connected c) hquiet hstream hlines
      (show 17 ≤ getHeaderBufsz by decide) hmeans hd hlen hsize hsz hrest rfl c.stack
  have hget := webclientGet_ok cs hresponse hheader hlines
  have hrounds : (d ++ ds.flatten).length < s.wire.stream.length + 1 :=
    Nat.lt_succ_of_le hposition.length_le
  obtain ⟨pieces, hanswers, hsplit, hcount⟩ :=
    answers_of_position (fun _ => (⟨by decide, by decide⟩ : 0 < getRespBufsz ∧
      getRespBufsz ≤ 2147483647)) hposition hrounds 0
  have hreceived : received s = .ok pieces := by
    have hunknown : s.content_length < 0 := by
      rw [hlength]
      exact (show (-1 : Int) < 0 by decide)
    rw [received, if_pos hunknown, hanswers]
  obtain ⟨x, hx, hxanswers, rfl⟩ := exchangeOf_of_received hget hreceived hsplit
  rw [hlength] at hxanswers
  exact ⟨x, hx, hxanswers, hcount hd⟩

/-- A text in more than one chunk is not handed to the parser as it was sent, however it
is segmented: there is an answer for each chunk at least, and the answers are stored on top of
each other. -/
theorem not_reassembled_of_chunks {c : Connection} (cs : List Connection)
    {lines : List (List UInt8)} {d sz rest : List UInt8} {ds : List (List UInt8)}
    (hquiet : c.wire.Quiet)
    (hstream : c.wire.stream =
      headerText lines ++ (sz ++ 13 :: 10 :: (d ++ 13 :: 10 :: rest)))
    (hlines : HeaderLines getHeaderBufsz lines)
    (hmeans : HeaderSays lines 0 200 none (some (ascii "chunked"))) (hd : d ≠ [])
    (hsize : SizeLine d.length sz) (hsz : sz.length ≤ 15) (hrest : ChunkText ds rest)
    (hmore : ds ≠ []) (hnul : 0 ∉ d ++ ds.flatten) (hfits : (d ++ ds.flatten).length ≤ 4095) :
    ∃ x, exchangeOf (c :: cs) = .ok x ∧ x.respStatus = 200 ∧ x.contentLength = -1 ∧
      SplitOf (d ++ ds.flatten) x.answers ∧ ds.length + 1 ≤ x.answers.length ∧
      (fetchBuffer x.contentLength x.answers).buffer = layOver (fun _ => 0) x.answers ∧
      ¬Reassembled (fetchBuffer x.contentLength x.answers).buffer (d ++ ds.flatten) := by
  have hdpos := List.length_pos_of_ne_nil hd
  have hdspos := List.length_pos_of_ne_nil hmore
  have hlen : d.length ≤ 2147483647 := by
    rw [List.length_append] at hfits
    omega
  obtain ⟨x, hx, hanswers, hcount⟩ :=
    exchangeOf_chunked cs hquiet hstream hlines hmeans hd hlen hsize hsz hrest
  have hbuffer : (fetchBuffer x.contentLength x.answers).buffer =
      layOver (fun _ => 0) x.answers :=
    buffer_fetchBuffer hanswers.split (le_trans hfits (by decide))
      (.inl (by rw [hanswers.contentLength]; decide))
  refine ⟨x, hx, hanswers.respStatus, hanswers.contentLength, hanswers.split, hcount, hbuffer, ?_⟩
  rw [hbuffer, reassembled_layOver_iff hanswers.split]
  intro hall
  -- No piece reaches the last byte, which is not NUL.
  have hbody : 0 < (d ++ ds.flatten).length := by
    rw [List.length_append]
    omega
  have hlast := hall ((d ++ ds.flatten).length - 1) (Nat.sub_lt hbody Nat.one_pos)
  rw [topByte_last hanswers.split (by omega), Option.getD_none] at hlast
  exact hnul (hlast ▸ List.getElem_mem _)

/-- The lines of a response in chunks. -/
def chunkedLines : List (List UInt8) :=
  [ascii "HTTP/1.1 200 OK", ascii "Transfer-Encoding: chunked"]

/-- The size one. -/
theorem sizeLine_one : SizeLine 1 (ascii "1") :=
  .digits [(false, 1)] (List.cons_ne_nil _ _) [] (.inl rfl) List.not_mem_nil

/-- The end of a body in chunks. -/
theorem chunkText_zero : ChunkText [] (ascii "0" ++ [13, 10]) :=
  .last (.digits [(false, 0)] (List.cons_ne_nil _ _) [] (.inl rfl) List.not_mem_nil) (by decide) []

/-- An empty object in two chunks. -/
def splitConnection : Connection where
  wire := ⟨headerText chunkedLines ++ (ascii "1" ++ 13 :: 10 :: ([123] ++ 13 :: 10 ::
    (ascii "1" ++ 13 :: 10 :: ([125] ++ 13 :: 10 :: (ascii "0" ++ [13, 10]))))), []⟩
  stack := List.replicate 16 0

theorem not_reassembled_of_chunks_split :
    ∃ x, exchangeOf [splitConnection] = .ok x ∧ x.respStatus = 200 ∧ x.contentLength = -1 ∧
      SplitOf [123, 125] x.answers ∧ 2 ≤ x.answers.length ∧
      (fetchBuffer x.contentLength x.answers).buffer = layOver (fun _ => 0) x.answers ∧
      ¬Reassembled (fetchBuffer x.contentLength x.answers).buffer [123, 125] :=
  @not_reassembled_of_chunks splitConnection [] chunkedLines [123] (ascii "1")
    (ascii "1" ++ 13 :: 10 :: ([125] ++ 13 :: 10 :: (ascii "0" ++ [13, 10]))) [[125]]
    List.not_mem_nil rfl
    (show HeaderLines getHeaderBufsz chunkedLines by refine ⟨?_, ?_, ?_, ?_⟩ <;> decide)
    (by refine ⟨?_, ?_, ?_⟩ <;> decide) (List.cons_ne_nil _ _) sizeLine_one (by decide)
    (.chunk (List.cons_ne_nil _ _) (by decide) sizeLine_one (by decide) chunkText_zero)
    (List.cons_ne_nil _ _) (by decide) (by decide)

/-! ## Redirections -/

/-- A redirection that is answered in chunks leaves the session in chunk mode.  The
response that follows says how long it is, but one read delivers no more of it than the
first chunk of the redirection was long. -/
theorem webclientGet_stale_chunk {c c' : Connection} (cs : List Connection)
    {lines lines' : List (List UInt8)} {sz rest rest' : List UInt8} {n : Nat} {code length : Int}
    {old : Option (List UInt8)} {value : List UInt8} {encoding : Option (List UInt8)}
    (hquiet : c.wire.Quiet)
    (hstream : c.wire.stream = headerText lines ++ (sz ++ 13 :: 10 :: rest))
    (hlines : HeaderLines getHeaderBufsz lines)
    (hmeans : HeaderSays lines 0 code old (some (ascii "chunked")))
    (hcode : code = 302 ∨ code = 301)
    (hlocation : (lines.findSome? (fieldValue (ascii "Location"))).isSome)
    (hsize : SizeLine n sz) (hpos : 0 < n) (hn : n ≤ 2147483647) (hsz : sz.length ≤ 15)
    (hquiet' : c'.wire.Quiet) (hstream' : c'.wire.stream = headerText lines' ++ rest')
    (hlines' : HeaderLines getHeaderBufsz lines')
    (hmeans' : HeaderSays lines' code 200 (some value) encoding)
    (hplain : encoding ≠ some (ascii "chunked")) (hvalue : atoi (CStr.ofBytes value) = length) :
    ∃ s, webclientGet (c :: c' :: cs) (webclientSessionCreate getHeaderBufsz) = .ok (200, s) ∧
      s.content_length = length ∧ s.wire.stream = rest' ∧
      ∀ asked rc bytes s', asked ≤ 2147483647 →
        webclientRead s asked = .ok ((rc, bytes), s') → bytes.length ≤ n := by
  obtain ⟨wire, behind, -, -, hresponse⟩ := handleResponse_firstChunk (s := connected c) hquiet
    hstream hlines (show 17 ≤ getHeaderBufsz by decide) hmeans hsize hn hsz c.stack
  have hredirect := webclientGet_redirect (c' :: cs) hresponse hcode rfl hlines hlocation
  generalize hredirected : Session.redirected _ = s₁ at hredirect
  have hchunk : s₁.chunk_sz = n ∧ s₁.chunk_offset = 0 := by
    rw [← hredirected]
    exact ⟨rfl, rfl⟩
  have hkept : s₁.header.size = getHeaderBufsz ∧ s₁.resp_status = code := by
    rw [← hredirected]
    exact ⟨rfl, rfl⟩
  obtain ⟨wire', behind', hleft, -, hresponse'⟩ := handleResponse_plain (s := s₁.connect c') hquiet'
    hstream' (show HeaderLines s₁.header.size lines' by rw [hkept.1]; exact hlines')
    (show HeaderSays lines' s₁.resp_status 200 (some value) encoding by rw [hkept.2]; exact hmeans')
    hplain c'.stack
  refine ⟨_, hredirect.trans (webclientGet_ok cs hresponse' rfl hlines'), hvalue, hleft, ?_⟩
  intro asked rc bytes s' hasked hread
  have hleft' : s₁.chunk_sz - s₁.chunk_offset = n := by
    omega
  refine Int.ofNat_le.mp ((length_le_of_webclientRead ?_ ?_ hasked hread).trans_eq hleft')
  · change 0 < s₁.chunk_sz
    omega
  · change s₁.chunk_offset ≤ s₁.chunk_sz
    omega

/-- The lines of a redirection in chunks. -/
def foundLines : List (List UInt8) :=
  [ascii "HTTP/1.1 302 Found", ascii "Location: http://host/", ascii "Transfer-Encoding: chunked"]

/-- A redirection with a chunk of one byte. -/
def foundConnection : Connection where
  wire := ⟨headerText foundLines ++ (ascii "1" ++ 13 :: 10 :: []), []⟩
  stack := List.replicate 16 0

theorem webclientGet_stale_chunk_found :
    ∃ s, webclientGet [foundConnection, winterConnection] (webclientSessionCreate getHeaderBufsz) =
        .ok (200, s) ∧ s.content_length = 553 ∧ s.wire.stream = winterText ++ [] ∧
      ∀ asked rc bytes s', asked ≤ 2147483647 →
        webclientRead s asked = .ok ((rc, bytes), s') → bytes.length ≤ 1 :=
  webclientGet_stale_chunk (n := 1) [] List.not_mem_nil rfl
    (show HeaderLines getHeaderBufsz foundLines by refine ⟨?_, ?_, ?_, ?_⟩ <;> decide)
    (show HeaderSays foundLines 0 302 none (some (ascii "chunked")) by
      refine ⟨?_, ?_, ?_⟩ <;> decide)
    (.inl rfl) (by decide) sizeLine_one (by decide) (by decide) (by decide)
    quiet_winterConnection rfl headerLines_winterLines
    (show HeaderSays winterLines 302 200 (some (ascii "553")) none by
      refine ⟨?_, ?_, ?_⟩ <;> decide)
    (by decide) (by decide)

end WeatherStation
