import WeatherStation.Foundation.Canvas
import WeatherStation.Weather.Parse

/-!
# Fetching a response

The two read loops of {lit}`fetch_weather` and the call of the parser on the
received text.  A read is given by the bytes that {lit}`webclient_read` stores;
an empty answer stands for a result that is zero or negative.  Both loops pass
the same address to every read, so that every answer is stored at the start of
the buffer.

Main results:

- Theorem {lit}`buffer_fetchBuffer`: both loops leave the answers laid on top of
  each other.
- Theorem {lit}`reassembled_iff`: the splits of a body whose bytes the buffer
  holds in order.
- Theorem {lit}`fetchWeather_of_one_piece`: a text that arrives in one piece is
  the text that is parsed.
-/

open Foundation

namespace WeatherStation

/-! ## The read loops -/

/-- {lit}`GET_RESP_BUFSZ` -/
def getRespBufsz : Nat := 4096

/-- The response buffer and the lengths that reads were asked for so far. -/
structure Received where
  buffer : Memory
  asked : List Nat

/-- The buffer as {lit}`rt_calloc` returns it. -/
def Received.initial : Received where
  buffer _ := 0
  asked := []

/-- {lit}`webclient_read(session, buffer, length)` with the given answer. -/
def Received.webclientRead (rc : Received) (length : Nat) (answer : List UInt8) : Received where
  buffer := rc.buffer.write 0 (answer.take length)
  asked := rc.asked ++ [length]

/-- The loop for a response of unknown length. -/
def readChunked (rc : Received) : List (List UInt8) → Received
  | [] => rc.webclientRead getRespBufsz []
  | answer :: answers =>
      let rc' := rc.webclientRead getRespBufsz answer
      let bytes_read := (answer.take getRespBufsz).length
      if bytes_read = 0 then rc' else readChunked rc' answers

/-- The length that the loop for a response of known length asks for. -/
def requestLength (content_length content_pos : Int) : Nat :=
  if content_length - content_pos > getRespBufsz then getRespBufsz
  else (content_length - content_pos).toNat

/-- The loop for a response of known length. -/
def readKnown (content_length : Int) (content_pos : Int) (rc : Received) :
    List (List UInt8) → Received
  | [] => rc.webclientRead (requestLength content_length content_pos) []
  | answer :: answers =>
      let length := requestLength content_length content_pos
      let rc' := rc.webclientRead length answer
      let bytes_read := (answer.take length).length
      if bytes_read = 0 then rc'
      else if content_pos + bytes_read < content_length then
        readKnown content_length (content_pos + bytes_read) rc' answers
      else rc'

/-- The buffer that {lit}`fetch_weather` hands to the parser. -/
def fetchBuffer (content_length : Int) (answers : List (List UInt8)) : Received :=
  if content_length < 0 then readChunked .initial answers
  else readKnown content_length 0 .initial answers

/-- What {lit}`fetch_weather` meets: the results of its allocations, the status
and length of the response and the answers of the reads. -/
structure Exchange where
  weatherUrl : Bool
  session : Bool
  respStatus : Int
  buffer : Bool
  contentLength : Int
  answers : List (List UInt8)

/-- The parser applied to the text in a buffer of {lit}`size` bytes. -/
def parseBuffer (env : ParseEnv) (buffer : Memory) (size : Nat) : Parse Unit :=
  if 0 ∈ buffer.read 0 size then
    weatherDataParse env (CStr.ofBytes (buffer.read 0 size)).bytes
  else ⟨[], .error .unterminated⟩

/-- {lit}`fetch_weather`, as far as it writes the globals. -/
def fetchWeather (env : ParseEnv) (x : Exchange) : Parse Unit :=
  if !x.weatherUrl then pure ()
  else if !x.session then pure ()
  else if x.respStatus ≠ 200 then pure ()
  else if !x.buffer then pure ()
  else parseBuffer env (fetchBuffer x.contentLength x.answers).buffer getRespBufsz

/-! ## The answers on top of each other -/

/-- A body as it arrives: nonempty pieces in order. -/
structure SplitOf (body : List UInt8) (pieces : List (List UInt8)) : Prop where
  nonempty : ∀ r ∈ pieces, r ≠ []
  flatten : pieces.flatten = body

namespace SplitOf

variable {body : List UInt8} {pieces : List (List UInt8)}

theorem length_le (h : SplitOf body pieces) {r : List UInt8} (hr : r ∈ pieces) :
    r.length ≤ body.length := by
  rw [← h.flatten]
  exact (List.sublist_flatten_of_mem hr).length_le

/-- The pieces after the first one are a split of the rest of the body. -/
theorem tail {r : List UInt8} {rs : List (List UInt8)} (h : SplitOf body (r :: rs)) :
    SplitOf (body.drop r.length) rs where
  nonempty r' hr' := h.nonempty r' (List.mem_cons_of_mem _ hr')
  flatten := by rw [← h.flatten, List.flatten_cons, List.drop_left]

theorem length_cons {r : List UInt8} {rs : List (List UInt8)} (h : SplitOf body (r :: rs)) :
    0 < r.length ∧ r.length + rs.flatten.length = body.length := by
  refine ⟨List.length_pos_of_ne_nil (h.nonempty r List.mem_cons_self), ?_⟩
  rw [← h.flatten, List.flatten_cons, List.length_append]

end SplitOf

/-- A piece as a layer on the buffer, which it covers from the start on. -/
def pieceLayer (r : List UInt8) : Layer Nat UInt8 :=
  fun i => r[i]?

/-- All answers stored at the start of a buffer, one after the other. -/
def layOver (m : Memory) (pieces : List (List UInt8)) : Memory :=
  Canvas.paintAll m (pieces.map pieceLayer)

/-- The byte that the last piece long enough to reach position {lit}`i` has there. -/
def topByte (i : Nat) (pieces : List (List UInt8)) : Option UInt8 :=
  Canvas.top (pieces.map pieceLayer) i

/-- Storing at the start of a buffer paints a layer over it. -/
theorem write_zero_eq_paint (m : Memory) (r : List UInt8) :
    m.write 0 r = Canvas.paint m (pieceLayer r) := by
  ext i : 1
  by_cases hi : i < r.length
  · rw [Memory.write_of_mem m ⟨Nat.zero_le i, by omega⟩, Canvas.paint, pieceLayer,
      List.getElem?_eq_getElem hi]
    simp [hi]
  · rw [Memory.write_of_not_mem m (by omega), Canvas.paint, pieceLayer,
      List.getElem?_eq_none (by omega)]
    rfl

theorem topByte_eq_none {i : Nat} {pieces : List (List UInt8)}
    (h : ∀ r ∈ pieces, r.length ≤ i) : topByte i pieces = none := by
  refine Canvas.top_eq_none_iff.mpr fun l hl => ?_
  rcases List.mem_map.mp hl with ⟨r, hr, rfl⟩
  exact List.getElem?_eq_none (h r hr)

/-- The loop for unknown length stores every piece of a body that fits the buffer. -/
theorem buffer_readChunked {body : List UInt8} {pieces : List (List UInt8)}
    (hsplit : SplitOf body pieces) (hlen : body.length ≤ getRespBufsz) (rc : Received) :
    (readChunked rc pieces).buffer = layOver rc.buffer pieces := by
  induction pieces generalizing rc body with
  | nil =>
      rw [readChunked, Received.webclientRead, List.take_nil, Memory.write_nil]
      rfl
  | cons r rs ih =>
      rcases hsplit.length_cons with ⟨hpos, hsum⟩
      have htake : r.take getRespBufsz = r := List.take_of_length_le (by omega)
      rw [readChunked, htake, if_neg (by omega),
        ih hsplit.tail (by rw [List.length_drop]; omega)]
      simp only [Received.webclientRead, htake, write_zero_eq_paint]
      rfl

/-- So does the loop for known length, which asks for all that is left. -/
theorem buffer_readKnown {body : List UInt8} {pieces : List (List UInt8)}
    (hsplit : SplitOf body pieces) {content_length content_pos : Int} (rc : Received)
    (hlen : body.length ≤ getRespBufsz) (hpos : content_length - content_pos = body.length) :
    (readKnown content_length content_pos rc pieces).buffer = layOver rc.buffer pieces := by
  induction pieces generalizing rc body content_pos with
  | nil =>
      rw [readKnown, Received.webclientRead, List.take_nil, Memory.write_nil]
      rfl
  | cons r rs ih =>
      rcases hsplit.length_cons with ⟨hr, hsum⟩
      have hrequest : requestLength content_length content_pos = body.length := by
        rw [requestLength, if_neg (by omega)]
        omega
      have htake : r.take body.length = r := List.take_of_length_le (by omega)
      have hstep : rc.webclientRead body.length r =
          ⟨rc.buffer.write 0 r, rc.asked ++ [body.length]⟩ := by
        rw [Received.webclientRead, htake]
      rw [readKnown, hrequest, htake, hstep, if_neg (by omega)]
      split_ifs with hmore
      · rw [ih hsplit.tail _ (by rw [List.length_drop]; omega) (by rw [List.length_drop]; omega),
          write_zero_eq_paint]
        rfl
      · -- The body is complete, so there are no further pieces.
        have hrs : rs = [] := by
          cases rs with
          | nil => rfl
          | cons r' rs' =>
              have hnext := hsplit.tail.length_cons
              simp only [List.flatten_cons, List.length_append, List.length_drop] at hsum hnext
              omega
        subst hrs
        exact write_zero_eq_paint rc.buffer r

/-- In both modes the buffer holds the pieces laid on top of each other. -/
theorem buffer_fetchBuffer {body : List UInt8} {pieces : List (List UInt8)}
    (hsplit : SplitOf body pieces) (hlen : body.length ≤ getRespBufsz) {content_length : Int}
    (hmode : content_length < 0 ∨ content_length = body.length) :
    (fetchBuffer content_length pieces).buffer = layOver (fun _ => 0) pieces := by
  unfold fetchBuffer
  split_ifs with hneg
  · exact buffer_readChunked hsplit hlen .initial
  · exact buffer_readKnown hsplit .initial hlen (by omega)

/-! ## Reassembly -/

/-- The buffer holds the body's bytes in order, followed by a NUL byte. -/
def Reassembled (buffer : Memory) (body : List UInt8) : Prop :=
  buffer.read 0 (body.length + 1) = body ++ [0]

theorem reassembled_iff_apply {buffer : Memory} {body : List UInt8} :
    Reassembled buffer body ↔
      (∀ i (hi : i < body.length), buffer i = body[i]) ∧ buffer body.length = 0 := by
  have hlast : buffer.read (0 + body.length) 1 = [buffer body.length] := by simp [Memory.read]
  rw [Reassembled, Memory.read_add, hlast]
  constructor
  · intro h
    rcases List.append_inj h (by simp) with ⟨hread, hend⟩
    exact ⟨by simpa using Memory.read_eq_iff.mp hread, List.singleton_inj.mp hend⟩
  · rintro ⟨hread, hend⟩
    rw [Memory.read_eq_iff.mpr (by simpa using hread), hend]

/-- Pieces of a body laid over a cleared buffer reproduce the body when at every
position the topmost piece agrees with it. -/
theorem reassembled_layOver_iff {body : List UInt8} {pieces : List (List UInt8)}
    (hsplit : SplitOf body pieces) :
    Reassembled (layOver (fun _ => 0) pieces) body ↔
      ∀ i (hi : i < body.length), (topByte i pieces).getD 0 = body[i] := by
  have hend : topByte body.length pieces = none := topByte_eq_none fun r hr => hsplit.length_le hr
  simp only [reassembled_iff_apply, layOver, Canvas.paintAll_apply]
  change (∀ i (hi : i < body.length), (topByte i pieces).getD 0 = body[i]) ∧
    (topByte body.length pieces).getD 0 = 0 ↔ _
  rw [hend]
  simp

/-- A single piece lies in the buffer as it came. -/
theorem topByte_of_length_le_one {body : List UInt8} {pieces : List (List UInt8)}
    (hsplit : SplitOf body pieces) (hone : pieces.length ≤ 1) {i : Nat} (hi : i < body.length) :
    (topByte i pieces).getD 0 = body[i] := by
  have hflat := hsplit.flatten
  cases pieces with
  | nil =>
      subst hflat
      exact absurd hi (Nat.not_lt_zero i)
  | cons r rs =>
      obtain rfl : rs = [] := List.length_eq_zero_iff.mp (by simpa using hone)
      rw [List.flatten_singleton] at hflat
      subst hflat
      simp [topByte, Canvas.top, pieceLayer, hi]

/-- With more than one piece none reaches the last byte of the body. -/
theorem topByte_last {body : List UInt8} {pieces : List (List UInt8)}
    (hsplit : SplitOf body pieces) (hmany : 1 < pieces.length) :
    topByte (body.length - 1) pieces = none := by
  refine topByte_eq_none fun r hr => ?_
  rcases List.append_of_mem hr with ⟨pre, post, rfl⟩
  have hsum := congrArg List.length hsplit.flatten
  simp only [List.flatten_append, List.flatten_cons, List.length_append] at hsum
  -- Some piece other than `r` takes at least one byte.
  have hother : 0 < pre.flatten.length + post.flatten.length := by
    simp only [List.length_append, List.length_cons] at hmany
    cases pre with
    | cons p ps =>
        have hp := List.length_pos_of_ne_nil (hsplit.nonempty p (by simp))
        simp only [List.flatten_cons, List.length_append]
        omega
    | nil =>
        cases post with
        | nil => simp at hmany
        | cons p ps =>
            have hp := List.length_pos_of_ne_nil (hsplit.nonempty p (by simp))
            simp only [List.flatten_cons, List.length_append]
            omega
  omega

/-- The buffer handed to the parser holds the body followed by a NUL byte exactly
when at every position the last piece that reaches it has the body's byte there.
For a text, which has no NUL byte inside, this means that the body arrived in at
most one piece. -/
theorem reassembled_iff {body : List UInt8} {pieces : List (List UInt8)} {content_length : Int}
    (hlen : body.length ≤ 4095) (hsplit : SplitOf body pieces)
    (hmode : content_length < 0 ∨ content_length = body.length) :
    (Reassembled (fetchBuffer content_length pieces).buffer body ↔
      ∀ i (hi : i < body.length), (topByte i pieces).getD 0 = body[i]) ∧
    (0 ∉ body →
      (Reassembled (fetchBuffer content_length pieces).buffer body ↔ pieces.length ≤ 1)) := by
  have hbuffer := buffer_fetchBuffer hsplit (hlen.trans (by decide)) hmode
  rw [hbuffer, reassembled_layOver_iff hsplit]
  refine ⟨Iff.rfl, fun hzero => ⟨fun h => ?_, fun hone i hi => ?_⟩⟩
  · by_contra hmany
    have hne : body ≠ [] := by
      rintro rfl
      cases pieces with
      | nil => exact hmany (Nat.zero_le 1)
      | cons r rs =>
          rcases hsplit.length_cons with ⟨hpos, hsum⟩
          rw [List.length_nil] at hsum
          omega
    have hlast := h (body.length - 1)
      (Nat.sub_lt (List.length_pos_of_ne_nil hne) Nat.one_pos)
    rw [topByte_last hsplit (by omega), Option.getD_none] at hlast
    exact hzero (hlast ▸ List.getElem_mem _)
  · exact topByte_of_length_le_one hsplit hone hi

/-- The two bytes of an empty object. -/
def emptyObjectText : List UInt8 := [123, 125]

theorem reassembled_one_piece :
    Reassembled (fetchBuffer 2 [emptyObjectText]).buffer emptyObjectText :=
  ((reassembled_iff (show emptyObjectText.length ≤ 4095 by decide) ⟨by decide, rfl⟩
    (.inr (by decide))).2 (by decide)).mpr (by decide)

/-- The second of two pieces overwrites the first one. -/
theorem not_always_reassembled :
    ¬∀ (body : List UInt8) (pieces : List (List UInt8)) (content_length : Int),
      body.length ≤ 4095 → SplitOf body pieces →
        (content_length < 0 ∨ content_length = body.length) →
          Reassembled (fetchBuffer content_length pieces).buffer body := by
  intro h
  have hsplit : SplitOf emptyObjectText (emptyObjectText.map fun b => [b]) :=
    ⟨by decide, by decide⟩
  exact absurd (h _ _ 2 (by decide) hsplit (.inr (by decide))) (by unfold Reassembled; decide)

/-! ## From the network to the globals -/

/-- The parser is given the text that a buffer holds. -/
theorem parseBuffer_of_reassembled (env : ParseEnv) {buffer : Memory} {body : CStr} {size : Nat}
    (hread : Reassembled buffer body.bytes) (hsize : body.strlen < size) :
    parseBuffer env buffer size = weatherDataParse env body.bytes := by
  have hlen : size = (body.bytes.length + 1) + (size - (body.bytes.length + 1)) := by
    unfold CStr.strlen at hsize
    omega
  have hprefix : ∃ rest, buffer.read 0 size = body.bytes ++ 0 :: rest := by
    refine ⟨buffer.read (body.bytes.length + 1) (size - (body.bytes.length + 1)), ?_⟩
    conv_lhs => rw [hlen, Memory.read_add, Nat.zero_add, hread]
    simp
  rcases hprefix with ⟨rest, hrest⟩
  have htext : (CStr.ofBytes (buffer.read 0 size)).bytes = body.bytes := by
    have hall : ∀ b ∈ body.bytes, decide (b ≠ 0) = true :=
      fun b hb => decide_eq_true (body.ne_zero_of_mem hb)
    rw [hrest]
    simp only [CStr.ofBytes, List.takeWhile_append_of_pos hall]
    simp
  rw [parseBuffer, if_pos (by rw [hrest]; simp), htext]

/-- A text that arrives in one piece is the text that the parser is given. -/
theorem fetchWeather_of_one_piece (env : ParseEnv) {x : Exchange} {body : CStr}
    (hurl : x.weatherUrl = true) (hsession : x.session = true) (hstatus : x.respStatus = 200)
    (hbuffer : x.buffer = true) (hlen : body.strlen ≤ 4095)
    (hmode : x.contentLength < 0 ∨ x.contentLength = body.strlen)
    (hsplit : SplitOf body.bytes x.answers) (hone : x.answers.length ≤ 1) :
    fetchWeather env x = weatherDataParse env body.bytes := by
  have hread : Reassembled (fetchBuffer x.contentLength x.answers).buffer body.bytes := by
    rw [buffer_fetchBuffer hsplit (le_trans hlen (by decide)) hmode,
      reassembled_layOver_iff hsplit]
    exact fun i hi => topByte_of_length_le_one hsplit hone hi
  have hsize : body.strlen < getRespBufsz := Nat.lt_succ_of_le hlen
  simp [fetchWeather, hurl, hsession, hstatus, hbuffer,
    parseBuffer_of_reassembled env hread hsize]

end WeatherStation
