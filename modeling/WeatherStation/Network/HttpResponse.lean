import WeatherStation.Network.HttpRead
import WeatherStation.Weather.Json

/-!
# The header of a response

{lit}`webclient_handle_response` and the search of a field in the header, up to the
point where the body is read.  The header is kept in one buffer, in which each line is
turned into a string of its own.

Main results:

- Theorem {lit}`headerFieldsGet_lines`: a field is looked for in every line, at any
  place of the line.
- Theorem {lit}`handleResponse_lines`: what a complete header leaves behind, however it
  is segmented.
- Theorem {lit}`handleResponse_overflow_iff`: which lines of a chunk's size are too long.
-/

open Foundation

namespace WeatherStation

/-! ## Searching -/

/-- {lit}`webclient_strncasecmp`: the bytes behind the end of a string count as its
terminator. -/
def webclientStrncasecmp : Nat → List UInt8 → List UInt8 → Int
  | 0, _, _ => 0
  | n + 1, a, b =>
      let c1 := tolower (a.headD 0)
      let c2 := tolower (b.headD 0)
      if n ≠ 0 ∧ c1 ≠ 0 ∧ c1 = c2 then webclientStrncasecmp n a.tail b.tail
      else c1.toNat - c2.toNat

/-- The loop of {lit}`webclient_strstri`. -/
def strstriLoop (subStr : List UInt8) : List UInt8 → Option (List UInt8)
  | [] => none
  | c :: str =>
      if webclientStrncasecmp subStr.length (c :: str) subStr = 0 then some (c :: str)
      else strstriLoop subStr str

/-- {lit}`webclient_strstri`. -/
def webclientStrstri (str subStr : List UInt8) : Option (List UInt8) :=
  if subStr.length = 0 then none else strstriLoop subStr str

/-- {lit}`rt_strstr` for a string that is not empty. -/
def rtStrstr (s2 : List UInt8) : List UInt8 → Option (List UInt8)
  | [] => none
  | c :: s1 => if (c :: s1).take s2.length = s2 then some (c :: s1) else rtStrstr s2 s1

/-- A blank or a tabulator. -/
def isBlank (c : UInt8) : Bool :=
  c = 32 || c = 9

/-- The value of a field in a line that names it: what stands behind the first colon. -/
def fieldValue (fields line : List UInt8) : Option (List UInt8) :=
  if (webclientStrstri line fields).isSome then
    (rtStrstr [58] line).map fun mime_ptr => mime_ptr.tail.dropWhile isBlank
  else none

/-- The loop of {lit}`webclient_header_fields_get`.  The length of a line is counted when
the line before it is left.  Every round leaves a line, so the size of the buffer bounds
the rounds. -/
def headerFieldsLoop (fields : List UInt8) (length : Nat) :
    Nat → List UInt8 → Nat → Client (Option (List UInt8))
  | 0, _, _ => .ok none
  | n + 1, resp_buf, resp_buf_len =>
      if resp_buf_len < length then
        if 0 ∈ resp_buf then
          let line := resp_buf.takeWhile (· ≠ 0)
          match fieldValue fields line with
          | some mime_ptr => .ok (some mime_ptr)
          | none =>
              if line = [] then .ok none
              else
                let next := resp_buf.drop (line.length + 1)
                if 0 ∈ next then
                  headerFieldsLoop fields length n next
                    (resp_buf_len + (next.takeWhile (· ≠ 0)).length + 1)
                else .fault .overread
        else .fault .overread
      else .ok none

/-- {lit}`webclient_header_fields_get`. -/
def headerFieldsGet (header : Header) (fields : List UInt8) : Client (Option (List UInt8)) :=
  headerFieldsLoop fields header.length header.buffer.length header.buffer 0

/-! ## The header -/

/-- The bytes of an ASCII text. -/
def ascii (s : String) : List UInt8 :=
  s.toList.map fun c => UInt8.ofNat c.toNat

/-- What the loop over the lines of the header leaves: its last result, whether the
buffer is full, the bytes up to the last one that was stored, and
{lit}`header->length`. -/
structure HeaderText where
  rc : Int
  full : Bool
  text : List UInt8
  length : Nat

/-- The loop that reads the lines of the header.  Every round that goes on stores at
least one byte, so the size of the buffer bounds the rounds. -/
def readHeader (size : Nat) : Nat → List UInt8 → Wire UInt8 → HeaderText × Wire UInt8
  | 0, text, wire => (⟨0, true, text, text.length⟩, wire)
  | n + 1, text, wire =>
      match readLine (size - text.length) wire with
      | (line, wire) =>
          if line.rc ≤ 0 then (⟨line.rc, false, text ++ line.stored, text.length⟩, wire)
          else if line.rc = 1 ∧ line.stored.head? = some 13 then
            (⟨line.rc, false, text ++ [0], text.length⟩, wire)
          else
            let text := text ++ (line.stored.dropLast ++ [0])
            if size ≤ text.length then (⟨line.rc, true, text, text.length⟩, wire)
            else readHeader size n text wire

/-- The status in a copy of the first line.  The code ends at a blank, which is looked for
behind the end of the copy as well. -/
def respStatus (mime_ptr : List UInt8) (old : Int) : Client Int :=
  if (rtStrstr (ascii "HTTP/1.") mime_ptr).isSome then
    let ptr := (mime_ptr.drop 8).dropWhile isBlank
    if ptr.any isBlank then .ok (atoi (CStr.ofBytes (ptr.takeWhile fun c => !isBlank c)))
    else .fault .overread
  else .ok old

/-- The length of the content, when the header has the field. -/
def Session.setContent (s : Session) (field : Option (List UInt8)) : Session :=
  let content_length :=
    match field with
    | some value => atoi (CStr.ofBytes value)
    | none => s.content_length
  { s with
    content_length := content_length
    content_remainder :=
      if content_length = 0 then 4294967295 else (content_length % 4294967296).toNat }

/-- The size of the first chunk is read into an array of 16 bytes, which holds
{lit}`stack` before, as if it had the size of the header. -/
def firstChunk (stack : List UInt8) (s : Session) : Client Session :=
  let (line, wire) := readLine s.header.size s.wire
  if 16 < line.stored.length then .fault .overflow
  else do
    let chunk_sz ← strtol16 (line.stored ++ stack.drop line.stored.length)
    pure { s with wire := wire, chunk_sz := chunk_sz, chunk_offset := 0 }

/-- Chunk mode, when the field says so. -/
def Session.setTransfer (stack : List UInt8) (field : Option (List UInt8)) (s : Session) :
    Client Session :=
  if field = some (ascii "chunked") then firstChunk stack s else .ok s

/-- {lit}`webclient_handle_response` behind the loop over the lines. -/
def takeHeader (strdup : Bool) (stack : List UInt8) (rc : Int) (s : Session) :
    Client (Int × Session) :=
  if strdup then do
    let resp_status ← respStatus (s.header.buffer.takeWhile (· ≠ 0)) s.resp_status
    let content_length ← headerFieldsGet s.header (ascii "Content-Length")
    let s := { s with resp_status := resp_status }.setContent content_length
    let transfer_encoding ← headerFieldsGet s.header (ascii "Transfer-Encoding")
    let s ← s.setTransfer stack transfer_encoding
    pure (if rc < 0 then rc else s.resp_status, s)
  else .ok (-3, s)

/-- The header after the loop over its lines. -/
def Session.setHeader (s : Session) (h : HeaderText) : Session :=
  { s with
    header :=
      { s.header with
        buffer := h.text ++ List.replicate (s.header.size - h.text.length) 0
        length := h.length } }

/-- {lit}`webclient_handle_response`; {lit}`strdup` says whether the copy of the first
line can be allocated. -/
def handleResponse (strdup : Bool) (stack : List UInt8) (s : Session) : Client (Int × Session) :=
  match readHeader s.header.size (s.header.size + 1) [] s.wire with
  | (h, wire) =>
      if h.full then .ok (-3, { s with wire := wire }.setHeader h)
      else takeHeader strdup stack h.rc ({ s with wire := wire }.setHeader h)

/-! ## Complete headers -/

/-- The lines of a header, each with its end, and the empty line behind them. -/
def headerText (lines : List (List UInt8)) : List UInt8 :=
  (lines.map (· ++ [13, 10])).flatten ++ [13, 10]

/-- The lines as they are kept in the buffer. -/
def keptLines (lines : List (List UInt8)) : List UInt8 :=
  (lines.map (· ++ [0])).flatten

/-- The header that a complete header leaves. -/
def keptHeader (lines : List (List UInt8)) (after : List UInt8) (size : Nat) : Header where
  buffer := keptLines lines ++ 0 :: after
  length := (keptLines lines).length
  size := size

/-- Lines that fit in a buffer. -/
structure HeaderLines (size : Nat) (lines : List (List UInt8)) : Prop where
  nonempty : ∀ l ∈ lines, l ≠ []
  noLf : ∀ l ∈ lines, 10 ∉ l
  noNul : ∀ l ∈ lines, 0 ∉ l
  fits : (keptLines lines).length + 2 ≤ size

theorem keptLines_cons (l : List UInt8) (ls : List (List UInt8)) :
    keptLines (l :: ls) = l ++ 0 :: keptLines ls := by
  simp [keptLines]

theorem headerText_cons (l : List UInt8) (ls : List (List UInt8)) :
    headerText (l :: ls) = l ++ 13 :: 10 :: headerText ls := by
  simp [headerText]

theorem length_keptLines_cons (l : List UInt8) (ls : List (List UInt8)) :
    (keptLines (l :: ls)).length = l.length + 1 + (keptLines ls).length := by
  rw [keptLines_cons, List.length_append, List.length_cons]
  omega

/-- The loop keeps the lines of a complete header and stops behind its empty line. -/
theorem readHeader_lines {size : Nat} {lines : List (List UInt8)} {rest : List UInt8}
    {wire : Wire UInt8} (hquiet : wire.Quiet) (hstream : wire.stream = headerText lines ++ rest)
    {text : List UInt8} (hne : ∀ l ∈ lines, l ≠ []) (hlf : ∀ l ∈ lines, 10 ∉ l)
    (hfits : text.length + (keptLines lines).length + 2 ≤ size) {n : Nat}
    (hn : lines.length < n) :
    ∃ wire', readHeader size n text wire =
        (⟨1, false, text ++ keptLines lines ++ [0], (text ++ keptLines lines).length⟩, wire') ∧
      wire'.stream = rest ∧ wire'.Quiet := by
  induction lines generalizing wire text n with
  | nil =>
      obtain ⟨n, rfl⟩ : ∃ k, n = k + 1 := ⟨n - 1, by rw [List.length_nil] at hn; omega⟩
      have hsize : ([] : List UInt8).length + 2 ≤ size - text.length := by
        rw [List.length_nil]
        omega
      obtain ⟨wire', hline, hstream', hquiet'⟩ :=
        readLine_eq List.not_mem_nil hquiet hstream hsize
      refine ⟨wire', ?_, hstream', hquiet'⟩
      rw [readHeader, hline]
      simp [keptLines]
  | cons l ls ih =>
      obtain ⟨n, rfl⟩ : ∃ k, n = k + 1 := ⟨n - 1, by rw [List.length_cons] at hn; omega⟩
      rw [length_keptLines_cons] at hfits
      rw [List.length_cons] at hn
      rw [headerText_cons, List.append_assoc, List.cons_append, List.cons_append] at hstream
      have hlne := hne l List.mem_cons_self
      have hlpos := List.length_pos_of_ne_nil hlne
      obtain ⟨wire₁, hline, hstream₁, hquiet₁⟩ :=
        readLine_eq (hlf l List.mem_cons_self) hquiet hstream
          (show l.length + 2 ≤ size - text.length by omega)
      have hkept : (text ++ (l ++ [0])).length = text.length + l.length + 1 := by
        simp only [List.length_append, List.length_singleton]
        omega
      obtain ⟨wire', hloop, hstream', hquiet'⟩ :=
        ih hquiet₁ hstream₁
          (fun l' hl' => hne l' (List.mem_cons_of_mem _ hl'))
          (fun l' hl' => hlf l' (List.mem_cons_of_mem _ hl'))
          (show (text ++ (l ++ [0])).length + (keptLines ls).length + 2 ≤ size by omega)
          (show ls.length < n by omega)
      refine ⟨wire', ?_, hstream', hquiet'⟩
      rw [readHeader, hline]
      dsimp only
      rw [if_neg (by omega), if_neg (by omega), List.dropLast_concat, if_neg (by omega), hloop]
      simp [keptLines_cons]

/-- The string that starts with a line is the line. -/
theorem takeWhile_line {l : List UInt8} (h : 0 ∉ l) (r : List UInt8) :
    (l ++ 0 :: r).takeWhile (· ≠ 0) = l := by
  have hall : ∀ c ∈ l, decide (c ≠ 0) = true := by
    intro c hc
    rw [decide_eq_true_eq]
    rintro rfl
    exact h hc
  rw [List.takeWhile_append_of_pos hall, List.takeWhile_cons_of_neg (by simp), List.append_nil]

/-- A field is looked for line by line, up to the empty line. -/
theorem headerFieldsLoop_lines {fields : List UInt8} {length : Nat}
    {lines : List (List UInt8)} (hne : ∀ l ∈ lines, l ≠ []) (hnul : ∀ l ∈ lines, 0 ∉ l)
    (after : List UInt8) {n resp_buf_len : Nat} (hn : lines.length < n)
    (hlen : lines ≠ [] → resp_buf_len + (keptLines lines.tail).length < length) :
    headerFieldsLoop fields length n (keptLines lines ++ 0 :: after) resp_buf_len =
      .ok (lines.findSome? (fieldValue fields)) := by
  induction lines generalizing n resp_buf_len with
  | nil =>
      obtain ⟨n, rfl⟩ : ∃ k, n = k + 1 := ⟨n - 1, by rw [List.length_nil] at hn; omega⟩
      have hempty : fieldValue fields [] = none := by
        unfold fieldValue webclientStrstri
        split_ifs <;> simp_all [strstriLoop]
      rw [headerFieldsLoop]
      simp [keptLines, hempty]
  | cons l ls ih =>
      obtain ⟨n, rfl⟩ : ∃ k, n = k + 1 := ⟨n - 1, by rw [List.length_cons] at hn; omega⟩
      have hlnul := hnul l List.mem_cons_self
      have hlne := hne l List.mem_cons_self
      have hlen' := hlen (List.cons_ne_nil l ls)
      rw [List.tail_cons] at hlen'
      have hnext : (l ++ 0 :: (keptLines ls ++ 0 :: after)).drop (l.length + 1) =
          keptLines ls ++ 0 :: after := by
        rw [List.drop_length_add_append, List.drop_one, List.tail_cons]
      rw [keptLines_cons, List.append_assoc, List.cons_append, headerFieldsLoop,
        if_pos (by omega), if_pos (by simp)]
      dsimp only
      rw [takeWhile_line hlnul, List.findSome?_cons]
      cases hvalue : fieldValue fields l with
      | some mime_ptr => rfl
      | none =>
          dsimp only
          rw [if_neg hlne, hnext, if_pos (by simp)]
          refine ih (fun l' hl' => hne l' (List.mem_cons_of_mem _ hl'))
            (fun l' hl' => hnul l' (List.mem_cons_of_mem _ hl'))
            (by rw [List.length_cons] at hn; omega) ?_
          intro hls
          cases ls with
          | nil => exact absurd rfl hls
          | cons l' ls =>
              have hnul' := hnul l' (List.mem_cons_of_mem l List.mem_cons_self)
              rw [length_keptLines_cons] at hlen'
              rw [keptLines_cons, List.append_assoc, List.cons_append, takeWhile_line hnul',
                List.tail_cons]
              omega

theorem length_le_length_keptLines (lines : List (List UInt8)) :
    lines.length ≤ (keptLines lines).length := by
  induction lines with
  | nil => exact le_rfl
  | cons l ls ih =>
      rw [length_keptLines_cons, List.length_cons]
      omega

/-- The field's value is that of the first line that names it, at any place, and has a
colon. -/
theorem headerFieldsGet_lines {lines : List (List UInt8)} (hne : ∀ l ∈ lines, l ≠ [])
    (hnul : ∀ l ∈ lines, 0 ∉ l) (fields after : List UInt8) (size : Nat) :
    headerFieldsGet (keptHeader lines after size) fields =
      .ok (lines.findSome? (fieldValue fields)) := by
  refine headerFieldsLoop_lines hne hnul after ?_ ?_
  · have hle := length_le_length_keptLines lines
    rw [keptHeader, List.length_append, List.length_cons]
    omega
  · intro hlines
    cases lines with
    | nil => exact absurd rfl hlines
    | cons l ls =>
        dsimp only [keptHeader]
        rw [length_keptLines_cons, List.tail_cons]
        omega

theorem takeWhile_keptLines {lines : List (List UInt8)} (hnul : ∀ l ∈ lines, 0 ∉ l)
    (after : List UInt8) :
    (keptLines lines ++ 0 :: after).takeWhile (· ≠ 0) = lines.headD [] := by
  cases lines with
  | nil => rfl
  | cons l ls =>
      rw [keptLines_cons, List.append_assoc, List.cons_append,
        takeWhile_line (hnul l List.mem_cons_self)]
      rfl

/-- What the lines of a complete header say is taken over. -/
theorem takeHeader_lines {lines : List (List UInt8)} (hne : ∀ l ∈ lines, l ≠ [])
    (hnul : ∀ l ∈ lines, 0 ∉ l) {s : Session} {after : List UInt8} {size : Nat}
    (hheader : s.header = keptHeader lines after size) (stack : List UInt8) :
    takeHeader true stack 1 s = (do
      let resp_status ← respStatus (lines.headD []) s.resp_status
      let s := { s with resp_status := resp_status }.setContent
        (lines.findSome? (fieldValue (ascii "Content-Length")))
      let s ← s.setTransfer stack (lines.findSome? (fieldValue (ascii "Transfer-Encoding")))
      pure (s.resp_status, s)) := by
  have hfirst : (keptHeader lines after size).buffer.takeWhile (· ≠ 0) = lines.headD [] :=
    takeWhile_keptLines hnul after
  simp only [takeHeader, if_true, hfirst, Session.setContent, hheader,
    headerFieldsGet_lines hne hnul, Outcome.ok_bind, Int.reduceLT, if_false]

/-- A complete header that fits the buffer is read to its end, however it is segmented.
The status is that of its first line; the length of the content and the encoding are
those of the first lines that name the fields. -/
theorem handleResponse_lines {s : Session} {lines : List (List UInt8)} {rest : List UInt8}
    (hquiet : s.wire.Quiet) (hstream : s.wire.stream = headerText lines ++ rest)
    (hlines : HeaderLines s.header.size lines) (stack : List UInt8) :
    ∃ wire after, wire.stream = rest ∧ wire.Quiet ∧
      handleResponse true stack s = (do
        let resp_status ← respStatus (lines.headD []) s.resp_status
        let header := keptHeader lines after s.header.size
        let s := { s with wire := wire, header := header, resp_status := resp_status }.setContent
          (lines.findSome? (fieldValue (ascii "Content-Length")))
        let s ← s.setTransfer stack (lines.findSome? (fieldValue (ascii "Transfer-Encoding")))
        pure (s.resp_status, s)) := by
  have hfits := hlines.fits
  have hcount := length_le_length_keptLines lines
  obtain ⟨wire, hread, hstream', hquiet'⟩ := readHeader_lines hquiet hstream
    hlines.nonempty hlines.noLf
    (show ([] : List UInt8).length + (keptLines lines).length + 2 ≤ s.header.size by
      rw [List.length_nil]
      omega)
    (show lines.length < s.header.size + 1 by omega)
  rw [List.nil_append] at hread
  have hset : { s with wire := wire }.setHeader
      ⟨1, false, keptLines lines ++ [0], (keptLines lines).length⟩ =
      { s with
        wire := wire
        header := keptHeader lines
          (List.replicate (s.header.size - (keptLines lines ++ [0]).length) 0) s.header.size } := by
    simp only [Session.setHeader, keptHeader, List.append_assoc, List.singleton_append]
  refine ⟨wire, List.replicate (s.header.size - (keptLines lines ++ [0]).length) 0, hstream',
    hquiet', ?_⟩
  rw [handleResponse, hread]
  dsimp only
  rw [if_neg Bool.false_ne_true, hset]
  exact takeHeader_lines hlines.nonempty hlines.noNul rfl stack

/-! ## The three kinds of bodies -/

/-- What a header says about the body. -/
structure HeaderSays (lines : List (List UInt8)) (old code : Int)
    (content_length transfer_encoding : Option (List UInt8)) : Prop where
  status : respStatus (lines.headD []) old = .ok code
  content_length : lines.findSome? (fieldValue (ascii "Content-Length")) = content_length
  transfer_encoding :
    lines.findSome? (fieldValue (ascii "Transfer-Encoding")) = transfer_encoding

/-- Without chunks nothing is read behind the header. -/
theorem handleResponse_plain {s : Session} {lines : List (List UInt8)} {rest : List UInt8}
    {code : Int} {content_length transfer_encoding : Option (List UInt8)}
    (hquiet : s.wire.Quiet) (hstream : s.wire.stream = headerText lines ++ rest)
    (hlines : HeaderLines s.header.size lines)
    (hmeans : HeaderSays lines s.resp_status code content_length transfer_encoding)
    (hplain : transfer_encoding ≠ some (ascii "chunked")) (stack : List UInt8) :
    ∃ wire behind, wire.stream = rest ∧ wire.Quiet ∧ handleResponse true stack s = .ok (code,
      { s with
        wire := wire
        header := keptHeader lines behind s.header.size
        resp_status := code }.setContent content_length) := by
  obtain ⟨wire, behind, hstream', hquiet', hresponse⟩ :=
    handleResponse_lines hquiet hstream hlines stack
  refine ⟨wire, behind, hstream', hquiet', ?_⟩
  rw [hresponse, hmeans.status, hmeans.content_length, hmeans.transfer_encoding, Outcome.ok_bind]
  dsimp only
  rw [Session.setTransfer, if_neg hplain, Outcome.ok_bind]
  rfl

/-- In chunk mode the line of the first chunk's size is read as well. -/
theorem handleResponse_firstChunk {s : Session} {lines : List (List UInt8)}
    {sz rest : List UInt8} {n : Nat} {code : Int} {content_length : Option (List UInt8)}
    (hquiet : s.wire.Quiet)
    (hstream : s.wire.stream = headerText lines ++ (sz ++ 13 :: 10 :: rest))
    (hlines : HeaderLines s.header.size lines) (hroom : 17 ≤ s.header.size)
    (hmeans : HeaderSays lines s.resp_status code content_length (some (ascii "chunked")))
    (hsize : SizeLine n sz) (hn : n ≤ 2147483647) (hsz : sz.length ≤ 15) (stack : List UInt8) :
    ∃ wire behind, wire.stream = rest ∧ wire.Quiet ∧ handleResponse true stack s = .ok (code,
      { { s with
          header := keptHeader lines behind s.header.size
          resp_status := code }.setContent content_length with
        wire := wire
        chunk_sz := n
        chunk_offset := 0 }) := by
  obtain ⟨wire, behind, hstream', hquiet', hresponse⟩ :=
    handleResponse_lines hquiet hstream hlines stack
  obtain ⟨wire₂, hline, hstream₂, hquiet₂⟩ :=
    readLine_eq (lf_notMem_sizeLine hsize) hquiet' hstream'
      (show sz.length + 2 ≤ s.header.size by omega)
  have hfirst : (sz ++ [13]).length ≤ 16 := by
    rw [List.length_append, List.length_singleton]
    omega
  refine ⟨wire₂, behind, hstream₂, hquiet₂, ?_⟩
  rw [hresponse, hmeans.status, hmeans.content_length, hmeans.transfer_encoding, Outcome.ok_bind]
  simp only [Session.setContent, Session.setTransfer, if_true, firstChunk, keptHeader, hline,
    if_neg (Nat.not_lt.mpr hfirst), List.append_assoc, List.singleton_append,
    strtol16_sizeLine hsize hn, Outcome.ok_bind, Outcome.pure_eq]

/-- After a header with a length the body of that length is about to be delivered. -/
theorem handleResponse_known {s : Session} {lines : List (List UInt8)} {body after : List UInt8}
    {code : Int} {value : List UInt8} {transfer_encoding : Option (List UInt8)}
    (hquiet : s.wire.Quiet) (hstream : s.wire.stream = headerText lines ++ (body ++ after))
    (hlines : HeaderLines s.header.size lines)
    (hmeans : HeaderSays lines s.resp_status code (some value) transfer_encoding)
    (hvalue : atoi (CStr.ofBytes value) = body.length) (hbody : body ≠ [])
    (hplain : transfer_encoding ≠ some (ascii "chunked")) (hchunk : s.chunk_sz = 0)
    (hsocket : s.socket = true) (stack : List UInt8) :
    ∃ s', handleResponse true stack s = .ok (code, s') ∧ Known body s' ∧
      s'.content_length = body.length ∧
      ∃ behind, s'.header = keptHeader lines behind s.header.size := by
  obtain ⟨wire, behind, hstream', hquiet', hresponse⟩ :=
    handleResponse_plain hquiet hstream hlines hmeans hplain stack
  have hpos := List.length_pos_of_ne_nil hbody
  have hint : (body.length : Int) ≤ 2147483647 := by
    rw [← hvalue]
    exact (atoi_range _).2
  refine ⟨_, hresponse, ?_, hvalue, behind, rfl⟩
  refine ⟨hchunk, hsocket, ?_, ?_, hquiet', after, hstream'⟩
  · dsimp only [Session.setContent]
    omega
  · simp only [Session.setContent, hvalue]
    rw [if_neg (by omega), Int.emod_eq_of_lt (by omega) (by omega), Int.toNat_natCast]

/-- After a header with the encoding the first chunk is about to be delivered. -/
theorem handleResponse_chunked {s : Session} {lines : List (List UInt8)}
    {d sz rest : List UInt8} {ds : List (List UInt8)} {code : Int} (hquiet : s.wire.Quiet)
    (hstream : s.wire.stream =
      headerText lines ++ (sz ++ 13 :: 10 :: (d ++ 13 :: 10 :: rest)))
    (hlines : HeaderLines s.header.size lines) (hroom : 17 ≤ s.header.size)
    (hmeans : HeaderSays lines s.resp_status code none (some (ascii "chunked")))
    (hd : d ≠ []) (hlen : d.length ≤ 2147483647) (hsize : SizeLine d.length sz)
    (hsz : sz.length ≤ 15) (hrest : ChunkText ds rest) (hsocket : s.socket = true)
    (stack : List UInt8) :
    ∃ s', handleResponse true stack s = .ok (code, s') ∧ Position d ds s' ∧
      s'.content_length = s.content_length ∧
      ∃ behind, s'.header = keptHeader lines behind s.header.size := by
  obtain ⟨wire, behind, hstream', hquiet', hresponse⟩ :=
    handleResponse_firstChunk hquiet hstream hlines hroom hmeans hsize hlen hsz stack
  refine ⟨_, hresponse, ?_, rfl, behind, rfl⟩
  exact .inside hd (Int.sub_zero _) le_rfl hsocket hquiet' hstream' hrest

/-- The line of the first chunk's size must fit in 16 bytes with its carriage return, but
as many bytes are read as the buffer of the header has. -/
theorem handleResponse_overflow_iff {s : Session} {lines : List (List UInt8)}
    {t rest : List UInt8} {code : Int} {content_length : Option (List UInt8)}
    (hquiet : s.wire.Quiet) (hstream : s.wire.stream = headerText lines ++ (t ++ 13 :: 10 :: rest))
    (hlines : HeaderLines s.header.size lines)
    (hmeans : HeaderSays lines s.resp_status code content_length (some (ascii "chunked")))
    (ht : 10 ∉ t) (hsize : t.length + 2 ≤ s.header.size) (stack : List UInt8) :
    handleResponse true stack s = .fault .overflow ↔ 16 ≤ t.length := by
  obtain ⟨wire, behind, hstream', hquiet', hresponse⟩ :=
    handleResponse_lines hquiet hstream hlines stack
  obtain ⟨wire₂, hline, -, -⟩ :=
    readLine_eq ht hquiet' hstream' hsize
  have hstored : (t ++ [13]).length = t.length + 1 := by
    rw [List.length_append, List.length_singleton]
  rw [hresponse, hmeans.status, hmeans.content_length, hmeans.transfer_encoding, Outcome.ok_bind]
  simp only [Session.setContent, Session.setTransfer, if_true, firstChunk, keptHeader, hline,
    hstored]
  by_cases hlong : 16 ≤ t.length
  · rw [if_pos (by omega), Outcome.fault_bind]
    exact iff_of_true rfl hlong
  · rw [if_neg (by omega)]
    refine iff_of_false ?_ hlong
    unfold strtol16
    dsimp only
    split_ifs <;> simp

/-- The line of a size with an extension of 15 bytes. -/
theorem handleResponse_overflow_iff_extension :
    handleResponse true (List.replicate 16 0)
      { header := ⟨[], 0, 1024⟩
        wire := ⟨headerText [ascii "HTTP/1.1 200 OK", ascii "Transfer-Encoding: chunked"] ++
          (ascii "5;name=value-1-2" ++ 13 :: 10 :: []), [.upTo 3]⟩
        socket := true, chunk_sz := 0, chunk_offset := 0, content_length := -1
        content_remainder := 0, resp_status := 0 } = .fault .overflow :=
  (handleResponse_overflow_iff (by unfold Wire.Quiet; decide) rfl
    (by refine ⟨?_, ?_, ?_, ?_⟩ <;> decide)
    (show HeaderSays _ 0 200 none (some (ascii "chunked")) by refine ⟨?_, ?_, ?_⟩ <;> decide)
    (by decide) (by decide) (List.replicate 16 0)).mpr (by decide)

/-- The line names the protocol and has no blank behind its code. -/
def NoReason (line : List UInt8) : Prop :=
  (rtStrstr (ascii "HTTP/1.") line).isSome ∧
    ∀ c ∈ (line.drop 8).dropWhile isBlank, isBlank c = false

/-- The code of a line is found, or the search for its end leaves the line. -/
theorem respStatus_cases (line : List UInt8) (old : Int) :
    NoReason line ∧ respStatus line old = .fault .overread ∨
      ¬NoReason line ∧ ∃ code, respStatus line old = .ok code := by
  unfold respStatus NoReason
  by_cases hname : (rtStrstr (ascii "HTTP/1.") line).isSome
  · rw [if_pos hname]
    dsimp only
    cases hblank : ((line.drop 8).dropWhile isBlank).any isBlank with
    | true =>
        obtain ⟨c, hc, hcblank⟩ := List.any_eq_true.mp hblank
        refine .inr ⟨?_, _, rfl⟩
        rintro ⟨-, hall⟩
        exact Bool.false_ne_true ((hall c hc).symm.trans hcblank)
    | false =>
        refine .inl ⟨⟨hname, ?_⟩, rfl⟩
        intro c hc
        exact Bool.not_eq_true _ ▸ List.any_eq_false.mp hblank c hc
  · rw [if_neg hname]
    exact .inr ⟨fun h => hname h.1, old, rfl⟩

/-- Behind a complete header without chunks, an invalid access is made exactly when the
first line names the protocol and has no blank behind its code: the search for the blank
does not end at the end of the copy. -/
theorem handleResponse_fault_iff {s : Session} {lines : List (List UInt8)} {rest : List UInt8}
    (hquiet : s.wire.Quiet) (hstream : s.wire.stream = headerText lines ++ rest)
    (hlines : HeaderLines s.header.size lines)
    (hplain : lines.findSome? (fieldValue (ascii "Transfer-Encoding")) ≠ some (ascii "chunked"))
    (stack : List UInt8) :
    (∃ e, handleResponse true stack s = .fault e) ↔ NoReason (lines.headD []) := by
  obtain ⟨wire, behind, -, -, hresponse⟩ := handleResponse_lines hquiet hstream hlines stack
  rcases respStatus_cases (lines.headD []) s.resp_status with
    ⟨hreason, hstatus⟩ | ⟨hreason, code, hstatus⟩
  · rw [hstatus, Outcome.fault_bind] at hresponse
    exact iff_of_true ⟨_, hresponse⟩ hreason
  · rw [hstatus, Outcome.ok_bind] at hresponse
    simp only [Session.setTransfer, if_neg hplain, Outcome.ok_bind, Outcome.pure_eq] at hresponse
    refine iff_of_false ?_ hreason
    rintro ⟨e, he⟩
    rw [hresponse] at he
    cases he

theorem noReason_line :
    NoReason ([ascii "HTTP/1.1 200", ascii "Content-Length: 2"].headD []) := by
  refine ⟨by decide, ?_⟩
  intro c hc
  have hcode : c ∈ ascii "200" := hc
  rcases List.mem_cons.mp hcode with rfl | hcode
  · decide
  · rcases List.mem_cons.mp hcode with rfl | hcode
    · decide
    · rw [List.mem_singleton.mp hcode]
      decide

/-- A server that leaves out the reason and the blank in front of it. -/
theorem handleResponse_fault_iff_no_reason :
    ∃ e, handleResponse true (List.replicate 16 0)
      { header := ⟨[], 0, 1024⟩
        wire := ⟨headerText [ascii "HTTP/1.1 200", ascii "Content-Length: 2"] ++ [123, 125],
          [.upTo 3]⟩
        socket := true, chunk_sz := 0, chunk_offset := 0, content_length := -1
        content_remainder := 0, resp_status := 0 } = .fault e :=
  (handleResponse_fault_iff (by unfold Wire.Quiet; decide) rfl
    (show HeaderLines 1024 [ascii "HTTP/1.1 200", ascii "Content-Length: 2"] by
      refine ⟨?_, ?_, ?_, ?_⟩ <;> decide)
    (by decide) (List.replicate 16 0)).mpr noReason_line

end WeatherStation
