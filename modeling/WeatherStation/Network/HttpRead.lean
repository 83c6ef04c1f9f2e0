import WeatherStation.Foundation.Hex
import WeatherStation.Foundation.Outcome
import WeatherStation.Foundation.Wire
import WeatherStation.Weather.Fetch

/-!
# Reading the body of a response

{lit}`webclient_read` and the routines below it, over a stream that arrives in
segments of any size.  A response in chunks is delivered piece by piece: one call
stops at the end of a chunk and at the end of a segment.  A response of known length
is delivered by one call, however it is segmented.

Main results:

- Theorem {lit}`webclientRead_position`: one call delivers a nonempty front part of what
  is left of a chunked body, and finds the next chunk.
- Theorem {lit}`answers_of_position`: successive calls deliver a split of the body.
- Theorem {lit}`webclientRead_known`: a response of known length is delivered at once.
-/

open Foundation

namespace WeatherStation

/-- What the client must not do: read behind one of its buffers, or write there. -/
inductive HttpFault where
  | overread
  | overflow
deriving DecidableEq

/-- A routine of the client. -/
abbrev Client (α : Type) := Outcome HttpFault α

/-- {lit}`struct webclient_header`. -/
structure Header where
  buffer : List UInt8
  length : Nat
  size : Nat

/-- {lit}`struct webclient_session`, as far as the response is concerned, with the
connection behind its socket. -/
structure Session where
  header : Header
  wire : Wire UInt8
  /-- {lit}`socket >= 0` -/
  socket : Bool
  chunk_sz : Int
  chunk_offset : Int
  content_length : Int
  content_remainder : Nat
  resp_status : Int

/-- {lit}`-WEBCLIENT_TIMEOUT` -/
def webclientTimeout : Int := -2

/-- {lit}`-WEBCLIENT_DISCONNECT` -/
def webclientDisconnect : Int := -7

/-! ## Lines -/

/-- What {lit}`webclient_read_line` returns and what it stored. -/
structure Line where
  rc : Int
  stored : List UInt8

/-- The loop of {lit}`webclient_read_line`, for the bytes that still fit. -/
def readLineLoop : Nat → UInt8 → List UInt8 → Wire UInt8 → Line × Wire UInt8
  | 0, _, buffer, wire => (⟨buffer.length, buffer⟩, wire)
  | n + 1, last_ch, buffer, wire =>
      match wire.recv 1 with
      | (.data bs, wire) =>
          let ch := bs.headD 0
          if ch = 10 ∧ last_ch = 13 then (⟨buffer.length, buffer⟩, wire)
          else readLineLoop n ch (buffer ++ [ch]) wire
      | (.timeout, wire) => (⟨-1, buffer⟩, wire)
      | (.closed, wire) => (⟨0, buffer⟩, wire)

/-- {lit}`webclient_read_line`.  The carriage return of the line is stored, its line
feed is not, and neither is a terminator. -/
def readLine (size : Nat) (wire : Wire UInt8) : Line × Wire UInt8 :=
  readLineLoop size 0 [] wire

/-! ## Chunks -/

/-- {lit}`strtol(line, NULL, 16)`: white space, a sign, {lit}`0x` and digits.  A number
that runs to the end of the buffer is followed by bytes outside of it. -/
def strtol16 (buffer : List UInt8) : Client Int :=
  let p := buffer.dropWhile isspace
  let neg := p.head? = some 45
  let p := if neg ∨ p.head? = some 43 then p.tail else p
  let p := if p.take 2 = [48, 120] ∨ p.take 2 = [48, 88] then p.drop 2 else p
  let ds := p.takeWhile fun c => (Hex.hexDigit c).isSome
  let value : Int := ds.foldl (fun n c => 16 * n + (Hex.hexDigit c).getD 0) 0
  if p.length = ds.length then .fault .overread
  else .ok (clampInt (if neg then -value else value))

/-- The end of {lit}`webclient_next_chunk`: the size in the line. -/
def setChunk (line : List UInt8) (s : Session) : Client (Int × Session) := do
  let chunk_sz ← strtol16 line
  if chunk_sz = 0 then
    pure (-1, { s with socket := false, chunk_sz := -1, chunk_offset := 0 })
  else pure (chunk_sz, { s with chunk_sz := chunk_sz, chunk_offset := 0 })

/-- {lit}`webclient_next_chunk`.  Behind the data of a chunk there is the end of its line
first. -/
def nextChunk (s : Session) : Client (Int × Session) :=
  let (line, wire) := readLine 64 s.wire
  if line.rc ≤ 0 then .ok (line.rc, { s with wire := wire, socket := false })
  else
    let buffer := line.stored ++ List.replicate (64 - line.stored.length) 0
    if buffer.take 2 = [13, 0] then
      let (line, wire) := readLine 64 wire
      if line.rc ≤ 0 then .ok (line.rc, { s with wire := wire, socket := false })
      else setChunk (line.stored ++ buffer.drop line.stored.length) { s with wire := wire }
    else setChunk buffer { s with wire := wire }

/-- {lit}`webclient_read` in chunk mode. -/
def readChunk (s : Session) (length : Nat) : Client ((Int × List UInt8) × Session) :=
  let left := s.chunk_sz - s.chunk_offset
  let length := if (length : Int).bmod 4294967296 > left then left.toNat else length
  match s.wire.recv length with
  | (.data bs, wire) =>
      let s := { s with wire := wire, chunk_offset := s.chunk_offset + bs.length }
      if s.chunk_offset ≥ s.chunk_sz then do
        let (_, s) ← nextChunk s
        pure ((bs.length, bs), s)
      else .ok ((bs.length, bs), s)
  | (.timeout, wire) => .ok ((webclientTimeout, []), { s with wire := wire })
  | (.closed, wire) => .ok ((0, []), { s with wire := wire, socket := false })

/-! ## Bodies without chunks -/

/-- Why the loop over {lit}`webclient_recv` was left. -/
inductive LoopEnd where
  | complete
  | timeout
  | closed

/-- The loop of {lit}`webclient_read` that reads until nothing is left to read.  Every
round reads at least one byte, so the length bounds the rounds. -/
def recvLoop : Nat → Nat → List UInt8 → Wire UInt8 → LoopEnd × List UInt8 × Wire UInt8
  | 0, _, buffer, wire => (.complete, buffer, wire)
  | n + 1, left, buffer, wire =>
      match wire.recv left with
      | (.data bs, wire) =>
          if left - bs.length = 0 then (.complete, buffer ++ bs, wire)
          else recvLoop n (left - bs.length) (buffer ++ bs) wire
      | (.timeout, wire) => (.timeout, buffer, wire)
      | (.closed, wire) => (.closed, buffer, wire)

/-- {lit}`webclient_read` without chunks, for a length that is not zero. -/
def readPlain (s : Session) (length : Nat) : (Int × List UInt8) × Session :=
  let (why, buffer, wire) := recvLoop length length [] s.wire
  let s := { s with wire := wire }
  match why, buffer with
  | .timeout, [] => ((webclientTimeout, []), s)
  | .closed, [] => ((0, []), { s with socket := false })
  | _, _ =>
      ((buffer.length, buffer),
        if s.content_length > 0 then
          { s with content_remainder := s.content_remainder - buffer.length }
        else s)

/-- {lit}`webclient_read`: its result and the bytes that it stores in the buffer. -/
def webclientRead (s : Session) (length : Nat) : Client ((Int × List UInt8) × Session) :=
  if s.chunk_sz < 0 then .ok ((0, []), s)
  else if s.socket = false then .ok ((webclientDisconnect, []), s)
  else if length = 0 then .ok ((0, []), s)
  else if s.chunk_sz ≠ 0 then readChunk s length
  else if s.content_length > 0 then
    if min length s.content_remainder = 0 then .ok ((0, []), s)
    else .ok (readPlain s (min length s.content_remainder))
  else .ok (readPlain s length)

/-- The bytes that successive calls store, until one returns no positive number.  The
length asked for depends on how many bytes there are. -/
def answers (ask : Nat → Nat) : Nat → Nat → Session → Client (List (List UInt8))
  | 0, _, _ => .ok []
  | n + 1, pos, s => do
      let ((rc, bytes), s) ← webclientRead s (ask pos)
      if rc ≤ 0 then pure []
      else do
        let rest ← answers ask n (pos + bytes.length) s
        pure (bytes :: rest)

/-! ## Lines as they are received -/

/-- A line that fits in the buffer with its end is stored with its carriage return. -/
theorem readLineLoop_eq {t rest : List UInt8} (ht : 10 ∉ t) {wire : Wire UInt8}
    (hquiet : wire.Quiet) (hstream : wire.stream = t ++ 13 :: 10 :: rest) {n : Nat}
    (hn : t.length + 2 ≤ n) (last_ch : UInt8) (buffer : List UInt8) :
    ∃ wire', readLineLoop n last_ch buffer wire =
      (⟨(buffer ++ (t ++ [13])).length, buffer ++ (t ++ [13])⟩, wire') ∧
      wire'.stream = rest ∧ wire'.Quiet := by
  induction t generalizing wire n last_ch buffer with
  | nil =>
      obtain ⟨n, rfl⟩ : ∃ k, n = k + 2 := ⟨n - 2, by rw [List.length_nil] at hn; omega⟩
      obtain ⟨wire₁, hfirst, hstream₁, hquiet₁⟩ := Wire.recv_one hquiet hstream
      obtain ⟨wire₂, hsecond, hstream₂, hquiet₂⟩ := Wire.recv_one hquiet₁ hstream₁
      refine ⟨wire₂, ?_, hstream₂, hquiet₂⟩
      simp [readLineLoop, hfirst, hsecond]
  | cons c t ih =>
      rw [List.mem_cons, not_or] at ht
      obtain ⟨n, rfl⟩ : ∃ k, n = k + 1 := ⟨n - 1, by rw [List.length_cons] at hn; omega⟩
      obtain ⟨wire₁, hfirst, hstream₁, hquiet₁⟩ := Wire.recv_one hquiet hstream
      have hlen : t.length + 2 ≤ n := by
        rw [List.length_cons] at hn
        omega
      obtain ⟨wire', hrest, hstream', hquiet'⟩ :=
        ih ht.2 hquiet₁ hstream₁ hlen c (buffer ++ [c])
      refine ⟨wire', ?_, hstream', hquiet'⟩
      have hc : ¬(c = 10 ∧ last_ch = 13) := fun h => ht.1 h.1.symm
      have hround : readLineLoop (n + 1) last_ch buffer wire =
          readLineLoop n c (buffer ++ [c]) wire₁ := by
        rw [readLineLoop, hfirst]
        exact if_neg hc
      rw [hround, hrest, List.append_assoc, List.singleton_append, List.cons_append]

theorem readLine_eq {t rest : List UInt8} (ht : 10 ∉ t) {wire : Wire UInt8}
    (hquiet : wire.Quiet) (hstream : wire.stream = t ++ 13 :: 10 :: rest) {size : Nat}
    (hsize : t.length + 2 ≤ size) :
    ∃ wire', readLine size wire = (⟨t.length + 1, t ++ [13]⟩, wire') ∧ wire'.stream = rest ∧
      wire'.Quiet := by
  obtain ⟨wire', hline, hstream', hquiet'⟩ := readLineLoop_eq ht hquiet hstream hsize 0 []
  refine ⟨wire', ?_, hstream', hquiet'⟩
  rw [readLine, hline]
  simp

/-! ## Chunk sizes -/

/-- The line of a chunk's size: hexadecimal digits and possibly an extension. -/
inductive SizeLine : Nat → List UInt8 → Prop where
  | digits (ds : List (Bool × Fin 16)) (hne : ds ≠ []) (ext : List UInt8)
      (hext : ext = [] ∨ ∃ e, ext = 59 :: e) (hlf : 10 ∉ ext) :
      SizeLine (Hex.hexValue ds) (Hex.hexText ds ++ ext)

/-- A hexadecimal digit is no white space, sign, marker or line end. -/
theorem hexChar_plain (upper : Bool) (d : Fin 16) :
    isspace (Hex.hexChar upper d) = false ∧ Hex.hexChar upper d ≠ 45 ∧
      Hex.hexChar upper d ≠ 43 ∧ Hex.hexChar upper d ≠ 120 ∧ Hex.hexChar upper d ≠ 88 ∧
      Hex.hexChar upper d ≠ 10 ∧ Hex.hexChar upper d ≠ 13 := by
  revert upper d
  decide

/-- A row of digits is taken up to a byte that is none. -/
theorem takeWhile_hexText (ds : List (Bool × Fin 16)) {c : UInt8} (hc : Hex.hexDigit c = none)
    (r : List UInt8) :
    (Hex.hexText ds ++ c :: r).takeWhile (fun c => (Hex.hexDigit c).isSome) = Hex.hexText ds := by
  induction ds with
  | nil =>
      rw [Hex.hexText, List.map_nil, List.nil_append, List.takeWhile_cons_of_neg]
      simp [hc]
  | cons d ds ih =>
      have hcons : Hex.hexText (d :: ds) = Hex.hexChar d.1 d.2 :: Hex.hexText ds := rfl
      rw [hcons, List.cons_append, List.takeWhile_cons_of_pos, ih]
      simp [Hex.hexDigit_hexChar]

theorem foldl_intCast (f : UInt8 → Nat) (l : List UInt8) (n : Nat) :
    l.foldl (fun (n : Int) c => 16 * n + f c) (n : Int) =
      (l.foldl (fun n c => 16 * n + f c) n : Nat) := by
  induction l generalizing n with
  | nil => rfl
  | cons c l ih =>
      rw [List.foldl_cons, List.foldl_cons, ← ih]
      push_cast
      rfl

/-- The size in a line is the value of its digits, when {lit}`int` can hold it. -/
theorem strtol16_sizeLine {n : Nat} {sz : List UInt8} (h : SizeLine n sz)
    (hn : n ≤ 2147483647) (r : List UInt8) : strtol16 (sz ++ 13 :: r) = .ok n := by
  cases h with
  | digits ds hne ext hext hlf =>
      obtain ⟨c, q, hq, hc, hmark⟩ : ∃ c q, ext ++ 13 :: r = c :: q ∧ Hex.hexDigit c = none ∧
          c ≠ 120 ∧ c ≠ 88 := by
        rcases hext with rfl | ⟨e, rfl⟩
        · exact ⟨13, r, rfl, rfl, by decide, by decide⟩
        · exact ⟨59, e ++ 13 :: r, rfl, rfl, by decide, by decide⟩
      have htake := takeWhile_hexText ds hc q
      have hvalue := Hex.foldl_hexText ds
      cases ds with
      | nil => exact absurd rfl hne
      | cons d ds =>
          have hcons : Hex.hexText (d :: ds) = Hex.hexChar d.1 d.2 :: Hex.hexText ds := rfl
          have hd := hexChar_plain d.1 d.2
          have hprefix : ¬((Hex.hexText (d :: ds) ++ c :: q).take 2 = [48, 120] ∨
              (Hex.hexText (d :: ds) ++ c :: q).take 2 = [48, 88]) := by
            cases ds with
            | nil => simp [Hex.hexText, hmark]
            | cons d' ds =>
                have hd' := hexChar_plain d'.1 d'.2
                simp [Hex.hexText, hd']
          have hnospace : (Hex.hexText (d :: ds) ++ c :: q).dropWhile isspace =
              Hex.hexText (d :: ds) ++ c :: q := by
            rw [hcons, List.cons_append, List.dropWhile_cons_of_neg (by simp [hd.1])]
          have hhead : (Hex.hexText (d :: ds) ++ c :: q).head? = some (Hex.hexChar d.1 d.2) := by
            rw [hcons, List.cons_append, List.head?_cons]
          have hclamp : clampInt (Hex.hexValue (d :: ds)) = Hex.hexValue (d :: ds) := by
            unfold clampInt
            omega
          rw [List.append_assoc, hq, strtol16]
          simp only [hnospace, hhead, Option.some.injEq, hd.2.1, hd.2.2.1, or_self, if_false,
            if_neg hprefix, htake]
          rw [if_neg (by simp), ← hclamp, ← hvalue]
          exact congrArg (fun v => Outcome.ok (clampInt v))
            (foldl_intCast (fun c => (Hex.hexDigit c).getD 0) (Hex.hexText (d :: ds)) 0)

/-! ## Bodies in chunks -/

/-- A body in chunks, from the line of a chunk's size on.  Nothing is said of what stands
behind the line of the last size, which is zero. -/
inductive ChunkText : List (List UInt8) → List UInt8 → Prop where
  | last {sz : List UInt8} (h : SizeLine 0 sz) (hsz : sz.length ≤ 62) (after : List UInt8) :
      ChunkText [] (sz ++ 13 :: 10 :: after)
  | chunk {d sz rest : List UInt8} {ds : List (List UInt8)} (hd : d ≠ [])
      (hlen : d.length ≤ 2147483647) (h : SizeLine d.length sz) (hsz : sz.length ≤ 62)
      (hrest : ChunkText ds rest) : ChunkText (d :: ds) (sz ++ 13 :: 10 :: (d ++ 13 :: 10 :: rest))

/-- What the session is about to deliver: the rest {lit}`d` of the current chunk and the
chunks {lit}`ds` behind it, or nothing, after the last chunk. -/
inductive Position : List UInt8 → List (List UInt8) → Session → Prop where
  | inside {d rest : List UInt8} {ds : List (List UInt8)} {s : Session} (hd : d ≠ [])
      (hsize : s.chunk_sz - s.chunk_offset = d.length) (hoffset : 0 ≤ s.chunk_offset)
      (hsocket : s.socket = true) (hquiet : s.wire.Quiet)
      (hstream : s.wire.stream = d ++ 13 :: 10 :: rest) (hrest : ChunkText ds rest) :
      Position d ds s
  | finished {s : Session} (hsize : s.chunk_sz < 0) : Position [] [] s

theorem ChunkText.nonempty {ds : List (List UInt8)} {t : List UInt8} (h : ChunkText ds t) :
    ∀ d ∈ ds, d ≠ [] := by
  induction h with
  | last => exact fun d hd => absurd hd List.not_mem_nil
  | chunk hd hlen hsize hsz hrest ih => exact List.forall_mem_cons.mpr ⟨hd, ih⟩

theorem Position.nonempty {d : List UInt8} {ds : List (List UInt8)} {s : Session}
    (h : Position d ds s) : ∀ d ∈ ds, d ≠ [] := by
  cases h with
  | inside hd hsize hoffset hsocket hquiet hstream hrest => exact hrest.nonempty
  | finished hsize => exact fun d hd => absurd hd List.not_mem_nil

/-- The text of a body in chunks holds the chunks. -/
theorem ChunkText.length_le {ds : List (List UInt8)} {t : List UInt8} (h : ChunkText ds t) :
    ds.flatten.length ≤ t.length := by
  induction h with
  | last h hsz after => exact Nat.zero_le _
  | chunk hd hlen hsize hsz hrest ih =>
      simp only [List.flatten_cons, List.length_append, List.length_cons]
      omega

theorem Position.length_le {d : List UInt8} {ds : List (List UInt8)} {s : Session}
    (h : Position d ds s) : (d ++ ds.flatten).length ≤ s.wire.stream.length := by
  cases h with
  | inside hd hsize hoffset hsocket hquiet hstream hrest =>
      have hle := hrest.length_le
      rw [hstream]
      simp only [List.length_append, List.length_cons]
      omega
  | finished hsize => exact Nat.zero_le _

theorem lf_notMem_sizeLine {n : Nat} {sz : List UInt8} (h : SizeLine n sz) : 10 ∉ sz := by
  cases h with
  | digits ds hne ext hext hlf =>
      rw [List.mem_append, not_or]
      refine ⟨?_, hlf⟩
      intro hmem
      rcases List.mem_map.mp hmem with ⟨d, -, hd⟩
      exact (hexChar_plain d.1 d.2).2.2.2.2.2.1 hd

/-- The line of a size is read into its number, whatever the rest of the buffer holds. -/
theorem setChunk_sizeLine {n : Nat} {sz : List UInt8} (h : SizeLine n sz)
    (hn : n ≤ 2147483647) (r : List UInt8) (s : Session) :
    setChunk (sz ++ 13 :: r) s =
      .ok (if n = 0 then (-1, { s with socket := false, chunk_sz := -1, chunk_offset := 0 })
        else ((n : Int), { s with chunk_sz := n, chunk_offset := 0 })) := by
  rw [setChunk, strtol16_sizeLine h hn, Outcome.ok_bind]
  by_cases hzero : n = 0
  · rw [if_pos hzero, if_pos (by omega)]
    rfl
  · rw [if_neg hzero, if_neg (by omega)]
    rfl

/-- Behind the data of a chunk the end of its line is skipped and the next size is
read. -/
theorem nextChunk_eq {n : Nat} {sz rest : List UInt8} (h : SizeLine n sz)
    (hn : n ≤ 2147483647) (hsz : sz.length ≤ 62) {s : Session} (hquiet : s.wire.Quiet)
    (hstream : s.wire.stream = 13 :: 10 :: (sz ++ 13 :: 10 :: rest)) :
    ∃ rc wire, wire.stream = rest ∧ wire.Quiet ∧ nextChunk s = .ok (rc,
      if n = 0 then
        { s with wire := wire, socket := false, chunk_sz := -1, chunk_offset := 0 }
      else { s with wire := wire, chunk_sz := n, chunk_offset := 0 }) := by
  obtain ⟨wire₁, hfirst, hstream₁, hquiet₁⟩ :=
    readLine_eq List.not_mem_nil hquiet hstream (show [].length + 2 ≤ 64 by decide)
  obtain ⟨wire₂, hsecond, hstream₂, hquiet₂⟩ :=
    readLine_eq (lf_notMem_sizeLine h) hquiet₁ hstream₁ (show sz.length + 2 ≤ 64 by omega)
  have hnext : ∃ r, nextChunk s = setChunk (sz ++ [13] ++ r) { s with wire := wire₂ } := by
    refine ⟨(((13 : UInt8) :: List.replicate 63 0)).drop (sz ++ [13]).length, ?_⟩
    rw [nextChunk, hfirst]
    simp only [hsecond]
    rw [if_neg (by decide), if_pos (by decide), if_neg (by omega)]
    rfl
  obtain ⟨r, hnext⟩ := hnext
  rw [List.append_assoc, List.singleton_append, setChunk_sizeLine h hn] at hnext
  by_cases hzero : n = 0
  · exact ⟨-1, wire₂, hstream₂, hquiet₂, by rw [hnext, if_pos hzero, if_pos hzero]⟩
  · exact ⟨n, wire₂, hstream₂, hquiet₂, by rw [hnext, if_neg hzero, if_neg hzero]⟩

/-- The position after the last byte of a chunk. -/
theorem position_nextChunk {ds : List (List UInt8)} {rest : List UInt8}
    (hrest : ChunkText ds rest) {s : Session} (hsocket : s.socket = true)
    (hquiet : s.wire.Quiet) (hstream : s.wire.stream = 13 :: 10 :: rest) :
    ∃ rc s', nextChunk s = .ok (rc, s') ∧ Position (ds.headD []) ds.tail s' := by
  cases hrest with
  | last h hsz after =>
      obtain ⟨rc, wire, -, -, hnext⟩ := nextChunk_eq h (by decide) hsz hquiet hstream
      rw [if_pos rfl] at hnext
      exact ⟨rc, _, hnext, .finished (show (-1 : Int) < 0 by decide)⟩
  | @chunk d sz rest ds hd hlen h hsz hrest =>
      have hpos : d.length ≠ 0 := fun hzero => hd (List.length_eq_zero_iff.mp hzero)
      obtain ⟨rc, wire, hstream', hquiet', hnext⟩ := nextChunk_eq h hlen hsz hquiet hstream
      rw [if_neg hpos] at hnext
      exact ⟨rc, _, hnext, .inside hd (Int.sub_zero _) le_rfl hsocket hquiet' hstream' hrest⟩

/-- One call delivers a nonempty front part of what is left of the current chunk.  When
it is all of it, the session stands at the next chunk. -/
theorem webclientRead_position {d : List UInt8} {ds : List (List UInt8)} {s : Session}
    (h : Position d ds s) (hd : d ≠ []) {length : Nat} (hpos : 0 < length)
    (hlength : length ≤ 2147483647) :
    ∃ bs rest s', webclientRead s length = .ok ((bs.length, bs), s') ∧ bs ≠ [] ∧
      bs.length ≤ length ∧ d = bs ++ rest ∧
      (rest ≠ [] ∧ Position rest ds s' ∨ rest = [] ∧ Position (ds.headD []) ds.tail s') := by
  cases h with
  | finished hsize => exact absurd rfl hd
  | @inside _ rest _ _ _ hsize hoffset hsocket hquiet hstream hrest =>
      have hdpos : 0 < d.length := List.length_pos_of_ne_nil hd
      have hmode : webclientRead s length = readChunk s length := by
        rw [webclientRead, if_neg (by omega), if_neg (by rw [hsocket]; decide),
          if_neg (by omega), if_pos (by omega)]
      have hcast : (length : Int).bmod 4294967296 = length := by
        rw [Int.bmod_eq_of_le] <;> omega
      have hlen : (if (length : Int).bmod 4294967296 > s.chunk_sz - s.chunk_offset then
          (s.chunk_sz - s.chunk_offset).toNat else length) = min length d.length := by
        rw [hcast, hsize]
        split_ifs <;> omega
      obtain ⟨bs, rest', wire, hrecv, hne, hle, hsplit, hstream', hquiet'⟩ :=
        Wire.recv_of_quiet hquiet (by rw [hstream]; simp)
          (show 0 < min length d.length by omega)
      have hfront : d = bs ++ d.drop bs.length := by
        have htake := congrArg (List.take bs.length) (hstream.symm.trans hsplit)
        rw [List.take_append_of_le_length (by omega), List.take_left] at htake
        conv_lhs => rw [← List.take_append_drop bs.length d, htake]
      have hrest' : rest' = d.drop bs.length ++ 13 :: 10 :: rest := by
        have hdrop := congrArg (List.drop bs.length) (hstream.symm.trans hsplit)
        rw [List.drop_append_of_le_length (by omega), List.drop_left] at hdrop
        exact hdrop.symm
      have hbs : 0 < bs.length := List.length_pos_of_ne_nil hne
      have hleft : (d.drop bs.length).length = d.length - bs.length := List.length_drop
      rw [hmode, readChunk]
      dsimp only
      rw [hlen, hrecv]
      dsimp only
      by_cases hend : bs.length = d.length
      · have hdrop : d.drop bs.length = [] := by
          rw [hend, List.drop_length]
        rw [hdrop, List.nil_append] at hrest'
        obtain ⟨rc, s', hnext, hposition⟩ := position_nextChunk hrest
          (s := { s with wire := wire, chunk_offset := s.chunk_offset + bs.length })
          hsocket hquiet' (hstream'.trans hrest')
        rw [hdrop] at hfront
        refine ⟨bs, [], s', ?_, hne, by omega, hfront, .inr ⟨rfl, hposition⟩⟩
        rw [if_pos (by omega), hnext]
        rfl
      · refine ⟨bs, d.drop bs.length,
          { s with wire := wire, chunk_offset := s.chunk_offset + bs.length }, ?_, hne, by omega,
          hfront, .inl ⟨?_, ?_⟩⟩
        · rw [if_neg (by omega)]
        · intro hnil
          rw [hnil, List.length_nil] at hleft
          omega
        · refine .inside ?_ ?_ ?_ hsocket hquiet' (hstream'.trans hrest') hrest
          · intro hnil
            rw [hnil, List.length_nil] at hleft
            omega
          · dsimp only
            omega
          · dsimp only
            omega

/-- In chunk mode a call delivers no more than what is left of the chunk. -/
theorem length_le_of_webclientRead {s s' : Session} (hchunk : 0 < s.chunk_sz)
    (hoffset : s.chunk_offset ≤ s.chunk_sz) {length : Nat} (hlength : length ≤ 2147483647)
    {rc : Int} {bytes : List UInt8} (hread : webclientRead s length = .ok ((rc, bytes), s')) :
    bytes.length ≤ s.chunk_sz - s.chunk_offset := by
  have hcast : (length : Int).bmod 4294967296 = length := by
    rw [Int.bmod_eq_of_le] <;> omega
  have hnil : (([] : List UInt8).length : Int) ≤ s.chunk_sz - s.chunk_offset := by
    rw [List.length_nil]
    omega
  rw [webclientRead, if_neg (by omega)] at hread
  by_cases hsocket : s.socket = false
  · rw [if_pos hsocket] at hread
    cases hread
    exact hnil
  by_cases hzero : length = 0
  · rw [if_neg hsocket, if_pos hzero] at hread
    cases hread
    exact hnil
  rw [if_neg hsocket, if_neg hzero, if_pos (by omega), readChunk, hcast] at hread
  dsimp only at hread
  generalize hasked : (if (length : Int) > s.chunk_sz - s.chunk_offset then
    (s.chunk_sz - s.chunk_offset).toNat else length) = asked at hread
  have hbound : (asked : Int) ≤ s.chunk_sz - s.chunk_offset := by
    rw [← hasked]
    split_ifs <;> omega
  cases hrecv : s.wire.recv asked with
  | mk result wire =>
      rw [hrecv] at hread
      cases result with
      | timeout =>
          cases hread
          exact hnil
      | closed =>
          cases hread
          exact hnil
      | data bs =>
          have hle := Wire.length_le_of_recv hrecv
          dsimp only at hread
          split_ifs at hread with hend
          · -- The size of the next chunk does not change what was delivered.
            generalize nextChunk _ = next at hread
            cases next with
            | ok next =>
                cases hread
                omega
            | refused => cases hread
            | fault e => cases hread
          · cases hread
            omega

/-- After the last chunk a call returns zero. -/
theorem webclientRead_finished {s : Session} (h : s.chunk_sz < 0) (length : Nat) :
    webclientRead s length = .ok ((0, []), s) :=
  if_pos h

theorem answers_succ_of_read {ask : Nat → Nat} {n pos : Nat} {s s' : Session}
    {bs : List UInt8} (hread : webclientRead s (ask pos) = .ok ((bs.length, bs), s'))
    (hne : bs ≠ []) :
    answers ask (n + 1) pos s = (do
      let rest ← answers ask n (pos + bs.length) s'
      pure (bs :: rest)) := by
  have hpos := List.length_pos_of_ne_nil hne
  rw [answers, hread, Outcome.ok_bind]
  exact if_neg (by omega)

/-- Successive calls deliver the body in pieces.  No piece reaches beyond the end of a
chunk, so there are at least as many pieces as chunks. -/
theorem answers_of_position {ask : Nat → Nat}
    (hask : ∀ pos, 0 < ask pos ∧ ask pos ≤ 2147483647) {d : List UInt8}
    {ds : List (List UInt8)} {s : Session} (h : Position d ds s) {n : Nat}
    (hn : (d ++ ds.flatten).length < n) (pos : Nat) :
    ∃ pieces, answers ask n pos s = .ok pieces ∧ SplitOf (d ++ ds.flatten) pieces ∧
      (d ≠ [] → ds.length + 1 ≤ pieces.length) := by
  induction n generalizing d ds s pos with
  | zero => exact absurd hn (Nat.not_lt_zero _)
  | succ n ih =>
      by_cases hd : d = []
      · cases h with
        | inside hne => exact absurd hd hne
        | finished hsize =>
            refine ⟨[], ?_, ⟨by simp, rfl⟩, fun hne => absurd hd hne⟩
            rw [answers, webclientRead_finished hsize, Outcome.ok_bind]
            rfl
      · obtain ⟨bs, rest, s', hread, hne, -, rfl, hnext⟩ :=
          webclientRead_position h hd (hask pos).1 (hask pos).2
        have hnonempty := h.nonempty
        have hpos := List.length_pos_of_ne_nil hne
        simp only [List.length_append] at hn
        rcases hnext with ⟨hrest, hposition⟩ | ⟨rfl, hposition⟩
        · obtain ⟨pieces, hanswers, hsplit, hcount⟩ :=
            ih hposition (by rw [List.length_append]; omega) (pos + bs.length)
          refine ⟨bs :: pieces, ?_, ⟨?_, ?_⟩, ?_⟩
          · rw [answers_succ_of_read hread hne, hanswers]
            rfl
          · rintro r (_ | ⟨_, hr⟩)
            · exact hne
            · exact hsplit.nonempty r hr
          · rw [List.flatten_cons, hsplit.flatten, List.append_assoc]
          · intro _
            have hle := hcount hrest
            rw [List.length_cons]
            omega
        · have hflat : ds.headD [] ++ ds.tail.flatten = ds.flatten := by
            cases ds <;> rfl
          obtain ⟨pieces, hanswers, hsplit, hcount⟩ :=
            ih hposition (by rw [hflat]; omega) (pos + bs.length)
          rw [hflat] at hsplit
          refine ⟨bs :: pieces, ?_, ⟨?_, ?_⟩, ?_⟩
          · rw [answers_succ_of_read hread hne, hanswers]
            rfl
          · rintro r (_ | ⟨_, hr⟩)
            · exact hne
            · exact hsplit.nonempty r hr
          · rw [List.flatten_cons, hsplit.flatten, List.append_nil]
          · intro _
            cases ds with
            | nil => exact Nat.succ_le_succ (Nat.zero_le _)
            | cons d' ds =>
                have hle := hcount (hnonempty d' List.mem_cons_self)
                simp only [List.tail_cons] at hle
                simp only [List.length_cons]
                omega

/-! ## Bodies of known length -/

/-- The loop over {lit}`webclient_recv` reads all that was asked for, however it is
segmented. -/
theorem recvLoop_eq {t rest : List UInt8} {wire : Wire UInt8} (hquiet : wire.Quiet)
    (hstream : wire.stream = t ++ rest) (hne : t ≠ []) {n : Nat} (hn : t.length ≤ n)
    (buffer : List UInt8) :
    ∃ wire', recvLoop n t.length buffer wire = (.complete, buffer ++ t, wire') ∧
      wire'.stream = rest ∧ wire'.Quiet := by
  induction n generalizing t wire buffer with
  | zero => exact absurd (List.length_eq_zero_iff.mp (Nat.le_zero.mp hn)) hne
  | succ n ih =>
      have hpos := List.length_pos_of_ne_nil hne
      obtain ⟨bs, rest', wire', hrecv, hbs, hle, hsplit, hstream', hquiet'⟩ :=
        Wire.recv_of_quiet hquiet (by rw [hstream]; simp [hne]) hpos
      have hfront : t = bs ++ t.drop bs.length := by
        have htake := congrArg (List.take bs.length) (hstream.symm.trans hsplit)
        rw [List.take_append_of_le_length hle, List.take_left] at htake
        conv_lhs => rw [← List.take_append_drop bs.length t, htake]
      have hrest' : rest' = t.drop bs.length ++ rest := by
        have hdrop := congrArg (List.drop bs.length) (hstream.symm.trans hsplit)
        rw [List.drop_append_of_le_length hle, List.drop_left] at hdrop
        exact hdrop.symm
      have hbspos := List.length_pos_of_ne_nil hbs
      have hleft : (t.drop bs.length).length = t.length - bs.length := List.length_drop
      rw [recvLoop, hrecv]
      dsimp only
      by_cases hend : t.length - bs.length = 0
      · have hdrop : t.drop bs.length = [] := List.length_eq_zero_iff.mp (hleft.trans hend)
        rw [hdrop, List.append_nil] at hfront
        rw [hdrop, List.nil_append] at hrest'
        exact ⟨wire', by rw [if_pos hend, hfront], hstream'.trans hrest', hquiet'⟩
      · have hdrop : t.drop bs.length ≠ [] := by
          intro hnil
          rw [hnil, List.length_nil] at hleft
          exact hend hleft.symm
        obtain ⟨wire'', hloop, hstream'', hquiet''⟩ :=
          ih hquiet' (hstream'.trans hrest') hdrop (by omega) (buffer ++ bs)
        refine ⟨wire'', ?_, hstream'', hquiet''⟩
        rw [if_neg hend, ← hleft, hloop, List.append_assoc, ← hfront]

/-- A session that is about to deliver the rest of a body of known length. -/
structure Known (left : List UInt8) (s : Session) : Prop where
  chunk_sz : s.chunk_sz = 0
  socket : s.socket = true
  content_length : 0 < s.content_length
  content_remainder : s.content_remainder = left.length
  quiet : s.wire.Quiet
  stream : ∃ after, s.wire.stream = left ++ after

/-- One call delivers as many bytes as are asked for, and no more than are left of the
body. -/
theorem webclientRead_known {left : List UInt8} {s : Session} (h : Known left s)
    {length : Nat} (hlength : 0 < length) (hleft : left ≠ []) :
    ∃ s', webclientRead s length =
        .ok (((left.take length).length, left.take length), s') ∧
      Known (left.drop length) s' ∧ s'.content_length = s.content_length := by
  obtain ⟨after, hstream⟩ := h.stream
  have hpos := List.length_pos_of_ne_nil hleft
  have hasked : min length s.content_remainder = (left.take length).length := by
    rw [h.content_remainder, List.length_take]
  have htake : left.take length ≠ [] := by
    intro hnil
    rw [hnil, List.length_nil, h.content_remainder] at hasked
    omega
  have hsplit : s.wire.stream = left.take length ++ (left.drop length ++ after) := by
    rw [← List.append_assoc, List.take_append_drop, hstream]
  obtain ⟨wire, hloop, hstream', hquiet'⟩ := recvLoop_eq h.quiet hsplit htake le_rfl []
  have hcontent := h.content_length
  have htakepos := List.length_pos_of_ne_nil htake
  rw [webclientRead, if_neg (by rw [h.chunk_sz]; decide), if_neg (by rw [h.socket]; decide),
    if_neg (by omega), if_neg (by simp [h.chunk_sz]), if_pos hcontent, hasked,
    if_neg (by omega), readPlain, hloop, List.nil_append]
  refine ⟨{ s with wire := wire, content_remainder :=
    s.content_remainder - (left.take length).length }, ?_, ?_, rfl⟩
  · dsimp only
    rw [if_pos hcontent]
  · refine ⟨h.chunk_sz, h.socket, hcontent, ?_, hquiet', after, hstream'⟩
    dsimp only
    rw [h.content_remainder, List.length_take, List.length_drop]
    omega

/-- When the body is complete a call returns zero. -/
theorem webclientRead_complete {s : Session} (h : Known [] s) (length : Nat) :
    webclientRead s length = .ok ((0, []), s) := by
  have hremainder : s.content_remainder = 0 := h.content_remainder
  rw [webclientRead, if_neg (by rw [h.chunk_sz]; decide), if_neg (by rw [h.socket]; decide)]
  by_cases hlength : length = 0
  · rw [if_pos hlength]
  · rw [if_neg hlength, if_neg (by simp [h.chunk_sz]), if_pos h.content_length,
      if_pos (by rw [hremainder, Nat.min_zero])]

/-- What the loop of {lit}`fetch_weather` asks for. -/
theorem requestLength_eq {content_length : Int} {pos : Nat} {left : List UInt8}
    (hpos : content_length - pos = left.length) :
    requestLength content_length pos = min getRespBufsz left.length := by
  rw [requestLength, hpos]
  split_ifs <;> omega

/-- Successive calls for what is left deliver the body in pieces of the size of the
buffer; a body that fits the buffer is delivered at once. -/
theorem answers_of_known {left : List UInt8} {s : Session} (h : Known left s) {n : Nat}
    (hn : left.length < n) {pos : Nat} (hpos : s.content_length - pos = left.length) :
    ∃ pieces, answers (fun pos => requestLength s.content_length pos) n pos s = .ok pieces ∧
      SplitOf left pieces ∧ (left.length ≤ getRespBufsz → pieces.length ≤ 1) := by
  have hbuf : getRespBufsz = 4096 := rfl
  induction n generalizing left s pos with
  | zero => exact absurd hn (Nat.not_lt_zero _)
  | succ n ih =>
      by_cases hleft : left = []
      · rw [hleft] at h
        refine ⟨[], ?_, ⟨by simp, by rw [hleft]; rfl⟩, fun _ => Nat.zero_le 1⟩
        rw [answers, webclientRead_complete h, Outcome.ok_bind]
        rfl
      · have hlen := List.length_pos_of_ne_nil hleft
        have hasked := requestLength_eq hpos
        have htake : (left.take (requestLength s.content_length pos)).length =
            requestLength s.content_length pos := by
          rw [List.length_take]
          omega
        obtain ⟨s', hread, hknown, hsame⟩ := webclientRead_known h
          (show 0 < requestLength s.content_length pos by omega) hleft
        have hne : left.take (requestLength s.content_length pos) ≠ [] := by
          intro hnil
          rw [hnil, List.length_nil] at htake
          omega
        have hdrop : (left.drop (requestLength s.content_length pos)).length =
            left.length - requestLength s.content_length pos := List.length_drop
        have hpos' : s'.content_length - ((pos + requestLength s.content_length pos : Nat) : Int) =
            (left.drop (requestLength s.content_length pos)).length := by
          rw [hsame]
          omega
        obtain ⟨pieces, hanswers, hsplit, hcount⟩ := ih hknown (by omega) hpos'
        have hround := @answers_succ_of_read (fun pos => requestLength s.content_length pos) n pos s
          s' _ hread hne
        refine ⟨left.take (requestLength s.content_length pos) :: pieces, ?_, ⟨?_, ?_⟩, ?_⟩
        · rw [hsame] at hanswers
          rw [hround, htake, hanswers]
          rfl
        · exact List.forall_mem_cons.mpr ⟨hne, hsplit.nonempty⟩
        · rw [List.flatten_cons, hsplit.flatten, List.take_append_drop]
        · intro hfits
          have hnil : left.drop (requestLength s.content_length pos) = [] :=
            List.length_eq_zero_iff.mp (by omega)
          rw [hnil] at hsplit
          cases pieces with
          | nil => exact le_rfl
          | cons piece pieces =>
              have hnot := hsplit.nonempty piece List.mem_cons_self
              exact absurd (List.append_eq_nil_iff.mp hsplit.flatten).1 hnot

end WeatherStation
