import WeatherStation.Foundation.Loop
import WeatherStation.Weather.Fetch

/-!
# The receive buffer

The read loops of {lit}`fetch_weather` round by round: what each read may write, when the
loops are left, and whether the text that they leave in the buffer is terminated.

Main results:

- Theorem {lit}`left_readRounds`: after a finite sequence of answers the loops are left,
  with the buffer that the parser is given.
- Theorem {lit}`requested_readRounds`: no read is asked for more than the buffer holds.
- Theorem {lit}`receiveSafe_iff`: the answers that leave a NUL byte in the buffer.
-/

open Foundation

namespace WeatherStation

/-! ## The loops round by round -/

/-- The locals of the loops, the answers that are still to come, and whether there is
another round. -/
structure ReadState where
  content_pos : Int
  received : Received
  answers : List (List UInt8)
  running : Bool

/-- The state in which the loops are entered. -/
def ReadState.start (answers : List (List UInt8)) : ReadState where
  content_pos := 0
  received := .initial
  answers := answers
  running := true

/-- The length that the next read is asked for. -/
def requested (content_length content_pos : Int) : Int :=
  if content_length < 0 then getRespBufsz
  else if content_length - content_pos > getRespBufsz then getRespBufsz
  else content_length - content_pos

/-- One round of the loop for the response; when there are no answers left a read delivers
nothing. -/
def readRound (content_length : Int) (s : ReadState) : Option ReadState :=
  if s.running then
    let length := (requested content_length s.content_pos).toNat
    let answer := s.answers.headD []
    let bytes_read := (answer.take length).length
    some
      { content_pos := s.content_pos + bytes_read
        received := s.received.webclientRead length answer
        answers := s.answers.tail
        running := bytes_read ≠ 0 ∧
          (content_length < 0 ∨ s.content_pos + bytes_read < content_length) }
  else none

section Rounds

variable {content_length : Int} {s s' : ReadState}

/-- What a round does. -/
theorem readRound_cases (h : readRound content_length s = some s') :
    s.running = true ∧ ∃ length answer,
      length = (requested content_length s.content_pos).toNat ∧ answer = s.answers.headD [] ∧
      s' = ⟨s.content_pos + (answer.take length).length, s.received.webclientRead length answer,
        s.answers.tail, (answer.take length).length ≠ 0 ∧ (content_length < 0 ∨
          s.content_pos + (answer.take length).length < content_length)⟩ := by
  rw [readRound] at h
  split_ifs at h with hrun
  exact ⟨hrun, _, _, rfl, rfl, (Option.some.inj h).symm⟩

/-- The loops are left when there is no further round. -/
theorem left_readRound_iff : Loop.Left (readRound content_length) s ↔ s.running = false := by
  rw [Loop.Left, readRound]
  cases s.running <;> simp

/-- The rounds that are still possible. -/
def ReadState.remaining (s : ReadState) : Nat :=
  if s.running then s.answers.length + 1 else 0

/-- Every round but the last one takes an answer. -/
theorem remaining_readRound (h : readRound content_length s = some s') :
    s'.remaining < s.remaining := by
  obtain ⟨hrun, length, answer, hlength, hanswer, rfl⟩ := readRound_cases h
  cases hanswers : s.answers with
  | nil =>
      -- Without an answer nothing is read.
      obtain rfl : answer = [] := by rw [hanswer, hanswers, List.headD_nil]
      simp [ReadState.remaining, hrun]
  | cons next answers =>
      simp only [ReadState.remaining, hrun, hanswers, List.tail_cons, List.length_cons, if_true]
      split_ifs <;> omega

/-- Position in the response while there are further rounds. -/
def ReadState.InResponse (content_length : Int) (s : ReadState) : Prop :=
  s.running = true → 0 ≤ s.content_pos ∧ (content_length < 0 ∨ s.content_pos ≤ content_length)

theorem inResponse_readRound (hs : s.InResponse content_length)
    (h : readRound content_length s = some s') : s'.InResponse content_length := by
  obtain ⟨hrun, length, answer, -, -, rfl⟩ := readRound_cases h
  have hpos := (hs hrun).1
  intro hmore
  rw [decide_eq_true_eq] at hmore
  exact ⟨by dsimp only; omega, hmore.2.imp_right Int.le_of_lt⟩

/-- In the response a read is asked for no more than the buffer holds. -/
theorem requested_of_inResponse (hs : s.InResponse content_length) (hrun : s.running = true) :
    0 ≤ requested content_length s.content_pos ∧
      requested content_length s.content_pos ≤ getRespBufsz := by
  have hpos := hs hrun
  simp only [requested, getRespBufsz]
  split_ifs <;> omega

/-- No read of the loops is asked for more than the buffer holds. -/
theorem requested_readRounds (content_length : Int) (answers : List (List UInt8)) (n : Nat)
    (hrun : (Loop.rounds (readRound content_length) n (.start answers)).running = true) :
    0 ≤ requested content_length
        (Loop.rounds (readRound content_length) n (.start answers)).content_pos ∧
      requested content_length
        (Loop.rounds (readRound content_length) n (.start answers)).content_pos ≤ getRespBufsz := by
  refine requested_of_inResponse (Loop.rounds_invariant
    (fun _ _ hs h => inResponse_readRound hs h) (fun _ => ⟨Int.le_refl 0, ?_⟩) n) hrun
  exact Int.lt_or_le content_length 0

end Rounds

/-! ## What the loops leave -/

/-- The rest of the loops from a position on. -/
def readRest (content_length content_pos : Int) (rc : Received) (answers : List (List UInt8)) :
    Received :=
  if content_length < 0 then readChunked rc answers
  else readKnown content_length content_pos rc answers

/-- What the loops leave from a state on. -/
def ReadState.result (content_length : Int) (s : ReadState) : Received :=
  if s.running then readRest content_length s.content_pos s.received s.answers else s.received

/-- One answer of the rest of the loops. -/
theorem readRest_eq (content_length content_pos : Int) (rc : Received)
    (answers : List (List UInt8)) {length : Nat}
    (hlength : (requested content_length content_pos).toNat = length) {answer : List UInt8}
    (hanswer : answers.headD [] = answer) :
    readRest content_length content_pos rc answers =
      if (answer.take length).length ≠ 0 ∧ (content_length < 0 ∨
          content_pos + (answer.take length).length < content_length) then
        readRest content_length (content_pos + (answer.take length).length)
          (rc.webclientRead length answer) answers.tail
      else rc.webclientRead length answer := by
  subst hanswer
  by_cases hneg : content_length < 0
  · obtain rfl : getRespBufsz = length := by
      rw [← hlength, requested, if_pos hneg, Int.toNat_natCast]
    cases answers with
    | nil => simp [readRest, hneg, readChunked]
    | cons answer answers =>
        simp only [readRest, readChunked, List.headD_cons, List.tail_cons, hneg, if_true, true_or,
          and_true, ne_eq, ite_not]
  · obtain rfl : requestLength content_length content_pos = length := by
      rw [← hlength, requested, if_neg hneg, requestLength]
      split_ifs <;> rfl
    cases answers with
    | nil => simp [readRest, hneg, readKnown]
    | cons answer answers =>
        simp only [readRest, readKnown, List.headD_cons, List.tail_cons, hneg, if_false, false_or,
          ite_and, ne_eq, ite_not]

/-- A round does not change what the loops leave in the end. -/
theorem result_readRound {content_length : Int} {s s' : ReadState}
    (h : readRound content_length s = some s') :
    s'.result content_length = s.result content_length := by
  obtain ⟨hrun, length, answer, hlength, hanswer, rfl⟩ := readRound_cases h
  rw [ReadState.result, ReadState.result, if_pos hrun,
    readRest_eq content_length s.content_pos s.received s.answers hlength.symm hanswer.symm]
  simp only [decide_eq_true_eq]

/-- After at most one round more than there are answers the loops are left, with the buffer
that the parser is given. -/
theorem left_readRounds (content_length : Int) (answers : List (List UInt8)) {n : Nat}
    (hn : answers.length + 1 ≤ n) :
    Loop.Left (readRound content_length)
        (Loop.rounds (readRound content_length) n (.start answers)) ∧
      (Loop.rounds (readRound content_length) n (.start answers)).received =
        fetchBuffer content_length answers := by
  have hleft : Loop.Left (readRound content_length)
      (Loop.rounds (readRound content_length) n (.start answers)) :=
    Loop.left_rounds (P := fun _ => True)
      (fun _ _ _ h => ⟨trivial, remaining_readRound h⟩) trivial hn
  have hresult : (Loop.rounds (readRound content_length) n (.start answers)).result content_length =
      fetchBuffer content_length answers :=
    Loop.rounds_invariant (P := fun s => s.result content_length =
      fetchBuffer content_length answers) (fun _ _ hs h => (result_readRound h).trans hs) rfl n
  rw [ReadState.result, left_readRound_iff.mp hleft] at hresult
  exact ⟨hleft, hresult⟩

/-! ## The terminator -/

/-- The answers that the loops store from a position on: up to the first empty one, and up
to the length of the response when it is known. -/
def storedAnswers (content_length : Int) : Int → List (List UInt8) → List (List UInt8)
  | _, [] => []
  | content_pos, answer :: answers =>
      let piece := answer.take (requested content_length content_pos).toNat
      if piece.length = 0 then []
      else if content_length < 0 ∨ content_pos + piece.length < content_length then
        piece :: storedAnswers content_length (content_pos + piece.length) answers
      else [piece]

/-- The loops lay the answers that they store on top of each other. -/
theorem buffer_readRest (content_length content_pos : Int) (rc : Received)
    (answers : List (List UInt8)) :
    (readRest content_length content_pos rc answers).buffer =
      layOver rc.buffer (storedAnswers content_length content_pos answers) := by
  induction answers generalizing content_pos rc with
  | nil =>
      rw [readRest_eq content_length content_pos rc [] rfl rfl]
      simp [Received.webclientRead, storedAnswers, layOver]
  | cons answer answers ih =>
      rw [readRest_eq content_length content_pos rc (answer :: answers) rfl rfl,
        List.headD_cons, List.tail_cons, storedAnswers]
      have hpaint : (rc.webclientRead (requested content_length content_pos).toNat answer).buffer =
          Canvas.paint rc.buffer
            (pieceLayer (answer.take (requested content_length content_pos).toNat)) :=
        write_zero_eq_paint _ _
      by_cases hempty : (answer.take (requested content_length content_pos).toNat).length = 0
      · rw [if_neg (fun h => h.1 hempty), if_pos hempty, hpaint,
          List.eq_nil_of_length_eq_zero hempty]
        rfl
      · by_cases hmore : content_length < 0 ∨ content_pos +
            (answer.take (requested content_length content_pos).toNat).length < content_length
        · rw [if_pos ⟨hempty, hmore⟩, if_neg hempty, if_pos hmore, ih, hpaint]
          rfl
        · rw [if_neg (fun h => hmore h.2), if_neg hempty, if_neg hmore, hpaint]
          rfl

/-- What the parser finds at a position of the buffer. -/
theorem buffer_fetchBuffer_apply (content_length : Int) (answers : List (List UInt8)) (i : Nat) :
    (fetchBuffer content_length answers).buffer i =
      (topByte i (storedAnswers content_length 0 answers)).getD 0 := by
  have hbuffer := buffer_readRest content_length 0 .initial answers
  rw [show fetchBuffer content_length answers = readRest content_length 0 .initial answers from rfl,
    hbuffer, layOver, Canvas.paintAll_apply]
  rfl

/-- No stored answer is longer than the buffer. -/
theorem length_of_mem_storedAnswers {content_length content_pos : Int}
    {answers : List (List UInt8)}
    (hpos : 0 ≤ content_pos ∧ (content_length < 0 ∨ content_pos ≤ content_length))
    {r : List UInt8} (hr : r ∈ storedAnswers content_length content_pos answers) :
    r.length ≤ getRespBufsz := by
  induction answers generalizing content_pos with
  | nil => exact absurd hr List.not_mem_nil
  | cons answer answers ih =>
      have hask : (requested content_length content_pos).toNat ≤ getRespBufsz := by
        have h := requested_of_inResponse (s := ⟨content_pos, .initial, [], true⟩)
          (fun _ => hpos) rfl
        dsimp only at h
        omega
      have hpiece : (answer.take (requested content_length content_pos).toNat).length ≤
          getRespBufsz := (List.length_take_le _ _).trans hask
      rw [storedAnswers] at hr
      split_ifs at hr with hempty hmore
      · exact absurd hr List.not_mem_nil
      · rcases List.mem_cons.mp hr with rfl | hr
        · exact hpiece
        · exact ih ⟨by omega, hmore.imp_right Int.le_of_lt⟩ hr
      · rw [List.mem_singleton.mp hr]
        exact hpiece

/-- The loops are left, no read is asked to write outside of the buffer, and the text that
is left in the buffer is terminated. -/
structure ReceiveSafe (content_length : Int) (answers : List (List UInt8)) : Prop where
  terminates : ∃ n, Loop.Left (readRound content_length)
    (Loop.rounds (readRound content_length) n (.start answers))
  inside : ∀ n s, s = Loop.rounds (readRound content_length) n (.start answers) →
    s.running = true → 0 ≤ requested content_length s.content_pos ∧
      requested content_length s.content_pos ≤ getRespBufsz
  terminated : ∀ n s, s = Loop.rounds (readRound content_length) n (.start answers) →
    Loop.Left (readRound content_length) s → 0 ∈ s.received.buffer.read 0 getRespBufsz

/-- The loops are always left and never write outside of the buffer.  The text is terminated
exactly when at some position of the buffer the last stored answer that reaches it has a NUL
byte there, or none reaches it; for answers without NUL bytes, when none fills the buffer. -/
theorem receiveSafe_iff (content_length : Int) (answers : List (List UInt8)) :
    (ReceiveSafe content_length answers ↔
      ∃ i < getRespBufsz, (topByte i (storedAnswers content_length 0 answers)).getD 0 = 0) ∧
    ((∀ r ∈ storedAnswers content_length 0 answers, 0 ∉ r) →
      (ReceiveSafe content_length answers ↔
        ∀ r ∈ storedAnswers content_length 0 answers, r.length ≠ getRespBufsz)) := by
  have hleft := left_readRounds content_length answers (n := answers.length + 1) le_rfl
  have hnul : 0 ∈ (fetchBuffer content_length answers).buffer.read 0 getRespBufsz ↔
      ∃ i < getRespBufsz, (topByte i (storedAnswers content_length 0 answers)).getD 0 = 0 := by
    simp only [Memory.read, List.mem_map, List.mem_range, Nat.zero_add, buffer_fetchBuffer_apply]
  have hsafe : ReceiveSafe content_length answers ↔
      ∃ i < getRespBufsz, (topByte i (storedAnswers content_length 0 answers)).getD 0 = 0 := by
    rw [← hnul]
    constructor
    · intro h
      rw [← hleft.2]
      exact h.terminated _ _ rfl hleft.1
    · intro h
      refine ⟨⟨_, hleft.1⟩, ?_, ?_⟩
      · rintro n s rfl hrun
        exact requested_readRounds content_length answers n hrun
      · rintro n s rfl hend
        rw [Loop.rounds_eq_of_left hend hleft.1, hleft.2]
        exact h
  have hlen {r : List UInt8} (hr : r ∈ storedAnswers content_length 0 answers) :
      r.length ≤ getRespBufsz :=
    length_of_mem_storedAnswers ⟨Int.le_refl 0, Int.lt_or_le content_length 0⟩ hr
  refine ⟨hsafe, fun htext => hsafe.trans ⟨?_, fun h => ?_⟩⟩
  · rintro ⟨i, hi, hzero⟩ r hr hfull
    -- An answer that fills the buffer leaves an answer on top everywhere.
    have hcover : Canvas.Covered ((storedAnswers content_length 0 answers).map pieceLayer) i :=
      ⟨pieceLayer r, List.mem_map_of_mem hr, by simp [pieceLayer]; omega⟩
    rw [Canvas.covered_iff_top] at hcover
    obtain ⟨b, hb⟩ := Option.isSome_iff_exists.mp hcover
    rw [topByte, hb, Option.getD_some] at hzero
    obtain ⟨l, hl, hlb⟩ := Canvas.exists_mem_of_top hb
    obtain ⟨r', hr', rfl⟩ := List.mem_map.mp hl
    exact htext r' hr' (hzero ▸ List.mem_of_getElem? hlb)
  · refine ⟨getRespBufsz - 1, by decide, ?_⟩
    rw [topByte_eq_none fun r hr => Nat.le_sub_one_of_lt (Nat.lt_of_le_of_ne (hlen hr) (h r hr))]
    rfl

/-- A response of unknown length whose answer fills the buffer leaves no terminator. -/
theorem full_answer :
    ¬∀ (content_length : Int) (answers : List (List UInt8)),
      ReceiveSafe content_length answers := by
  intro h
  obtain ⟨answer, hlen, htext⟩ : ∃ answer : List UInt8, answer.length = getRespBufsz ∧ 0 ∉ answer :=
    ⟨List.replicate getRespBufsz 32, List.length_replicate,
      fun hzero => absurd (List.eq_of_mem_replicate hzero) (by decide)⟩
  have hrequest : (requested (-1) 0).toNat = getRespBufsz := rfl
  have htake : answer.take getRespBufsz = answer := List.take_of_length_le (Nat.le_of_eq hlen)
  have hstored : storedAnswers (-1) 0 [answer] = [answer] := by
    rw [storedAnswers, hrequest, htake, if_neg (by rw [hlen]; decide), if_pos (.inl (by decide)),
      storedAnswers]
  have hleft := left_readRounds (-1) [answer] (n := 2) le_rfl
  have hnul := (h (-1) [answer]).terminated _ _ rfl hleft.1
  rw [hleft.2] at hnul
  simp only [Memory.read, List.mem_map, List.mem_range, Nat.zero_add, buffer_fetchBuffer_apply,
    hstored] at hnul
  obtain ⟨i, hi, hzero⟩ := hnul
  have hbyte : topByte i [answer] = some answer[i] := by
    simp [topByte, Canvas.top, pieceLayer, hlen, hi]
  rw [hbyte, Option.getD_some] at hzero
  exact htext (hzero ▸ List.getElem_mem _)

end WeatherStation
