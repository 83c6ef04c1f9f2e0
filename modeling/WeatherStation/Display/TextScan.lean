import WeatherStation.Display.TextLayout
import WeatherStation.Foundation.Loop

/-!
# Text functions on memory

The loops of the text functions as they move a pointer through memory: which bytes they
examine, and when they are left.

Main results:

- Theorem {lit}`scan_of_complete`: with complete characters a function is left at the
  terminator and has drawn the characters of its text.
- Theorem {lit}`exists_pStr_past`: with an incomplete last character its pointer passes
  the terminator.
- Theorem {lit}`scanSafe_iff`: the texts on which the functions examine no byte behind the
  terminator.
-/

open Foundation

namespace WeatherStation

/-! ## Texts in memory -/

/-- A text with its terminator stands at the start of a memory; anything can stand behind
it. -/
structure Stored (m : Memory) (text : CStr) : Prop where
  bytes : ∀ i (hi : i < text.bytes.length), m i = text.bytes[i]
  terminator : m text.bytes.length = 0

namespace Stored

variable {m : Memory} {text : CStr} {p : Nat}

theorem apply_of_drop_eq_nil (h : Stored m text) (hp : p ≤ text.bytes.length)
    (hdrop : text.bytes.drop p = []) : m p = 0 := by
  obtain rfl : p = text.bytes.length := Nat.le_antisymm hp (List.drop_eq_nil_iff.mp hdrop)
  exact h.terminator

theorem apply_of_drop_eq_cons (h : Stored m text) {b : UInt8} {bs : List UInt8}
    (hdrop : text.bytes.drop p = b :: bs) :
    p < text.bytes.length ∧ m p = b ∧ b ≠ 0 ∧ text.bytes.drop (p + 1) = bs := by
  have hp : p < text.bytes.length := by
    by_contra hend
    rw [List.drop_of_length_le (by omega)] at hdrop
    contradiction
  rw [List.drop_eq_getElem_cons hp] at hdrop
  obtain ⟨hb, hbs⟩ := List.cons.inj hdrop
  exact ⟨hp, (h.bytes p hp).trans hb, hb ▸ text.ne_zero_of_mem (List.getElem_mem hp), hbs⟩

end Stored

/-- Bytes that a character takes in a text. -/
def Glyph.size : Glyph → Nat
  | .en _ => 1
  | .ch _ _ => 2

/-- A first byte for which {lit}`two` holds has a second byte after it. -/
def pairsComplete (two : UInt8 → Bool) : List UInt8 → Bool
  | [] => true
  | b :: bs =>
      if two b then
        match bs with
        | [] => false
        | _ :: bs => pairsComplete two bs
      else pairsComplete two bs

theorem pairsComplete_one {two : UInt8 → Bool} {b : UInt8} (h : two b = false)
    (bs : List UInt8) : pairsComplete two (b :: bs) = pairsComplete two bs := by
  cases bs <;> simp [pairsComplete, h]

theorem pairsComplete_two {two : UInt8 → Bool} {b : UInt8} (h : two b = true) (b' : UInt8)
    (bs : List UInt8) : pairsComplete two (b :: b' :: bs) = pairsComplete two bs := by
  rw [pairsComplete, if_pos h]

theorem pairsComplete_half {two : UInt8 → Bool} {b : UInt8} (h : two b = true) :
    pairsComplete two [b] = false := by
  rw [pairsComplete, if_pos h]

/-! ## The loops -/

/-- The locals of a text function and the characters it has drawn. -/
structure ScanState where
  pStr : Nat
  usX : Nat
  usY : Nat
  glyphs : List Placed

/-- A text function at its start. -/
def ScanState.start (usX usY : UInt16) : ScanState :=
  ⟨0, usX.toNat, usY.toNat, []⟩

namespace TextRoutine

/-- The function takes the byte for the first one of two. -/
def takesTwo : TextRoutine → UInt8 → Bool
  | lcd_disp_str_en, _ => false
  | lcd_disp_str_ch, _ => true
  | lcd_disp_str_en_ch, b => !(b ≤ 126)

/-- The character that the function sees at its pointer. -/
def glyphAt (routine : TextRoutine) (m : Memory) (p : Nat) : Glyph :=
  if routine.takesTwo (m p) then .ch (m p) (m (p + 1)) else .en (m p)

/-- One round of the loop, which is left at a NUL byte. -/
def round (routine : TextRoutine) (m : Memory) (s : ScanState) : Option ScanState :=
  if m s.pStr = 0 then none
  else
    let g := routine.glyphAt m s.pStr
    let c := wrapCursor g.width s.usX s.usY
    some ⟨s.pStr + g.size, c.1 + g.width, c.2, s.glyphs ++ [⟨c.1, c.2, g⟩]⟩

/-- The addresses that the test of the loop and the round after it examine. -/
def examined (routine : TextRoutine) (m : Memory) (s : ScanState) : List Nat :=
  if m s.pStr = 0 then [s.pStr]
  else (List.range (routine.glyphAt m s.pStr).size).map (s.pStr + ·)

variable {routine : TextRoutine}

/-- The functions differ in the bytes that they take for first ones of two. -/
theorem complete_iff (routine : TextRoutine) (bs : List UInt8) :
    routine.Complete bs ↔ pairsComplete routine.takesTwo bs = true := by
  cases routine with
  | lcd_disp_str_en =>
      induction bs with
      | nil => simp [Complete, pairsComplete]
      | cons b bs ih => rwa [pairsComplete_one rfl]
  | lcd_disp_str_ch =>
      induction bs using wideGlyphs.induct with
      | case1 => simp [Complete, pairsComplete]
      | case2 b => simp [Complete, pairsComplete, takesTwo]
      | case3 b b' bs ih =>
          rw [pairsComplete_two rfl, ← ih]
          simp only [Complete, List.length_cons]
          omega
  | lcd_disp_str_en_ch =>
      induction bs using glyphsOf.induct with
      | case1 => simp [Complete, MixedComplete, pairsComplete]
      | case2 b bs hb ih =>
          rw [pairsComplete_one (by simp [takesTwo, hb]), ← ih, Complete, Complete,
            mixedComplete_en hb]
      | case3 b hb => simp [Complete, MixedComplete, pairsComplete, takesTwo, hb]
      | case4 b hb b' bs ih =>
          rw [pairsComplete_two (by simp [takesTwo, hb]), ← ih, Complete, Complete,
            mixedComplete_ch hb]

/-- A single-byte character at the front of a text. -/
theorem run_one {b : UInt8} (h : routine.takesTwo b = false) (x y : Nat) (bs : List UInt8) :
    routine.run x y (b :: bs) =
      (routine.run ((wrapCursor 8 x y).1 + 8) (wrapCursor 8 x y).2 bs).cons
        ⟨(wrapCursor 8 x y).1, (wrapCursor 8 x y).2, .en b⟩ := by
  cases routine with
  | lcd_disp_str_en => rfl
  | lcd_disp_str_ch => contradiction
  | lcd_disp_str_en_ch =>
      have hb : b ≤ 126 := by simpa [takesTwo] using h
      simp only [run, lcdDispStrEnCh, if_pos hb]

/-- A double-byte character at the front of a text. -/
theorem run_two {b : UInt8} (h : routine.takesTwo b = true) (x y : Nat) (b' : UInt8)
    (bs : List UInt8) :
    routine.run x y (b :: b' :: bs) =
      (routine.run ((wrapCursor 16 x y).1 + 16) (wrapCursor 16 x y).2 bs).cons
        ⟨(wrapCursor 16 x y).1, (wrapCursor 16 x y).2, .ch b b'⟩ := by
  cases routine with
  | lcd_disp_str_en => contradiction
  | lcd_disp_str_ch => rfl
  | lcd_disp_str_en_ch =>
      have hb : ¬b ≤ 126 := by simpa [takesTwo] using h
      simp only [run, lcdDispStrEnCh, if_neg hb]

/-! ## Rounds on a stored text -/

section Text

variable {m : Memory} {text : CStr} {s : ScanState} {b b' : UInt8} {bs : List UInt8}

/-- At the end of the text the loop is left. -/
theorem left_round_of_end (h : Stored m text) (hs : s.pStr ≤ text.bytes.length)
    (hdrop : text.bytes.drop s.pStr = []) : Loop.Left (routine.round m) s :=
  if_pos (h.apply_of_drop_eq_nil hs hdrop)

/-- A round on a single-byte character. -/
theorem round_one (h : Stored m text) (hdrop : text.bytes.drop s.pStr = b :: bs)
    (htwo : routine.takesTwo b = false) :
    routine.round m s = some ⟨s.pStr + 1, (wrapCursor 8 s.usX s.usY).1 + 8,
        (wrapCursor 8 s.usX s.usY).2, s.glyphs ++
          [⟨(wrapCursor 8 s.usX s.usY).1, (wrapCursor 8 s.usX s.usY).2, .en b⟩]⟩ ∧
      routine.examined m s = [s.pStr] := by
  rcases h.apply_of_drop_eq_cons hdrop with ⟨-, hb, hzero, -⟩
  have hglyph : routine.glyphAt m s.pStr = .en b := by
    rw [glyphAt, hb, htwo, if_neg Bool.false_ne_true]
  constructor
  · rw [round, if_neg (hb ▸ hzero), hglyph]
    rfl
  · rw [examined, if_neg (hb ▸ hzero), hglyph]
    rfl

/-- A round on a byte that is taken for the first one of two. -/
theorem round_two (h : Stored m text) (hdrop : text.bytes.drop s.pStr = b :: bs)
    (htwo : routine.takesTwo b = true) (hnext : m (s.pStr + 1) = b') :
    routine.round m s = some ⟨s.pStr + 2, (wrapCursor 16 s.usX s.usY).1 + 16,
        (wrapCursor 16 s.usX s.usY).2, s.glyphs ++
          [⟨(wrapCursor 16 s.usX s.usY).1, (wrapCursor 16 s.usX s.usY).2, .ch b b'⟩]⟩ ∧
      routine.examined m s = [s.pStr, s.pStr + 1] := by
  rcases h.apply_of_drop_eq_cons hdrop with ⟨-, hb, hzero, -⟩
  have hglyph : routine.glyphAt m s.pStr = .ch b b' := by
    rw [glyphAt, hb, htwo, if_pos rfl, hnext]
  constructor
  · rw [round, if_neg (hb ▸ hzero), hglyph]
    rfl
  · rw [examined, if_neg (hb ▸ hzero), hglyph]
    rfl

/-- The pointer is inside the text, no character of the rest is incomplete, there are no
more characters than bytes behind the pointer, and with those of the rest they are all
characters of the text. -/
structure InText (routine : TextRoutine) (text : CStr) (glyphs : List Placed) (s : ScanState) :
    Prop where
  pStr : s.pStr ≤ text.bytes.length
  complete : pairsComplete routine.takesTwo (text.bytes.drop s.pStr) = true
  count : s.glyphs.length ≤ s.pStr
  glyphs : s.glyphs ++ (routine.run s.usX s.usY (text.bytes.drop s.pStr)).glyphs = glyphs

/-- A round in the text moves the pointer on and examines bytes of the text only. -/
theorem inText_round (h : Stored m text) {glyphs : List Placed}
    (hs : routine.InText text glyphs s) {s' : ScanState} (hround : routine.round m s = some s') :
    routine.InText text glyphs s' ∧ text.bytes.length - s'.pStr < text.bytes.length - s.pStr := by
  rcases hs with ⟨hp, hcomplete, hcount, hglyphs⟩
  cases hdrop : text.bytes.drop s.pStr with
  | nil =>
      rw [left_round_of_end h hp hdrop] at hround
      contradiction
  | cons b bs =>
      rcases h.apply_of_drop_eq_cons hdrop with ⟨hlt, -, -, hrest⟩
      rw [hdrop] at hcomplete hglyphs
      cases htwo : routine.takesTwo b with
      | false =>
          rw [(round_one h hdrop htwo).1] at hround
          obtain rfl := Option.some.inj hround
          rw [pairsComplete_one htwo] at hcomplete
          rw [run_one htwo] at hglyphs
          refine ⟨⟨hlt, by rwa [hrest], ?_, ?_⟩, ?_⟩
          · rw [List.length_append, List.length_singleton]
            dsimp only
            omega
          · rw [hrest, List.append_assoc, ← hglyphs]
            rfl
          · dsimp only
            omega
      | true =>
          cases bs with
          | nil =>
              rw [pairsComplete_half htwo] at hcomplete
              contradiction
          | cons b' bs =>
              rcases h.apply_of_drop_eq_cons hrest with ⟨hlt', hb', -, hrest'⟩
              rw [(round_two h hdrop htwo hb').1] at hround
              obtain rfl := Option.some.inj hround
              rw [pairsComplete_two htwo] at hcomplete
              rw [run_two htwo] at hglyphs
              refine ⟨⟨hlt', by rwa [hrest'], ?_, ?_⟩, ?_⟩
              · rw [List.length_append, List.length_singleton]
                dsimp only
                omega
              · rw [hrest', List.append_assoc, ← hglyphs]
                rfl
              · dsimp only
                omega

/-- In the text the loop examines no byte behind the terminator. -/
theorem examined_of_inText (h : Stored m text) {glyphs : List Placed}
    (hs : routine.InText text glyphs s) {a : Nat} (ha : a ∈ routine.examined m s) :
    a ≤ text.bytes.length := by
  rcases hs with ⟨hp, hcomplete, -, -⟩
  cases hdrop : text.bytes.drop s.pStr with
  | nil =>
      rw [examined, if_pos (h.apply_of_drop_eq_nil hp hdrop)] at ha
      rwa [List.mem_singleton.mp ha]
  | cons b bs =>
      rcases h.apply_of_drop_eq_cons hdrop with ⟨hlt, -, -, hrest⟩
      cases htwo : routine.takesTwo b with
      | false =>
          rw [(round_one h hdrop htwo).2] at ha
          rwa [List.mem_singleton.mp ha]
      | true =>
          rw [(round_two h hdrop htwo rfl).2] at ha
          rcases List.mem_pair.mp ha with rfl | rfl
          · exact hp
          · exact hlt

/-- From an incomplete rest of the text the pointer comes to stand behind the terminator. -/
theorem exists_pStr_past (h : Stored m text) (hdrop : text.bytes.drop s.pStr = bs)
    (hcomplete : pairsComplete routine.takesTwo bs = false) :
    ∃ n, (Loop.rounds (routine.round m) n s).pStr = text.bytes.length + 1 := by
  induction bs using pairsComplete.induct routine.takesTwo generalizing s with
  | case1 => rw [pairsComplete] at hcomplete; contradiction
  | case2 b htwo =>
      -- The terminator is taken for the second byte.
      have hlast : s.pStr + 1 = text.bytes.length := by
        have hlen := congrArg List.length hdrop
        rw [List.length_drop, List.length_singleton] at hlen
        omega
      refine ⟨1, ?_⟩
      rw [Loop.rounds_succ (round_two h hdrop htwo rfl).1, Loop.rounds]
      dsimp only
      omega
  | case3 b htwo b' bs ih =>
      rcases h.apply_of_drop_eq_cons hdrop with ⟨-, -, -, hrest⟩
      rcases h.apply_of_drop_eq_cons hrest with ⟨-, hb', -, hrest'⟩
      rw [pairsComplete_two htwo] at hcomplete
      obtain ⟨s', hs', hp⟩ : ∃ s', routine.round m s = some s' ∧ s'.pStr = s.pStr + 2 :=
        ⟨_, (round_two h hdrop htwo hb').1, rfl⟩
      obtain ⟨n, hn⟩ := ih (s := s') (by rwa [hp]) hcomplete
      exact ⟨n + 1, by rwa [Loop.rounds_succ hs']⟩
  | case4 b bs htwo ih =>
      have htwo : routine.takesTwo b = false := Bool.not_eq_true _ ▸ htwo
      rcases h.apply_of_drop_eq_cons hdrop with ⟨-, -, -, hrest⟩
      rw [pairsComplete_one htwo] at hcomplete
      obtain ⟨s', hs', hp⟩ : ∃ s', routine.round m s = some s' ∧ s'.pStr = s.pStr + 1 :=
        ⟨_, (round_one h hdrop htwo).1, rfl⟩
      obtain ⟨n, hn⟩ := ih (s := s') (by rwa [hp]) hcomplete
      exact ⟨n + 1, by rwa [Loop.rounds_succ hs']⟩

end Text

/-! ## Whole texts -/

variable {m : Memory} {text : CStr}

/-- A text without incomplete characters is in order from its start on. -/
theorem inText_start (h : routine.Complete text.bytes) (usX usY : UInt16) :
    routine.InText text (routine.run usX.toNat usY.toNat text.bytes).glyphs
      (ScanState.start usX usY) :=
  ⟨Nat.zero_le _, (routine.complete_iff _).mp h, le_rfl, rfl⟩

/-- And it stays in order. -/
theorem inText_rounds (hm : Stored m text) (h : routine.Complete text.bytes) (usX usY : UInt16)
    (n : Nat) : routine.InText text (routine.run usX.toNat usY.toNat text.bytes).glyphs
      (Loop.rounds (routine.round m) n (.start usX usY)) :=
  Loop.rounds_invariant (fun _ _ hs hround => (inText_round hm hs hround).1)
    (inText_start h usX usY) n

/-- With complete characters the function is left at the terminator after at most one round
for each byte, and has drawn the characters of its text. -/
theorem scan_of_complete (hm : Stored m text) (h : routine.Complete text.bytes)
    (usX usY : UInt16) :
    Loop.Left (routine.round m)
        (Loop.rounds (routine.round m) text.bytes.length (.start usX usY)) ∧
      (Loop.rounds (routine.round m) text.bytes.length (.start usX usY)).glyphs =
        (routine.run usX.toNat usY.toNat text.bytes).glyphs := by
  have hleft : Loop.Left (routine.round m)
      (Loop.rounds (routine.round m) text.bytes.length (.start usX usY)) :=
    Loop.left_rounds
      (P := routine.InText text (routine.run usX.toNat usY.toNat text.bytes).glyphs)
      (m := fun s => text.bytes.length - s.pStr)
      (fun _ _ hs hround => inText_round hm hs hround) (inText_start h usX usY) (Nat.sub_le _ _)
  have hin := inText_rounds hm h usX usY text.bytes.length
  refine ⟨hleft, ?_⟩
  have hglyphs := hin.glyphs
  -- A byte of the text would be another round.
  have hend : text.bytes.drop (Loop.rounds (routine.round m) text.bytes.length
      (.start usX usY)).pStr = [] := by
    cases hdrop : text.bytes.drop (Loop.rounds (routine.round m) text.bytes.length
      (.start usX usY)).pStr with
    | nil => rfl
    | cons b bs =>
        rcases hm.apply_of_drop_eq_cons hdrop with ⟨-, hb, hzero, -⟩
        rw [Loop.Left, round, if_neg (hb ▸ hzero)] at hleft
        contradiction
  rw [hend] at hglyphs
  cases routine <;> exact (List.append_nil _).symm.trans hglyphs

/-- The function examines bytes up to the terminator only and is left after at most one
character for each byte. -/
structure ScanSafe (routine : TextRoutine) (m : Memory) (text : CStr) (usX usY : UInt16) :
    Prop where
  inside : ∀ n, ∀ a ∈ routine.examined m (Loop.rounds (routine.round m) n (.start usX usY)),
    a ≤ text.bytes.length
  count : ∀ n, (Loop.rounds (routine.round m) n (.start usX usY)).glyphs.length ≤
    text.bytes.length
  terminates : ∃ n ≤ text.bytes.length, Loop.Left (routine.round m)
    (Loop.rounds (routine.round m) n (.start usX usY))

/-- Whatever stands behind it, a text is scanned safely exactly when every byte that the
function takes for the first one of two has a second byte before the terminator. -/
theorem scanSafe_iff (routine : TextRoutine) {m : Memory} {text : CStr} (hm : Stored m text)
    (usX usY : UInt16) :
    routine.ScanSafe m text usX usY ↔ routine.Complete text.bytes := by
  constructor
  · intro h
    by_contra hincomplete
    rw [complete_iff, Bool.not_eq_true] at hincomplete
    obtain ⟨n, hn⟩ := exists_pStr_past (s := .start usX usY) hm List.drop_zero hincomplete
    have hfirst : ∀ s, s.pStr ∈ routine.examined m s := by
      intro s
      rw [examined, glyphAt]
      split_ifs <;> simp [Glyph.size]
    have hinside := h.inside n _ (hfirst _)
    omega
  · intro h
    have hin := inText_rounds hm h usX usY
    refine ⟨fun n a ha => examined_of_inText hm (hin n) ha, fun n => ?_,
      _, le_rfl, (scan_of_complete hm h usX usY).1⟩
    exact (hin n).count.trans (hin n).pStr

/-- A letter and a double-byte character. -/
theorem scanSafe_mixed :
    lcd_disp_str_en_ch.ScanSafe (Memory.write (fun _ => 0) 0 [0x41, 0xB0, 0xA1])
      ⟨[0x41, 0xB0, 0xA1], by decide⟩ 0 0 :=
  (scanSafe_iff lcd_disp_str_en_ch ⟨by decide, by decide⟩ 0 0).mpr rfl

/-- A text that is cut in the middle of a character is not scanned safely. -/
theorem cut_character :
    ¬∀ (routine : TextRoutine) (m : Memory) (text : CStr), Stored m text →
      ∀ usX usY, routine.ScanSafe m text usX usY := by
  intro h
  have hsafe := h lcd_disp_str_en_ch (Memory.write (fun _ => 0) 0 [0xB0]) ⟨[0xB0], by decide⟩
    ⟨by decide, by decide⟩ 0 0
  exact absurd (hsafe.inside 1 2 (by decide)) (by decide)

end TextRoutine

end WeatherStation
