import WeatherStation.Display.Text
import WeatherStation.Foundation.Flow

/-!
# Layout of a text on the panel

The three text functions of the display code each repeat the rules for moving to the
next line and back to the top of the panel.  All of them lay out a sequence of
characters by these rules, whatever the widths of the characters are.

Main results:

- Theorem {lit}`TextRoutine.run_eq_layout`: a text function lays out the characters of
  its text.
- Theorem {lit}`text_on_panel`: from any position every window is accepted, and the
  characters between two jumps back to the top do not overlap.
- Theorem {lit}`mixed_text_eq_pure`: the mixed text function agrees with the two pure
  ones on each of their texts and on every sequence of them.
-/

open Foundation

namespace WeatherStation

/-! ## Characters laid out by the wrapping rules -/

/-- The layout of a sequence of characters. -/
def layout (x y : Nat) : List Glyph → TextRun
  | [] => ⟨[], x, y, false⟩
  | g :: gs =>
      let c := wrapCursor g.width x y
      (layout (c.1 + g.width) c.2 gs).cons ⟨c.1, c.2, g⟩

/-- One text after another: the second starts where the first stops. -/
def TextRun.andThen (run : TextRun) (next : Nat → Nat → TextRun) : TextRun where
  glyphs := run.glyphs ++ (next run.x run.y).glyphs
  x := (next run.x run.y).x
  y := (next run.x run.y).y
  overrun := run.overrun || (next run.x run.y).overrun

theorem TextRun.cons_andThen (p : Placed) (run : TextRun) (next : Nat → Nat → TextRun) :
    (run.cons p).andThen next = (run.andThen next).cons p :=
  rfl

/-- A layout never runs past its text. -/
theorem overrun_layout (x y : Nat) (gs : List Glyph) : (layout x y gs).overrun = false := by
  induction gs generalizing x y with
  | nil => rfl
  | cons g gs ih => exact ih _ _

/-- A text in two parts is laid out part by part. -/
theorem layout_append (x y : Nat) (gs gs' : List Glyph) :
    layout x y (gs ++ gs') = (layout x y gs).andThen fun x y => layout x y gs' := by
  induction gs generalizing x y with
  | nil => rfl
  | cons g gs ih =>
      simp only [List.cons_append, layout, TextRun.cons_andThen]
      rw [ih]

/-- The double-byte characters of a text. -/
def wideGlyphs : List UInt8 → List Glyph
  | [] => []
  | [b] => [.ch b 0]
  | b :: b' :: bs => .ch b b' :: wideGlyphs bs

/-- Every double-byte character of a mixed text has both its bytes. -/
def MixedComplete : List UInt8 → Bool
  | [] => true
  | b :: bs =>
      if b ≤ 126 then MixedComplete bs
      else
        match bs with
        | [] => false
        | _ :: bs => MixedComplete bs

theorem mixedComplete_en {b : UInt8} (hb : b ≤ 126) (bs : List UInt8) :
    MixedComplete (b :: bs) = MixedComplete bs := by
  cases bs <;> simp [MixedComplete, hb]

theorem mixedComplete_ch {b : UInt8} (hb : ¬b ≤ 126) (b' : UInt8) (bs : List UInt8) :
    MixedComplete (b :: b' :: bs) = MixedComplete bs := by
  simp [MixedComplete, hb]

theorem lcdDispStrEn_eq_layout (x y : Nat) (bs : List UInt8) :
    lcdDispStrEn x y bs = layout x y (bs.map Glyph.en) := by
  induction bs generalizing x y with
  | nil => rfl
  | cons b bs ih =>
      rw [lcdDispStrEn, List.map_cons, layout]
      simp only [ih, Glyph.width]

theorem lcdDispStrCh_eq_layout (x y : Nat) {bs : List UInt8} (h : bs.length % 2 = 0) :
    lcdDispStrCh x y bs = layout x y (wideGlyphs bs) := by
  induction bs using wideGlyphs.induct generalizing x y with
  | case1 => rfl
  | case2 b => simp at h
  | case3 b b' bs ih =>
      rw [List.length_cons, List.length_cons] at h
      rw [lcdDispStrCh, wideGlyphs, layout]
      simp only [ih _ _ (show bs.length % 2 = 0 by omega), Glyph.width]

theorem lcdDispStrEnCh_eq_layout (x y : Nat) {bs : List UInt8} (h : MixedComplete bs) :
    lcdDispStrEnCh x y bs = layout x y (glyphsOf bs) := by
  induction bs using glyphsOf.induct generalizing x y with
  | case1 => rfl
  | case2 b bs hb ih =>
      rw [mixedComplete_en hb] at h
      rw [lcdDispStrEnCh, if_pos hb, glyphsOf_en hb, layout]
      simp only [ih _ _ h, Glyph.width]
  | case3 b hb => simp [MixedComplete, hb] at h
  | case4 b hb b' bs ih =>
      rw [mixedComplete_ch hb] at h
      rw [lcdDispStrEnCh, if_neg hb, glyphsOf_ch hb, layout]
      simp only [ih _ _ h, Glyph.width]

/-! ## The three text functions -/

/-- The text functions with the wrapping rules. -/
inductive TextRoutine where
  | lcd_disp_str_en
  | lcd_disp_str_ch
  | lcd_disp_str_en_ch
deriving DecidableEq

namespace TextRoutine

/-- What the function does with a text from a position on. -/
def run : TextRoutine → Nat → Nat → List UInt8 → TextRun
  | lcd_disp_str_en => lcdDispStrEn
  | lcd_disp_str_ch => lcdDispStrCh
  | lcd_disp_str_en_ch => lcdDispStrEnCh

/-- The pairs of bytes that the function takes for characters are complete. -/
def Complete : TextRoutine → List UInt8 → Prop
  | lcd_disp_str_en, _ => True
  | lcd_disp_str_ch, bs => bs.length % 2 = 0
  | lcd_disp_str_en_ch, bs => MixedComplete bs

/-- The characters that the function sees in a text. -/
def glyphs : TextRoutine → List UInt8 → List Glyph
  | lcd_disp_str_en, bs => bs.map Glyph.en
  | lcd_disp_str_ch, bs => wideGlyphs bs
  | lcd_disp_str_en_ch, bs => glyphsOf bs

/-- A text function lays out the characters of its text. -/
theorem run_eq_layout (routine : TextRoutine) (x y : Nat) {bs : List UInt8}
    (h : routine.Complete bs) : routine.run x y bs = layout x y (routine.glyphs bs) := by
  cases routine with
  | lcd_disp_str_en => exact lcdDispStrEn_eq_layout x y bs
  | lcd_disp_str_ch => exact lcdDispStrCh_eq_layout x y h
  | lcd_disp_str_en_ch => exact lcdDispStrEnCh_eq_layout x y h

end TextRoutine

/-! ## Pages -/

/-- The box of a placed character. -/
def Placed.box (p : Placed) : Flow.Box :=
  ⟨p.x, p.y, p.glyph.width⟩

/-- The second wrapping rule applies: the function jumps back to {lit}`(0, 0)` before it
draws a character of the given width. -/
def jumpsBack (width x y : Nat) : Bool :=
  (if x + width > 240 then (y + 16) % 65536 else y) + 16 > 240

/-- The wrapping rules by the jump back. -/
theorem wrapCursor_eq (width x y : Nat) :
    wrapCursor width x y = if jumpsBack width x y then (0, 0)
      else if x + width > 240 then (0, (y + 16) % 65536) else (x, y) := by
  simp only [wrapCursor, jumpsBack, decide_eq_true_eq]
  by_cases hline : x + width > 240
  · simp only [if_pos hline]
  · simp only [if_neg hline]

/-- The characters that are drawn between two jumps back.  A function that has drawn
{lit}`p` stands behind it when it comes to the next character. -/
def TextRun.pages (run : TextRun) : List (List Placed) :=
  run.glyphs.splitBy fun p q => !jumpsBack q.glyph.width (p.x + p.glyph.width) p.y

theorem Glyph.width_le (g : Glyph) : g.width ≤ 16 := by
  cases g with
  | en b => exact Nat.le_of_ble_eq_true rfl
  | ch high low => exact le_refl 16

/-- The next character {lit}`q` is placed from behind {lit}`p`, which fits the panel. -/
def Follows (p q : Placed) : Prop :=
  (p.x + p.glyph.width ≤ 240 ∧ p.y + 16 ≤ 240) ∧
    (q.x, q.y) = wrapCursor q.glyph.width (p.x + p.glyph.width) p.y

/-- Without a jump back the next character is behind the last one in reading order. -/
theorem Follows.precedes {p q : Placed} (h : Follows p q)
    (hjump : jumpsBack q.glyph.width (p.x + p.glyph.width) p.y = false) :
    p.box.Precedes 16 q.box := by
  rcases h with ⟨⟨hx, hy⟩, hnext⟩
  rw [wrapCursor_eq, if_neg (by rw [hjump]; decide)] at hnext
  by_cases hline : p.x + p.glyph.width + q.glyph.width > 240
  · rw [if_pos hline] at hnext
    injection hnext with hqx hqy
    exact .inl (show p.y + 16 ≤ q.y by omega)
  · rw [if_neg hline] at hnext
    injection hnext with hqx hqy
    exact .inr ⟨hqy.symm, hqx.ge⟩

/-- Where the first character of a layout stands. -/
theorem head_layout {x y : Nat} {gs : List Glyph} {p : Placed}
    (hp : p ∈ (layout x y gs).glyphs.head?) : (p.x, p.y) = wrapCursor p.glyph.width x y := by
  cases gs with
  | nil => simp [layout] at hp
  | cons g gs =>
      have heq : (⟨_, _, g⟩ : Placed) = p := Option.some.inj hp
      rw [← heq]

/-- In a layout each character follows the one before. -/
theorem isChain_layout (x y : Nat) (gs : List Glyph) :
    (layout x y gs).glyphs.IsChain Follows := by
  induction gs generalizing x y with
  | nil => exact .nil
  | cons g gs ih =>
      refine List.isChain_cons.mpr ⟨?_, ih _ _⟩
      intro q hq
      exact ⟨wrapCursor_fits g.width_le x y, head_layout hq⟩

/-- Every character of a layout fits the panel. -/
theorem layout_fits {x y : Nat} {gs : List Glyph} {p : Placed}
    (hp : p ∈ (layout x y gs).glyphs) : p.x + p.glyph.width ≤ 240 ∧ p.y + 16 ≤ 240 := by
  induction gs generalizing x y with
  | nil => simp [layout] at hp
  | cons g gs ih =>
      rcases List.mem_cons.mp hp with rfl | hp
      · exact wrapCursor_fits g.width_le x y
      · exact ih hp

/-- The characters of a page stand in reading order. -/
theorem pairwise_pages_layout (x y : Nat) (gs : List Glyph) :
    ∀ page ∈ (layout x y gs).pages,
      page.Pairwise fun p q => p.box.Precedes 16 q.box := by
  intro page hpage
  have : IsTrans Placed fun p q => p.box.Precedes 16 q.box :=
    ⟨fun _ _ _ => Flow.Box.Precedes.trans⟩
  refine Flow.pairwise_of_mem_splitBy (isChain_layout x y gs) ?_ hpage
  intro p q hfollows hjump
  exact hfollows.precedes (by simpa using hjump)

/-- From any position of sixteen bits and for every text with complete pairs, a text
function stops at the terminator, {lit}`lcd_open_window` accepts each of its windows,
and the characters between two jumps back to the top do not overlap. -/
theorem text_on_panel (routine : TextRoutine) (usX usY : UInt16) (pStr : CStr)
    (hpairs : routine.Complete pStr.bytes) :
    (routine.run usX.toNat usY.toNat pStr.bytes).overrun = false ∧
      (∀ p ∈ (routine.run usX.toNat usY.toNat pStr.bytes).glyphs,
        p.x + p.glyph.width ≤ 240 ∧ p.y + 16 ≤ 240 ∧
          (lcdOpenWindow p.x p.y p.glyph.width 16).isSome) ∧
      ∀ page ∈ (routine.run usX.toNat usY.toNat pStr.bytes).pages,
        page.Pairwise fun p q => Disjoint (p.box.area 16) (q.box.area 16) := by
  rw [routine.run_eq_layout _ _ hpairs]
  refine ⟨overrun_layout _ _ _, ?_, ?_⟩
  · intro p hp
    rcases layout_fits hp with ⟨hx, hy⟩
    refine ⟨hx, hy, ?_⟩
    rw [lcdOpenWindow, if_neg (by simp only [LCD_W, LCD_H]; omega)]
    rfl
  · intro page hpage
    exact (pairwise_pages_layout _ _ _ page hpage).imp Flow.Box.disjoint_area_of_precedes

/-- A mixed text that starts outside the panel. -/
theorem text_on_panel_off_screen :
    (TextRoutine.lcd_disp_str_en_ch.run 300 65530 [0x41, 0xB0, 0xA1]).overrun = false ∧
      ∀ p ∈ (TextRoutine.lcd_disp_str_en_ch.run 300 65530 [0x41, 0xB0, 0xA1]).glyphs,
        p.x + p.glyph.width ≤ 240 ∧ p.y + 16 ≤ 240 ∧
          (lcdOpenWindow p.x p.y p.glyph.width 16).isSome := by
  have h := text_on_panel .lcd_disp_str_en_ch 300 65530 ⟨[0x41, 0xB0, 0xA1], by decide⟩ rfl
  exact ⟨h.1, h.2.1⟩

/-! ## The mixed function and the pure ones -/

/-- A byte that the mixed function takes for a character of eight columns. -/
abbrev AsciiByte := {b : UInt8 // 1 ≤ b ∧ b ≤ 126}

/-- Two bytes that it takes for a character of sixteen columns. -/
structure WidePair where
  first : UInt8
  second : UInt8
  first_gt : 126 < first
  second_ne_zero : second ≠ 0

/-- A part of a mixed text that one of the pure functions can draw. -/
inductive TextSegment where
  | en (chars : List AsciiByte)
  | ch (chars : List WidePair)

namespace TextSegment

/-- The bytes of a part. -/
def bytes : TextSegment → List UInt8
  | en chars => chars.map Subtype.val
  | ch chars => chars.flatMap fun c => [c.first, c.second]

/-- The pure function for a part. -/
def routine : TextSegment → TextRoutine
  | en _ => .lcd_disp_str_en
  | ch _ => .lcd_disp_str_ch

/-- The pure function draws a part from a position on. -/
def run (s : TextSegment) (x y : Nat) : TextRun :=
  s.routine.run x y s.bytes

/-- The characters of a part. -/
def glyphs : TextSegment → List Glyph
  | en chars => chars.map fun c => .en c.val
  | ch chars => chars.map fun c => .ch c.first c.second

/-- The mixed function sees the characters of a part before the rest of its text. -/
theorem glyphsOf_bytes_append (s : TextSegment) (bs : List UInt8) :
    glyphsOf (s.bytes ++ bs) = s.glyphs ++ glyphsOf bs := by
  cases s with
  | en chars =>
      induction chars with
      | nil => rfl
      | cons c chars ih => exact (glyphsOf_en c.property.2 _).trans (congrArg _ ih)
  | ch chars =>
      induction chars with
      | nil => rfl
      | cons c chars ih =>
          have hwide : ¬c.first ≤ 126 := UInt8.not_le.mpr c.first_gt
          exact (glyphsOf_ch hwide c.second _).trans (congrArg _ ih)

/-- A part has complete pairs. -/
theorem mixedComplete_bytes_append (s : TextSegment) (bs : List UInt8) :
    MixedComplete (s.bytes ++ bs) = MixedComplete bs := by
  cases s with
  | en chars =>
      induction chars with
      | nil => rfl
      | cons c chars ih => exact (mixedComplete_en c.property.2 _).trans ih
  | ch chars =>
      induction chars with
      | nil => rfl
      | cons c chars ih =>
          have hwide : ¬c.first ≤ 126 := UInt8.not_le.mpr c.first_gt
          exact (mixedComplete_ch hwide c.second _).trans ih

/-- The pure function for a part sees the same characters. -/
theorem glyphs_routine (s : TextSegment) : s.routine.glyphs s.bytes = s.glyphs := by
  cases s with
  | en chars => simp [routine, TextRoutine.glyphs, bytes, glyphs]
  | ch chars =>
      induction chars with
      | nil => rfl
      | cons c chars ih => exact congrArg (Glyph.ch c.first c.second :: ·) ih

theorem complete_routine (s : TextSegment) : s.routine.Complete s.bytes := by
  cases s with
  | en chars => trivial
  | ch chars =>
      show (chars.flatMap fun c => [c.first, c.second]).length % 2 = 0
      induction chars with
      | nil => rfl
      | cons c chars ih =>
          rw [List.flatMap_cons, List.length_append, List.length_cons, List.length_singleton]
          omega

/-- A pure function lays out the characters of its part. -/
theorem run_eq_layout (s : TextSegment) (x y : Nat) : s.run x y = layout x y s.glyphs := by
  rw [run, TextRoutine.run_eq_layout _ _ _ s.complete_routine, glyphs_routine]

end TextSegment

/-- A call of the function that draws a character. -/
structure GlyphCall where
  x : Nat
  y : Nat
  glyph : Glyph
  back : UInt16
  fore : UInt16
deriving DecidableEq

/-- The calls of a text function, which passes its colours on. -/
def TextRun.calls (back fore : UInt16) (run : TextRun) : List GlyphCall :=
  run.glyphs.map fun p => ⟨p.x, p.y, p.glyph, back, fore⟩

/-- The pure functions one after another, each from where the last one stopped. -/
def segmentCalls (back fore : UInt16) (x y : Nat) : List TextSegment → List GlyphCall
  | [] => []
  | s :: ss =>
      (s.run x y).calls back fore ++ segmentCalls back fore (s.run x y).x (s.run x y).y ss

/-- The mixed function lays out the characters of all parts of its text. -/
theorem lcdDispStrEnCh_segments (x y : Nat) (ss : List TextSegment) :
    lcdDispStrEnCh x y (ss.flatMap TextSegment.bytes) =
      layout x y (ss.flatMap TextSegment.glyphs) := by
  have hglyphs : glyphsOf (ss.flatMap TextSegment.bytes) = ss.flatMap TextSegment.glyphs ∧
      MixedComplete (ss.flatMap TextSegment.bytes) = true := by
    induction ss with
    | nil => exact ⟨rfl, rfl⟩
    | cons s ss ih =>
        rw [List.flatMap_cons, List.flatMap_cons, s.glyphsOf_bytes_append,
          s.mixedComplete_bytes_append, ih.1]
        exact ⟨rfl, ih.2⟩
  rw [lcdDispStrEnCh_eq_layout x y hglyphs.2, hglyphs.1]

/-- The layout of all parts makes the calls of the pure functions. -/
theorem calls_layout_segments (back fore : UInt16) (x y : Nat) (ss : List TextSegment) :
    (layout x y (ss.flatMap TextSegment.glyphs)).calls back fore =
      segmentCalls back fore x y ss := by
  induction ss generalizing x y with
  | nil => rfl
  | cons s ss ih =>
      rw [List.flatMap_cons, layout_append, segmentCalls, s.run_eq_layout, ← ih]
      exact List.map_append

/-- From every position and with all colours the mixed function makes the calls of the
pure functions: on texts of bytes up to 126, on texts of double-byte characters, and on
every sequence of such texts. -/
theorem mixed_text_eq_pure (usX usY usColor_Background usColor_Foreground : UInt16) :
    (∀ chars : List AsciiByte,
      (lcdDispStrEnCh usX.toNat usY.toNat (TextSegment.en chars).bytes).calls
          usColor_Background usColor_Foreground =
        (lcdDispStrEn usX.toNat usY.toNat (TextSegment.en chars).bytes).calls
          usColor_Background usColor_Foreground) ∧
    (∀ chars : List WidePair,
      (lcdDispStrEnCh usX.toNat usY.toNat (TextSegment.ch chars).bytes).calls
          usColor_Background usColor_Foreground =
        (lcdDispStrCh usX.toNat usY.toNat (TextSegment.ch chars).bytes).calls
          usColor_Background usColor_Foreground) ∧
    ∀ segments : List TextSegment,
      (lcdDispStrEnCh usX.toNat usY.toNat (segments.flatMap TextSegment.bytes)).calls
          usColor_Background usColor_Foreground =
        segmentCalls usColor_Background usColor_Foreground usX.toNat usY.toNat segments := by
  have hsegments (ss : List TextSegment) :
      (lcdDispStrEnCh usX.toNat usY.toNat (ss.flatMap TextSegment.bytes)).calls
          usColor_Background usColor_Foreground =
        segmentCalls usColor_Background usColor_Foreground usX.toNat usY.toNat ss := by
    rw [lcdDispStrEnCh_segments, calls_layout_segments]
  -- A text of one kind is a sequence of one part.
  have hsingle (s : TextSegment) :
      (lcdDispStrEnCh usX.toNat usY.toNat s.bytes).calls usColor_Background usColor_Foreground =
        (s.run usX.toNat usY.toNat).calls usColor_Background usColor_Foreground := by
    have h := hsegments [s]
    rwa [List.flatMap_singleton, segmentCalls, segmentCalls, List.append_nil] at h
  exact ⟨fun chars => hsingle (.en chars), fun chars => hsingle (.ch chars), hsegments⟩

end WeatherStation
