import WeatherStation.Display.TextLayout

/-!
# Text in the fonts of the driver

{lit}`lcd_show_string` moves to the next line, or clears the screen and starts at its top, by
its own rules; {lit}`lcd_show_char` skips a character without a word when its own bounds test
fails.  Both are computed here with the integer widths of the code.

Main results:

- Theorem {lit}`accepted_placeChar`: the position of a character always passes the bounds test.
- Theorem {lit}`shows_string`: from every position the characters that the format buffer holds
  are all drawn on the panel, and none over another one.
- Theorem {lit}`lcdShowString_eq_showChars`: these are the calls that the screen is drawn with.
-/

open Foundation

namespace WeatherStation

/-! ## Characters of the loop -/

/-- One round of the loop: whether it clears the screen, and its call of
{lit}`lcd_show_char`. -/
structure ShownChar where
  cleared : Bool
  x : UInt16
  y : UInt16
  data : UInt8
deriving DecidableEq

/-- {lit}`x` after the test for the end of the line. -/
def wrapX (size : UInt32) (x : UInt16) : UInt16 :=
  if x.toUInt32 > 240 - size / 2 then 0 else x

/-- {lit}`y` after this test. -/
def wrapY (size : UInt32) (x y : UInt16) : UInt16 :=
  if x.toUInt32 > 240 - size / 2 then (y.toUInt32 + size).toUInt16 else y

/-- The rules of the loop for the next character at {lit}`(x, y)`. -/
def placeChar (size : UInt32) (x y : UInt16) (p : UInt8) : ShownChar :=
  if (wrapY size x y).toUInt32 > 240 - size then ⟨true, 0, 0, p⟩
  else ⟨false, wrapX size x, wrapY size x y, p⟩

/-- The loop from a position on. -/
def showChars (size : UInt32) (x y : UInt16) : List UInt8 → List ShownChar
  | [] => []
  | p :: ps =>
      let c := placeChar size x y p
      c :: showChars size (c.x.toUInt32 + size / 2).toUInt16 c.y ps

/-- {lit}`rt_vsnprintf`: what a buffer of the given size holds of a formatted text. -/
def rtVsnprintf (size : Nat) (text : List UInt8) : CStr :=
  .ofBytes (text.take (size - 1))

/-- {lit}`lcd_show_string` with a formatted text; another size of the font is an error. -/
def lcdShowStringChars (size : UInt32) (x y : UInt16) (text : List UInt8) : List ShownChar :=
  if size ≠ 16 ∧ size ≠ 24 ∧ size ≠ 32 then []
  else showChars size x y (rtVsnprintf 100 text).bytes

/-- The bounds test of {lit}`lcd_show_char`, which skips the character. -/
def skipsChar (size : UInt32) (x y : UInt16) : Bool :=
  x.toUInt32 > 240 - size / 2 || y.toUInt32 > 240 - size

/-- The font sizes. -/
def FontSize (size : UInt32) : Prop :=
  size = 16 ∨ size = 24 ∨ size = 32

namespace ShownChar

/-- The character passes the bounds test. -/
def Accepted (size : UInt32) (c : ShownChar) : Prop :=
  skipsChar size c.x c.y = false

/-- Its window lies on the panel. -/
def OnPanel (size : UInt32) (c : ShownChar) : Prop :=
  c.x.toNat + size.toNat / 2 ≤ LCD_W ∧ c.y.toNat + size.toNat ≤ LCD_H

/-- Its box. -/
def box (size : UInt32) (c : ShownChar) : Flow.Box :=
  ⟨c.x.toNat, c.y.toNat, size.toNat / 2⟩

end ShownChar

section FontSize

variable {size : UInt32}

/-- For the font sizes the tests do not depend on the widths of the integers. -/
theorem line_iff (hsize : FontSize size) (x : UInt16) :
    x.toUInt32 > 240 - size / 2 ↔ x.toNat > LCD_W - size.toNat / 2 := by
  rw [GT.gt, UInt32.lt_iff_toNat_lt, UInt16.toNat_toUInt32]
  rcases hsize with rfl | rfl | rfl <;> exact Iff.rfl

theorem page_iff (hsize : FontSize size) (y : UInt16) :
    y.toUInt32 > 240 - size ↔ y.toNat > LCD_H - size.toNat := by
  rw [GT.gt, UInt32.lt_iff_toNat_lt, UInt16.toNat_toUInt32]
  rcases hsize with rfl | rfl | rfl <;> exact Iff.rfl

/-- A font is no larger than the panel. -/
theorem FontSize.le (hsize : FontSize size) :
    size.toNat / 2 ≤ LCD_W ∧ size.toNat ≤ LCD_H ∧ (size / 2).toNat = size.toNat / 2 := by
  rcases hsize with rfl | rfl | rfl <;> decide

/-- The bounds test accepts what fits the panel. -/
theorem accepted_iff (hsize : FontSize size) (c : ShownChar) :
    c.Accepted size ↔ c.OnPanel size := by
  rw [ShownChar.Accepted, skipsChar, Bool.or_eq_false_iff, decide_eq_false_iff_not,
    decide_eq_false_iff_not, line_iff hsize, page_iff hsize, ShownChar.OnPanel]
  have hle := hsize.le
  omega

/-- On the panel sixteen bits are enough for the column behind a character. -/
theorem toNat_nextX (hsize : FontSize size) {x : UInt16} (hx : x.toNat + size.toNat / 2 ≤ LCD_W) :
    (x.toUInt32 + size / 2).toUInt16.toNat = x.toNat + size.toNat / 2 := by
  have hlt : LCD_W < 65536 := by decide
  rw [UInt32.toNat_toUInt16, UInt32.toNat_add, UInt16.toNat_toUInt32, hsize.le.2.2]
  omega

/-- The next line. -/
theorem toNat_nextY (size : UInt32) (y : UInt16) :
    (y.toUInt32 + size).toUInt16.toNat = (y.toNat + size.toNat) % 65536 := by
  rw [UInt32.toNat_toUInt16, UInt32.toNat_add, UInt16.toNat_toUInt32]
  omega

end FontSize

/-- A character is placed at the top of a cleared screen, or by the test for the end of the
line. -/
theorem placeChar_cases (size : UInt32) (x y : UInt16) (p : UInt8) :
    placeChar size x y p = ⟨true, 0, 0, p⟩ ∨
      ¬(wrapY size x y).toUInt32 > 240 - size ∧
        placeChar size x y p = ⟨false, wrapX size x, wrapY size x y, p⟩ := by
  by_cases hpage : (wrapY size x y).toUInt32 > 240 - size
  · exact .inl (if_pos hpage)
  · exact .inr ⟨hpage, if_neg hpage⟩

@[simp] theorem data_placeChar (size : UInt32) (x y : UInt16) (p : UInt8) :
    (placeChar size x y p).data = p := by
  rcases placeChar_cases size x y p with heq | ⟨-, heq⟩ <;> rw [heq]

/-- The position of a character always passes the bounds test. -/
theorem accepted_placeChar (size : UInt32) (x y : UInt16) (p : UInt8) :
    (placeChar size x y p).Accepted size := by
  have hzero (n : UInt32) : ¬(0 : UInt16).toUInt32 > n := UInt32.not_lt.mpr UInt32.zero_le
  rw [ShownChar.Accepted, skipsChar, Bool.or_eq_false_iff, decide_eq_false_iff_not,
    decide_eq_false_iff_not]
  rcases placeChar_cases size x y p with heq | ⟨hpage, heq⟩
  · rw [heq]
    exact ⟨hzero _, hzero _⟩
  · rw [heq]
    refine ⟨?_, hpage⟩
    unfold wrapX
    split_ifs with hline
    · exact hzero _
    · exact hline

/-! ## Pages -/

/-- The next character {lit}`q` is placed from behind {lit}`p`, which is on the panel. -/
def ShownChar.Follows (size : UInt32) (p q : ShownChar) : Prop :=
  p.OnPanel size ∧ q = placeChar size (p.x.toUInt32 + size / 2).toUInt16 p.y q.data

/-- Without clearing the screen the next character is behind the last one in reading order. -/
theorem ShownChar.Follows.precedes {size : UInt32} (hsize : FontSize size) {p q : ShownChar}
    (h : p.Follows size q) (hcleared : q.cleared = false) :
    (p.box size).Precedes size.toNat (q.box size) := by
  rcases h with ⟨⟨hx, hy⟩, hnext⟩
  have hcol := toNat_nextX hsize hx
  have hrow : (p.y.toUInt32 + size).toUInt16.toNat = p.y.toNat + size.toNat := by
    rw [toNat_nextY]
    exact Nat.mod_eq_of_lt (hy.trans_lt (by decide))
  rcases placeChar_cases size (p.x.toUInt32 + size / 2).toUInt16 p.y q.data with heq | ⟨-, heq⟩
  · rw [hnext.trans heq] at hcleared
    cases hcleared
  · rw [hnext.trans heq]
    simp only [Flow.Box.Precedes, ShownChar.box]
    unfold wrapX wrapY
    split_ifs with hline
    · exact .inl hrow.ge
    · exact .inr ⟨rfl, hcol.ge⟩

/-- The characters that are drawn between two clears. -/
def showPages (cs : List ShownChar) : List (List ShownChar) :=
  cs.splitBy fun _ q => !q.cleared

/-- Every character of the loop is placed by its rules. -/
theorem mem_showChars {size : UInt32} {x y : UInt16} {ps : List UInt8} {c : ShownChar}
    (hc : c ∈ showChars size x y ps) : c.Accepted size := by
  induction ps generalizing x y with
  | nil => simp [showChars] at hc
  | cons p ps ih =>
      rcases List.mem_cons.mp hc with rfl | hc
      · exact accepted_placeChar size x y p
      · exact ih hc

/-- In the loop each character follows the one before. -/
theorem isChain_showChars {size : UInt32} (hsize : FontSize size) (x y : UInt16)
    (ps : List UInt8) : (showChars size x y ps).IsChain (ShownChar.Follows size) := by
  induction ps generalizing x y with
  | nil => exact .nil
  | cons p ps ih =>
      refine List.isChain_cons.mpr ⟨fun q hq => ⟨?_, ?_⟩, ih _ _⟩
      · exact (accepted_iff hsize _).mp (accepted_placeChar size x y p)
      · cases ps with
        | nil => simp [showChars] at hq
        | cons p' ps =>
            obtain rfl := Option.some.inj hq
            rw [data_placeChar]

/-- The loop draws the characters of its text, one after another. -/
theorem data_showChars (size : UInt32) (x y : UInt16) (ps : List UInt8) :
    (showChars size x y ps).map ShownChar.data = ps := by
  induction ps generalizing x y with
  | nil => rfl
  | cons p ps ih => rw [showChars, List.map_cons, data_placeChar, ih]

/-! ## Texts -/

/-- A text is shown: each of its characters is drawn, in order, accepted by the bounds test and
on the panel, and none over another one that is still there. -/
structure Shows (size : UInt32) (cs : List ShownChar) (text : List UInt8) : Prop where
  reached : cs.map ShownChar.data = text
  accepted : ∀ c ∈ cs, c.Accepted size
  onPanel : ∀ c ∈ cs, c.OnPanel size
  apart : ∀ page ∈ showPages cs,
    page.Pairwise fun p q => Disjoint ((p.box size).area size.toNat) ((q.box size).area size.toNat)

theorem shows_showChars {size : UInt32} (hsize : FontSize size) (x y : UInt16)
    (ps : List UInt8) : Shows size (showChars size x y ps) ps where
  reached := data_showChars size x y ps
  accepted _ hc := mem_showChars hc
  onPanel _ hc := (accepted_iff hsize _).mp (mem_showChars hc)
  apart page hpage := by
    have : IsTrans ShownChar fun p q => (p.box size).Precedes size.toNat (q.box size) :=
      ⟨fun _ _ _ => Flow.Box.Precedes.trans⟩
    have hordered := Flow.pairwise_of_mem_splitBy (T := fun p q =>
      (p.box size).Precedes size.toNat (q.box size)) (isChain_showChars hsize x y ps)
      (fun p q hfollows hcleared => hfollows.precedes hsize (by simpa using hcleared)) hpage
    exact hordered.imp Flow.Box.disjoint_area_of_precedes

/-- A text of printable characters has no terminator before its end. -/
theorem bytes_rtVsnprintf (size : Nat) {text : List UInt8}
    (hprintable : ∀ p ∈ text, 32 ≤ p ∧ p ≤ 126) :
    (rtVsnprintf size text).bytes = text.take (size - 1) := by
  refine List.takeWhile_eq_self_iff.mpr fun p hp => ?_
  have hne : p ≠ 0 := by
    rintro rfl
    exact absurd (hprintable 0 (List.mem_of_mem_take hp)).1 (by decide)
  simpa using hne

/-- For every font size, from every position and for every formatted text of printable
characters, the characters up to the 99th are shown. -/
theorem shows_string {size : UInt32} (hsize : FontSize size) (x y : UInt16) {text : List UInt8}
    (hprintable : ∀ p ∈ text, 32 ≤ p ∧ p ≤ 126) :
    Shows size (lcdShowStringChars size x y text) (text.take 99) := by
  have hsupported : ¬(size ≠ 16 ∧ size ≠ 24 ∧ size ≠ 32) := by
    rcases hsize with rfl | rfl | rfl <;> decide
  rw [lcdShowStringChars, if_neg hsupported, bytes_rtVsnprintf 100 hprintable]
  exact shows_showChars hsize x y _

/-- A text that starts behind the last line, in the largest font. -/
theorem shows_string_behind_panel :
    Shows 32 (lcdShowStringChars 32 250 65520 [0x41, 0x42]) [0x41, 0x42] := by
  refine shows_string (.inr (.inr rfl)) 250 65520 fun p hp => ?_
  rcases List.mem_pair.mp hp with rfl | rfl <;> decide

/-- The format buffer holds 99 characters of a text of 100. -/
theorem string_loses_character :
    ¬∀ (size : UInt32) (x y : UInt16) (text : List UInt8), FontSize size →
      (∀ p ∈ text, 32 ≤ p ∧ p ≤ 126) → Shows size (lcdShowStringChars size x y text) text := by
  intro h
  have hprintable : ∀ p ∈ List.replicate 100 (0x41 : UInt8), 32 ≤ p ∧ p ≤ 126 := by
    intro p hp
    rw [List.eq_of_mem_replicate hp]
    decide
  have hall := (h 16 0 0 _ (.inl rfl) hprintable).reached
  have hfront := data_showChars 16 0 0 ((List.replicate 100 0x41).take 99)
  rw [lcdShowStringChars, if_neg (by decide), bytes_rtVsnprintf 100 hprintable, hfront] at hall
  exact absurd (congrArg List.length hall) (by decide)

/-! ## The calls on the screen -/

/-- The drawing calls of one round. -/
def ShownChar.draws (env : DisplayEnv) (back fore : UInt16) (size : UInt32) (c : ShownChar) :
    List Draw :=
  (if c.cleared then [lcdClear env RED] else []) ++
    lcdShowChar env back fore c.x.toNat c.y.toNat c.data size.toNat

/-- The rounds of the loop make the calls that the screen is drawn with. -/
theorem lcdShowString_eq_showChars (env : DisplayEnv) (back fore : UInt16) {size : UInt32}
    (hsize : FontSize size) (x y : UInt16) (ps : List UInt8) :
    lcdShowString env back fore size.toNat x.toNat y.toNat ps =
      (showChars size x y ps).flatMap (ShownChar.draws env back fore size) := by
  induction ps generalizing x y with
  | nil => rfl
  | cons p ps ih =>
      have hwrapX : (wrapX size x).toNat =
          if x.toNat > LCD_W - size.toNat / 2 then 0 else x.toNat := by
        rw [wrapX, apply_ite UInt16.toNat]
        simp only [line_iff hsize]
        rfl
      have hwrapY : (wrapY size x y).toNat =
          if x.toNat > LCD_W - size.toNat / 2 then (y.toNat + size.toNat) % 65536 else y.toNat := by
        rw [wrapY, apply_ite UInt16.toNat, toNat_nextY]
        simp only [line_iff hsize]
      -- The next character is placed behind this one, which is on the panel.
      have hnext := toNat_nextX hsize ((accepted_iff hsize _).mp (accepted_placeChar size x y p)).1
      rw [lcdShowString, showChars, List.flatMap_cons, ← ih, hnext]
      simp only [← hwrapX, ← hwrapY, ← page_iff hsize]
      by_cases hpage : (wrapY size x y).toUInt32 > 240 - size
      · have hplace : placeChar size x y p = ⟨true, 0, 0, p⟩ := if_pos hpage
        rw [if_pos hpage, hplace, ShownChar.draws, if_pos rfl]
        simp
      · have hplace : placeChar size x y p = ⟨false, wrapX size x, wrapY size x y, p⟩ :=
          if_neg hpage
        rw [if_neg hpage, hplace, ShownChar.draws, if_neg Bool.false_ne_true, List.nil_append]

end WeatherStation
