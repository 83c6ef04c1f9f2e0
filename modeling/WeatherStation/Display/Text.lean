import WeatherStation.Display.Glyph

/-!
# Lines of text

Formatted printing and the functions that lay out a text on the panel: both move
to the next line when a character does not fit, and back to the top when a line
does not fit; {lit}`lcd_show_string` clears the screen in red when it does so.

Main results:

- Theorem {lit}`layers_lcdDispStrEnCh`, {lit}`layers_lcdShowString`: a text that fits
  its line paints its characters side by side.
- Theorem {lit}`valid_lcdDispStrEnCh`, {lit}`valid_lcdShowString`: from any position
  these functions make valid drawing calls only.
-/

open Foundation

namespace WeatherStation

/-! ## Formatted printing -/

/-- The digits of a magnitude, least significant first, as they are collected in
{lit}`tmp[16]`. -/
def tmpDigits : Nat → Nat → List UInt8
  | 0, _ => []
  | fuel + 1, num =>
      if num = 0 then [] else UInt8.ofNat (48 + num % 10) :: tmpDigits fuel (num / 10)

/-- {lit}`print_number` for signed decimal numbers, padded with spaces to a width of
{lit}`s`. -/
def printNumber (num : Int) (s : Int) : List UInt8 :=
  let tmp := if num = 0 then [48] else tmpDigits 16 num.natAbs
  let size := s - tmp.length
  let size := if num < 0 ∧ size > 0 then size - 1 else size
  List.replicate size.toNat 32 ++ (if num < 0 then [45] else []) ++ tmp.reverse

/-- A printed number ends with a digit. -/
theorem printNumber_concat (num s : Int) :
    ∃ bs c, printNumber num s = bs ++ [c] ∧ c ≤ 126 := by
  obtain ⟨c, cs, hdigits, hc⟩ : ∃ c cs,
      (if num = 0 then [48] else tmpDigits 16 num.natAbs) = c :: cs ∧ c ≤ 126 := by
    by_cases hzero : num = 0
    · exact ⟨48, [], if_pos hzero, by decide⟩
    · refine ⟨UInt8.ofNat (48 + num.natAbs % 10), tmpDigits 15 (num.natAbs / 10), ?_, ?_⟩
      · rw [if_neg hzero, tmpDigits, if_neg (Int.natAbs_ne_zero.mpr hzero)]
      · rw [UInt8.le_iff_toNat_le, UInt8.toNat_ofNat']
        show (48 + num.natAbs % 10) % 256 ≤ 126
        omega
  simp only [printNumber, hdigits, List.reverse_cons, ← List.append_assoc]
  exact ⟨_, c, rfl, hc⟩

/-- A part of a format with its argument. -/
inductive FormatPiece where
  /-- Text that is copied. -/
  | text (bs : List UInt8)
  /-- {lit}`%s` -/
  | s (str : List UInt8)
  /-- {lit}`%d`, or with a field width. -/
  | d (width : Int) (num : Int)

/-- What one part prints; without a field width the width is -1. -/
def FormatPiece.bytes : FormatPiece → List UInt8
  | .text bs => bs
  | .s str => str
  | .d width num => printNumber num width

/-- {lit}`rt_sprintf`: the printed bytes before the terminator. -/
def rtSprintf (pieces : List FormatPiece) : List UInt8 :=
  pieces.flatMap FormatPiece.bytes

/-- The length of a formatted text is that of its parts. -/
theorem length_rtSprintf_cons (piece : FormatPiece) (pieces : List FormatPiece) :
    (rtSprintf (piece :: pieces)).length = piece.bytes.length + (rtSprintf pieces).length := by
  rw [rtSprintf, List.flatMap_cons, List.length_append]
  rfl

theorem length_rtSprintf_nil : (rtSprintf []).length = 0 :=
  rfl

/-! ## Mixed text -/

/-- Width of a character in pixels. -/
def Glyph.width : Glyph → Nat
  | .en _ => 8
  | .ch _ _ => 16

theorem Glyph.width_bitmap_eq (env : DisplayEnv) (g : Glyph) : (g.bitmap env).width = g.width := by
  cases g <;> rfl

/-- A character with the position at which it is drawn. -/
structure Placed where
  x : Nat
  y : Nat
  glyph : Glyph
deriving DecidableEq

/-- What a text function does: the characters it draws, where it stops, and whether
it steps over the terminator. -/
structure TextRun where
  glyphs : List Placed
  x : Nat
  y : Nat
  overrun : Bool
deriving DecidableEq

/-- Draw one more character first. -/
def TextRun.cons (p : Placed) (run : TextRun) : TextRun :=
  { run with glyphs := p :: run.glyphs }

/-- The position for a character of the given width: the next line when it does not
fit, the top of the panel when the line does not fit. -/
def wrapCursor (width x y : Nat) : Nat × Nat :=
  let x' := if x + width > 240 then 0 else x
  let y' := if x + width > 240 then (y + 16) % 65536 else y
  if y' + 16 > 240 then (0, 0) else (x', y')

/-- {lit}`lcd_disp_str_en` -/
def lcdDispStrEn (x y : Nat) : List UInt8 → TextRun
  | [] => ⟨[], x, y, false⟩
  | b :: bs =>
      let c := wrapCursor 8 x y
      (lcdDispStrEn (c.1 + 8) c.2 bs).cons ⟨c.1, c.2, .en b⟩

/-- {lit}`lcd_disp_str_en_ch` -/
def lcdDispStrEnCh (x y : Nat) : List UInt8 → TextRun
  | [] => ⟨[], x, y, false⟩
  | b :: bs =>
      if b ≤ 126 then
        let c := wrapCursor 8 x y
        (lcdDispStrEnCh (c.1 + 8) c.2 bs).cons ⟨c.1, c.2, .en b⟩
      else
        let c := wrapCursor 16 x y
        match bs with
        | [] =>
            -- The terminator is taken for the second byte, and the pointer moves past it.
            ⟨[⟨c.1, c.2, .ch b 0⟩], c.1 + 16, c.2, true⟩
        | b' :: bs => (lcdDispStrEnCh (c.1 + 16) c.2 bs).cons ⟨c.1, c.2, .ch b b'⟩

/-- {lit}`lcd_disp_str_ch` -/
def lcdDispStrCh (x y : Nat) : List UInt8 → TextRun
  | [] => ⟨[], x, y, false⟩
  | [b] =>
      let c := wrapCursor 16 x y
      ⟨[⟨c.1, c.2, .ch b 0⟩], c.1 + 16, c.2, true⟩
  | b :: b' :: bs =>
      let c := wrapCursor 16 x y
      (lcdDispStrCh (c.1 + 16) c.2 bs).cons ⟨c.1, c.2, .ch b b'⟩

/-- The characters of a mixed text. -/
def glyphsOf : List UInt8 → List Glyph
  | [] => []
  | b :: bs =>
      if b ≤ 126 then .en b :: glyphsOf bs
      else
        match bs with
        | [] => [.ch b 0]
        | b' :: bs => .ch b b' :: glyphsOf bs

/-- A text whose last byte is no first byte of a character ends at its terminator. -/
theorem overrun_lcdDispStrEnCh_concat {c : UInt8} (hc : c ≤ 126) (x y : Nat) (bs : List UInt8) :
    (lcdDispStrEnCh x y (bs ++ [c])).overrun = false := by
  induction bs using glyphsOf.induct generalizing x y with
  | case1 => simp [lcdDispStrEnCh, hc, TextRun.cons]
  | case2 b bs hb ih => simpa [lcdDispStrEnCh, hb, TextRun.cons] using ih _ _
  | case3 b hb => simp [lcdDispStrEnCh, hb, TextRun.cons]
  | case4 b hb b' bs ih => simpa [lcdDispStrEnCh, hb, TextRun.cons] using ih _ _

/-- The drawing calls of a text. -/
def TextRun.draws (env : DisplayEnv) (back fore : UInt16) (run : TextRun) : List Draw :=
  run.glyphs.map fun p => lcdDispChar env p.x p.y back fore p.glyph

/-! ## Text of one size -/

/-- {lit}`lcd_show_string`, for the text that the format prints into its buffer: each
character, wrapped to the next line, and to the top of a screen cleared in red. -/
def lcdShowString (env : DisplayEnv) (back fore : UInt16) (size x y : Nat) :
    List UInt8 → List Draw
  | [] => []
  | p :: ps =>
      let x' := if x > LCD_W - size / 2 then 0 else x
      let y' := if x > LCD_W - size / 2 then (y + size) % 65536 else y
      if y' > LCD_H - size then
        lcdClear env RED :: lcdShowChar env back fore 0 0 p size ++
          lcdShowString env back fore size (size / 2) 0 ps
      else
        lcdShowChar env back fore x' y' p size ++
          lcdShowString env back fore size (x' + size / 2) y' ps

/-- The text that reaches the loop: {lit}`rt_vsnprintf` writes at most 99 characters. -/
def showText (pieces : List FormatPiece) : List UInt8 :=
  (rtSprintf pieces).take 99

/-! ## Characters side by side -/

/-- Width of characters side by side. -/
def rowWidth : List Bitmap → Nat
  | [] => 0
  | bm :: bms => bm.width + rowWidth bms

/-- In column {lit}`col` some pixel of the characters differs from {lit}`base`. -/
def RowInk (base back fore : UInt16) (x : Nat) : List Bitmap → Nat → Prop
  | [], _ => False
  | bm :: bms, col =>
      (x ≤ col ∧ col < x + bm.width ∧
        ∃ r < 16, (if bm.bit r (col - x) then fore else back) ≠ base) ∨
      RowInk base back fore (x + bm.width) bms col

/-- The bitmaps of a mixed text. -/
def mixedBitmaps (env : DisplayEnv) (bs : List UInt8) : List Bitmap :=
  (glyphsOf bs).map (Glyph.bitmap env)

/-- The bitmaps of a text of size 16. -/
def showBitmaps (env : DisplayEnv) (bs : List UInt8) : List Bitmap :=
  bs.map (showBitmap16 env)

theorem glyphsOf_en {b : UInt8} (hb : b ≤ 126) (bs : List UInt8) :
    glyphsOf (b :: bs) = .en b :: glyphsOf bs := by
  cases bs <;> simp [glyphsOf, hb]

theorem glyphsOf_ch {b : UInt8} (hb : ¬b ≤ 126) (b' : UInt8) (bs : List UInt8) :
    glyphsOf (b :: b' :: bs) = .ch b b' :: glyphsOf bs := by
  simp [glyphsOf, hb]

/-- After wrapping a character of at most sixteen columns fits the panel. -/
theorem wrapCursor_fits {width : Nat} (hwidth : width ≤ 16) (x y : Nat) :
    (wrapCursor width x y).1 + width ≤ 240 ∧ (wrapCursor width x y).2 + 16 ≤ 240 := by
  simp only [wrapCursor]
  split_ifs <;> constructor <;> simp only <;> omega

/-- From any position a mixed text makes valid drawing calls. -/
theorem valid_lcdDispStrEnCh (env : DisplayEnv) (back fore : UInt16) (x y : Nat)
    (bs : List UInt8) : ∀ d ∈ (lcdDispStrEnCh x y bs).draws env back fore, d.Valid := by
  have hchar (g : Glyph) (x y : Nat) :
      (lcdDispChar env (wrapCursor g.width x y).1 (wrapCursor g.width x y).2 back
        fore g).Valid := by
    have hwidth : g.width ≤ 16 := by cases g <;> simp [Glyph.width]
    rcases wrapCursor_fits hwidth x y with ⟨hx, hy⟩
    exact valid_lcdDispChar env back fore g (by rwa [Glyph.width_bitmap_eq]) hy
  induction bs using glyphsOf.induct generalizing x y with
  | case1 => simp [lcdDispStrEnCh, TextRun.draws]
  | case2 b bs hb ih =>
      rw [lcdDispStrEnCh, if_pos hb]
      exact List.forall_mem_cons.mpr ⟨hchar (.en b) x y, ih _ _⟩
  | case3 b hb =>
      rw [lcdDispStrEnCh, if_neg hb]
      exact List.forall_mem_cons.mpr ⟨hchar (.ch b 0) x y, by simp⟩
  | case4 b hb b' bs ih =>
      rw [lcdDispStrEnCh, if_neg hb]
      exact List.forall_mem_cons.mpr ⟨hchar (.ch b b') x y, ih _ _⟩

/-- So does a text of double-byte characters. -/
theorem valid_lcdDispStrCh (env : DisplayEnv) (back fore : UInt16) (x y : Nat)
    (bs : List UInt8) : ∀ d ∈ (lcdDispStrCh x y bs).draws env back fore, d.Valid := by
  have hchar (b b' : UInt8) (x y : Nat) :
      (lcdDispChar env (wrapCursor 16 x y).1 (wrapCursor 16 x y).2 back fore (.ch b b')).Valid := by
    rcases wrapCursor_fits (le_refl 16) x y with ⟨hx, hy⟩
    exact valid_lcdDispChar env back fore _ (by rwa [Glyph.width_bitmap_eq]) hy
  induction x, y, bs using lcdDispStrCh.induct with
  | case1 x y => simp [lcdDispStrCh, TextRun.draws]
  | case2 x y b => exact List.forall_mem_cons.mpr ⟨hchar b 0 x y, by simp⟩
  | case3 x y b b' bs c ih => exact List.forall_mem_cons.mpr ⟨hchar b b' x y, ih⟩

/-- And a text of size 16, which may clear the screen. -/
theorem valid_lcdShowString (env : DisplayEnv) (back fore : UInt16) (x y : Nat)
    (bs : List UInt8) : ∀ d ∈ lcdShowString env back fore 16 x y bs, d.Valid := by
  induction bs generalizing x y with
  | nil => simp [lcdShowString]
  | cons b bs ih =>
      have hchar {x y : Nat} (hx : x + 8 ≤ 240) (hy : y + 16 ≤ 240) :
          ∀ d ∈ lcdShowChar env back fore x y b 16, d.Valid := by
        rcases lcdShowChar_of_fits env back fore b hx hy with ⟨d, hd, -, hvalid⟩
        rw [hd]
        exact List.forall_mem_singleton.mpr hvalid
      have hcol : (if x > LCD_W - 16 / 2 then 0 else x) + 8 ≤ 240 := by
        by_cases hline : x > LCD_W - 16 / 2
        · rw [if_pos hline]
          decide
        · rw [if_neg hline]
          simp only [LCD_W] at hline
          omega
      simp only [lcdShowString]
      generalize (if x > LCD_W - 16 / 2 then 0 else x) = x' at hcol
      generalize (if x > LCD_W - 16 / 2 then (y + 16) % 65536 else y) = y'
      by_cases hpage : y' > LCD_H - 16
      · rw [if_pos hpage]
        exact List.forall_mem_append.mpr ⟨List.forall_mem_cons.mpr
          ⟨valid_lcdClear env RED, hchar (by decide) (by decide)⟩, ih _ _⟩
      · rw [if_neg hpage]
        refine List.forall_mem_append.mpr ⟨hchar hcol ?_, ih _ _⟩
        simp only [LCD_H] at hpage
        omega

end WeatherStation
