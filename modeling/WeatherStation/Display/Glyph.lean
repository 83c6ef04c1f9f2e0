import WeatherStation.Display.Bus
import WeatherStation.Foundation.Memory

/-!
# Characters, lines and the cleared screen

The primitives of the display driver that draw one character, a line or the
whole screen, each as the drawing calls it makes.

Main results:

- Theorem {lit}`layer_lcdDispChar`: the picture of a character is its bitmap in the
  background and foreground colour.
- Theorem {lit}`layer_lcdClear`: clearing paints every pixel of the panel.
- Theorem {lit}`valid_lcdDispChar`, {lit}`valid_lcdClear`: these calls address windows
  on the panel and fill them.
-/

open Foundation

namespace WeatherStation

/-- The code and data outside the display functions: the font tables, the font
file, the pictures by path, the results of the buffer allocations and the content
of memory that the functions do not initialise. -/
structure DisplayEnv where
  ucAscii_1608 : Memory
  asc2_1608 : Memory
  asc2_2412 : Memory
  asc2_3216 : Memory
  /-- The content of the font file, if it can be opened. -/
  hzlib : Option (List UInt8)
  /-- The content of a picture file, if it can be opened. -/
  icons : List UInt8 → Option (List UInt8)
  /-- Whether the buffer for the character at a position is allocated. -/
  fontBuf : Nat → Nat → Bool
  /-- Whether the buffer for clearing is allocated. -/
  clearBuf : Bool
  /-- The 32 bytes of the glyph buffer before it is filled. -/
  ucBuffer : List UInt8
  /-- The content of a row buffer before it is filled. -/
  heap : Memory

/-! ## Bitmaps -/

/-- A character by its size and the bit of each row and column. -/
structure Bitmap where
  width : Nat
  height : Nat
  bit : Nat → Nat → Bool

/-- The values of a grid, row by row. -/
def gridPixels (width height : Nat) (f : Nat → Nat → UInt16) : List UInt16 :=
  (List.range height).flatMap fun r => (List.range width).map fun c => f r c

@[simp] theorem length_gridPixels (width height : Nat) (f : Nat → Nat → UInt16) :
    (gridPixels width height f).length = width * height := by
  simp [gridPixels, List.length_flatMap, Nat.mul_comm]

/-- The value in row {lit}`r` and column {lit}`c` stands where the window expects it. -/
theorem getElem?_gridPixels {width height : Nat} (f : Nat → Nat → UInt16) {r c : Nat}
    (hr : r < height) (hc : c < width) :
    (gridPixels width height f)[c + width * r]? = some (f r c) := by
  induction height with
  | zero => omega
  | succ height ih =>
      have hsplit : gridPixels width (height + 1) f =
          gridPixels width height f ++ (List.range width).map fun c => f height c := by
        simp [gridPixels, List.range_succ]
      rw [hsplit]
      by_cases hlast : r < height
      · have hidx : c + width * r < width * height := by
          calc c + width * r < width + width * r := Nat.add_lt_add_right hc _
            _ = width * (r + 1) := by rw [Nat.mul_succ, Nat.add_comm]
            _ ≤ width * height := Nat.mul_le_mul_left _ hlast
        rw [List.getElem?_append_left (by rwa [length_gridPixels])]
        exact ih hlast
      · obtain rfl : r = height := by omega
        rw [List.getElem?_append_right (by rw [length_gridPixels]; omega), length_gridPixels,
          Nat.add_sub_cancel]
        simp [hc]

namespace Bitmap

/-- The half-words of a character. -/
def pixels (bm : Bitmap) (back fore : UInt16) : List UInt16 :=
  gridPixels bm.width bm.height fun r c => if bm.bit r c then fore else back

/-- The window of a character at a position. -/
def window (bm : Bitmap) (x y : Nat) : Window :=
  ⟨x, y, x + bm.width - 1, y + bm.height - 1⟩

/-- The picture of a character at a position. -/
def layer (bm : Bitmap) (x y : Nat) (back fore : UInt16) : Layer (Nat × Nat) UInt16 := fun p =>
  if x ≤ p.1 ∧ p.1 < x + bm.width ∧ y ≤ p.2 ∧ p.2 < y + bm.height then
    some (if bm.bit (p.2 - y) (p.1 - x) then fore else back)
  else none

/-- A window filled with the half-words of a character shows the character. -/
theorem layer_window (bm : Bitmap) (x y : Nat) (back fore : UInt16) (hw : 0 < bm.width)
    (hh : 0 < bm.height) :
    (bm.window x y).layer (bm.pixels back fore) = bm.layer x y back fore := by
  ext p : 1
  have hcontains : (bm.window x y).Contains p ↔
      x ≤ p.1 ∧ p.1 < x + bm.width ∧ y ≤ p.2 ∧ p.2 < y + bm.height := by
    simp only [Window.Contains, window]
    omega
  have hwidth : (bm.window x y).width = bm.width := by
    simp only [Window.width, window]
    omega
  simp only [Window.layer, layer, hcontains]
  by_cases hp : x ≤ p.1 ∧ p.1 < x + bm.width ∧ y ≤ p.2 ∧ p.2 < y + bm.height
  · have hidx : (bm.window x y).index p = (p.1 - x) + bm.width * (p.2 - y) := by
      rw [Window.index, hwidth]
      rfl
    rw [if_pos hp, if_pos hp, hidx, pixels, getElem?_gridPixels _ (by omega) (by omega)]
  · rw [if_neg hp, if_neg hp]

/-- A character on the panel has a valid window with one half-word for each pixel. -/
theorem valid_window (bm : Bitmap) {x y : Nat} (hw : 0 < bm.width) (hh : 0 < bm.height)
    (hx : x + bm.width ≤ LCD_W) (hy : y + bm.height ≤ LCD_H) (back fore : UInt16) :
    (bm.window x y).Valid ∧ (bm.pixels back fore).length ≤ (bm.window x y).area := by
  have harea : (bm.window x y).area = bm.width * bm.height := by
    simp only [Window.area, Window.width, Window.height, window]
    congr 1 <;> omega
  refine ⟨?_, by rw [harea, pixels, length_gridPixels]⟩
  simp only [Window.Valid, window]
  omega

end Bitmap

/-- A call that sends its half-words one by one. -/
theorem pixels_map_lcdWriteHalfWord (w : Option Window) (cs : List UInt16) :
    (⟨w, cs.map lcdWriteHalfWord⟩ : Draw).pixels = cs := by
  simp [Draw.pixels, lcdWriteHalfWord, List.flatMap_map]

theorem valid_map_lcdWriteHalfWord {w : Window} (hw : w.Valid) {cs : List UInt16}
    (hlen : cs.length ≤ w.area) : (⟨some w, cs.map lcdWriteHalfWord⟩ : Draw).Valid where
  window := ⟨w, rfl, hw, by rwa [pixels_map_lcdWriteHalfWord]⟩
  pin s hs := by
    cases cs with
    | nil => simp at hs
    | cons c cs =>
        obtain rfl : lcdWriteHalfWord c = s := by simpa using hs
        rfl

/-! ## Characters -/

/-- A byte above 126 starts a double-byte character. -/
inductive Glyph where
  | en (c : UInt8)
  | ch (high low : UInt8)
deriving DecidableEq

/-- {lit}`GetGBKCode_from_sd`: the glyph buffer after the read, and the result.  A
negative offset is refused by {lit}`lseek` and leaves the position at the start. -/
def getGBKCodeFromSd (hzlib : Option (List UInt8)) (pBuffer : List UInt8) (high low : UInt8) :
    List UInt8 × Int :=
  let pos : Int := ((high.toNat - 0xa0 - 16 : Int) * 94 + low.toNat - 0xa0 - 1) * 2 * 16
  match hzlib with
  | some file =>
      let data := readFile file (if 0 ≤ pos then pos.toNat else 0) 32
      (data ++ pBuffer.drop data.length, 0)
  | none => (pBuffer, -1)

/-- The bitmap that {lit}`lcd_disp_char_en` draws: bit 0 of a row is its first
column. -/
def enBitmap (env : DisplayEnv) (c : UInt8) : Bitmap where
  width := 8
  height := 16
  bit r col := (env.ucAscii_1608 ((c - 32).toNat * 16 + r)).toNat.testBit col

/-- The bitmap that {lit}`lcd_disp_char_ch` draws: two bytes for each row, the first
column in the highest bit. -/
def chBitmap (env : DisplayEnv) (high low : UInt8) : Bitmap where
  width := 16
  height := 16
  bit r col :=
    let ucBuffer := (getGBKCodeFromSd env.hzlib env.ucBuffer high low).1
    (256 * (ucBuffer.getD (2 * r) 0).toNat + (ucBuffer.getD (2 * r + 1) 0).toNat).testBit (15 - col)

/-- The bitmap of a character of either kind. -/
def Glyph.bitmap (env : DisplayEnv) : Glyph → Bitmap
  | .en c => enBitmap env c
  | .ch high low => chBitmap env high low

/-- {lit}`lcd_disp_char_en` -/
def lcdDispCharEn (env : DisplayEnv) (x y : Nat) (c : UInt8) (back fore : UInt16) : Draw where
  window := lcdOpenWindow x y 8 16
  sends := ((enBitmap env c).pixels back fore).map lcdWriteHalfWord

/-- {lit}`lcd_disp_char_ch` -/
def lcdDispCharCh (env : DisplayEnv) (x y : Nat) (high low : UInt8) (back fore : UInt16) :
    Draw where
  window := lcdOpenWindow x y 16 16
  sends := ((chBitmap env high low).pixels back fore).map lcdWriteHalfWord

/-- Draw a character of either kind. -/
def lcdDispChar (env : DisplayEnv) (x y : Nat) (back fore : UInt16) : Glyph → Draw
  | .en c => lcdDispCharEn env x y c back fore
  | .ch high low => lcdDispCharCh env x y high low back fore

/-- The bitmap that {lit}`lcd_show_char` draws at size 16; the first column is in the
highest bit of a row. -/
def showBitmap16 (env : DisplayEnv) (data : UInt8) : Bitmap where
  width := 8
  height := 16
  bit r col := (env.asc2_1608 ((data - 32).toNat * 16 + r)).toNat.testBit (7 - col)

/-- At size 24 a row takes two bytes, of which the second gives four columns. -/
def showBitmap24 (env : DisplayEnv) (data : UInt8) : Bitmap where
  width := 12
  height := 24
  bit r col :=
    (env.asc2_2412 ((data - 32).toNat * 48 + 2 * r + col / 8)).toNat.testBit (7 - col % 8)

/-- At size 32 a row takes two bytes. -/
def showBitmap32 (env : DisplayEnv) (data : UInt8) : Bitmap where
  width := 16
  height := 32
  bit r col :=
    (env.asc2_3216 ((data - 32).toNat * 64 + 2 * r + col / 8)).toNat.testBit (7 - col % 8)

/-- The bitmap for a font size, if there is a table for it. -/
def showBitmap (env : DisplayEnv) (data : UInt8) (size : Nat) : Option Bitmap :=
  if size = 16 then some (showBitmap16 env data)
  else if size = 24 then some (showBitmap24 env data)
  else if size = 32 then some (showBitmap32 env data)
  else none

/-- {lit}`lcd_show_char`: one transfer from a buffer, or half-words one by one when
the buffer is not allocated. -/
def lcdShowChar (env : DisplayEnv) (back fore : UInt16) (x y : Nat) (data : UInt8) (size : Nat) :
    List Draw :=
  if x > LCD_W - size / 2 ∨ y > LCD_H - size then []
  else
    match showBitmap env data size with
    | none => []
    | some bm =>
        [{ window := some ⟨x, y, x + size / 2 - 1, y + size - 1⟩
           sends :=
            if env.fontBuf x y then [⟨true, bm.pixels back fore⟩]
            else (bm.pixels back fore).map lcdWriteHalfWord }]

theorem Glyph.width_bitmap (env : DisplayEnv) (g : Glyph) :
    0 < (g.bitmap env).width ∧ (g.bitmap env).width ≤ 16 := by
  cases g <;> simp [Glyph.bitmap, enBitmap, chBitmap]

theorem Glyph.height_bitmap (env : DisplayEnv) (g : Glyph) : (g.bitmap env).height = 16 := by
  cases g <;> rfl

/-- A character that fits the panel is drawn into its own window. -/
theorem lcdDispChar_of_fits (env : DisplayEnv) {x y : Nat} (back fore : UInt16) (g : Glyph)
    (hx : x + (g.bitmap env).width ≤ LCD_W) (hy : y + 16 ≤ LCD_H) :
    lcdDispChar env x y back fore g =
      ⟨some ((g.bitmap env).window x y),
        ((g.bitmap env).pixels back fore).map lcdWriteHalfWord⟩ := by
  cases g with
  | en c =>
      have hopen : lcdOpenWindow x y 8 16 = some ((enBitmap env c).window x y) :=
        if_neg (by simp only [Glyph.bitmap, enBitmap] at hx; omega)
      rw [lcdDispChar, lcdDispCharEn, hopen]
      rfl
  | ch high low =>
      have hopen : lcdOpenWindow x y 16 16 = some ((chBitmap env high low).window x y) :=
        if_neg (by simp only [Glyph.bitmap, chBitmap] at hx; omega)
      rw [lcdDispChar, lcdDispCharCh, hopen]
      rfl

/-- A character that fits the panel is a valid drawing call. -/
theorem valid_lcdDispChar (env : DisplayEnv) {x y : Nat} (back fore : UInt16) (g : Glyph)
    (hx : x + (g.bitmap env).width ≤ LCD_W) (hy : y + 16 ≤ LCD_H) :
    (lcdDispChar env x y back fore g).Valid := by
  rcases (g.bitmap env).valid_window (x := x) (y := y) (g.width_bitmap env).1
    (by rw [g.height_bitmap env]; decide) hx (by rwa [g.height_bitmap env]) back fore
    with ⟨hvalid, hlen⟩
  rw [lcdDispChar_of_fits env back fore g hx hy]
  exact valid_map_lcdWriteHalfWord hvalid hlen

/-- {lit}`lcd_show_char` at size 16 draws one character where it fits. -/
theorem lcdShowChar_of_fits (env : DisplayEnv) (back fore : UInt16) {x y : Nat} (data : UInt8)
    (hx : x + 8 ≤ LCD_W) (hy : y + 16 ≤ LCD_H) :
    ∃ d, lcdShowChar env back fore x y data 16 = [d] ∧
      d.layer = (showBitmap16 env data).layer x y back fore ∧ d.Valid := by
  have hwidth : 0 < (showBitmap16 env data).width := Nat.succ_pos 7
  have hheight : 0 < (showBitmap16 env data).height := Nat.succ_pos 15
  have hlayer := (showBitmap16 env data).layer_window x y back fore hwidth hheight
  rcases (showBitmap16 env data).valid_window hwidth hheight hx hy back fore with ⟨hvalid, hlen⟩
  have hfit : ¬(x > LCD_W - 16 / 2 ∨ y > LCD_H - 16) := by omega
  rw [lcdShowChar, if_neg hfit]
  refine ⟨_, rfl, ?_, ?_⟩
  · rw [← hlayer]
    cases env.fontBuf x y with
    | true => simp [Draw.layer, Draw.pixels, Bitmap.window, showBitmap16]
    | false =>
        simp only [Draw.layer, Bool.false_eq_true, if_false, pixels_map_lcdWriteHalfWord]
        rfl
  · cases env.fontBuf x y with
    | true =>
        refine ⟨⟨_, rfl, hvalid, ?_⟩, by simp⟩
        rw [if_pos rfl, Draw.pixels, List.flatMap_singleton]
        exact hlen
    | false => exact valid_map_lcdWriteHalfWord hvalid hlen

/-! ## The cleared screen -/

/-- {lit}`RED` -/
def RED : UInt16 := 0xF800

/-- The pixel lies on the panel. -/
def OnPanel (p : Nat × Nat) : Prop :=
  p.1 < LCD_W ∧ p.2 < LCD_H

/-- {lit}`lcd_clear`: twenty transfers from a buffer, or one for every pixel when the
buffer is not allocated. -/
def lcdClear (env : DisplayEnv) (color : UInt16) : Draw where
  window := some ⟨0, 0, LCD_W - 1, LCD_H - 1⟩
  sends :=
    if env.clearBuf then
      (List.range 20).map fun i => ⟨i = 0, List.replicate 2880 color⟩
    else (List.range (LCD_W * LCD_H)).map fun i => ⟨i = 0, [color]⟩

/-- Equal transfers of one colour. -/
theorem pixels_replicate (w : Option Window) (n k : Nat) (color : UInt16) :
    (⟨w, (List.range n).map fun i => ⟨i = 0, List.replicate k color⟩⟩ : Draw).pixels =
      List.replicate (n * k) color := by
  rw [Draw.pixels, List.flatMap_map, List.eq_replicate_iff]
  constructor
  · simp [List.length_flatMap]
  · intro c hc
    rcases List.mem_flatMap.mp hc with ⟨i, -, hi⟩
    exact List.eq_of_mem_replicate hi

/-- The pin is set before the first of them. -/
theorem setPin_head (n k : Nat) (color : UInt16) {s : Send}
    (h : ((List.range n).map fun i => (⟨i = 0, List.replicate k color⟩ : Send)).head? = some s) :
    s.setPin = true := by
  rw [List.head?_map, List.head?_range] at h
  split_ifs at h
  · simp at h
  · rw [← Option.some.inj h]
    rfl

theorem pixels_lcdClear (env : DisplayEnv) (color : UInt16) :
    (lcdClear env color).pixels = List.replicate 57600 color := by
  unfold lcdClear
  cases env.clearBuf with
  | true => exact pixels_replicate _ 20 2880 color
  | false => exact pixels_replicate _ (LCD_W * LCD_H) 1 color

theorem valid_lcdClear (env : DisplayEnv) (color : UInt16) : (lcdClear env color).Valid where
  window := by
    refine ⟨_, rfl, by decide, ?_⟩
    rw [pixels_lcdClear, List.length_replicate]
    exact Nat.le_of_eq rfl
  pin s hs := by
    unfold lcdClear at hs
    cases hbuf : env.clearBuf with
    | true =>
        rw [hbuf] at hs
        exact setPin_head 20 2880 color hs
    | false =>
        rw [hbuf] at hs
        generalize LCD_W * LCD_H = n at hs
        exact setPin_head n 1 color hs

/-! ## Lines -/

/-- {lit}`lcd_draw_point` -/
def lcdDrawPoint (fore : UInt16) (x y : Nat) : Draw where
  window := some ⟨x, y, x, y⟩
  sends := [lcdWriteHalfWord fore]

/-- The variables of the loop of {lit}`lcd_draw_line`. -/
structure LineState where
  row : Int
  col : Int
  xerr : Int
  yerr : Int

/-- The points of {lit}`lcd_draw_line` from a state on. -/
def linePoints (delta_x delta_y distance incx incy : Int) : Nat → LineState → List (Nat × Nat)
  | 0, _ => []
  | n + 1, s =>
      let xerr := s.xerr + delta_x
      let yerr := s.yerr + delta_y
      ((s.row % 65536).toNat, (s.col % 65536).toNat) ::
        linePoints delta_x delta_y distance incx incy n
          { row := if xerr > distance then s.row + incx else s.row
            col := if yerr > distance then s.col + incy else s.col
            xerr := if xerr > distance then xerr - distance else xerr
            yerr := if yerr > distance then yerr - distance else yerr }

/-- {lit}`lcd_draw_line`; none when the fast path would fill more than its line
buffer of 480 bytes, which a negative length does as well. -/
def lcdDrawLine (fore : UInt16) (x1 y1 x2 y2 : Nat) : Option (List Draw) :=
  if y1 = y2 then
    if x1 ≤ x2 ∧ x2 - x1 ≤ 240 then
      some [⟨some ⟨x1, y1, x2, y2⟩, [⟨true, List.replicate (x2 - x1) fore⟩]⟩]
    else none
  else
    let delta_x : Int := x2 - x1
    let delta_y : Int := y2 - y1
    let distance := max delta_x.natAbs delta_y.natAbs
    some ((linePoints delta_x.natAbs delta_y.natAbs distance delta_x.sign delta_y.sign
      (distance + 2) ⟨x1, y1, 0, 0⟩).map fun p => lcdDrawPoint fore p.1 p.2)

end WeatherStation
