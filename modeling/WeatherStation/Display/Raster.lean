import WeatherStation.Foundation.ShiftLoop
import WeatherStation.Display.Glyph

/-!
# The bits of a character

{lit}`lcd_disp_char_en` and {lit}`lcd_disp_char_ch` draw a character row by row, one
half-word for each bit.  They walk through a row in opposite directions: the first one
shifts a byte to the right, the second one puts two bytes together and shifts the word to
the left.  This module runs their loops and compares them with the bitmaps.

Main results:

- Theorems {lit}`lcdDispCharEnRun_eq`, {lit}`lcdDispCharChRun_eq`: the loops draw the bitmap
  of the character.
- Theorem {lit}`rasterises_pixels`: the half-words of a bitmap, row by row, show every one of
  its bits at its own place.
- Theorem {lit}`char_rasterised`: both functions show the bits of their glyph.
-/

open Foundation

namespace WeatherStation

/-! ## The loops -/

/-- {lit}`macWIDTH_EN_CHAR` -/
def macWIDTH_EN_CHAR : Nat := 8

/-- {lit}`macHEIGHT_EN_CHAR` -/
def macHEIGHT_EN_CHAR : Nat := 16

/-- {lit}`macWIDTH_CH_CHAR` -/
def macWIDTH_CH_CHAR : Nat := 16

/-- {lit}`macHEIGHT_CH_CHAR` -/
def macHEIGHT_CH_CHAR : Nat := 16

/-- The inner loop of {lit}`lcd_disp_char_en`, from a value of {lit}`ucTemp` on. -/
def columnsEn (back fore : UInt16) : UInt8 → List Send :=
  shiftLoop
    (fun ucTemp => if ucTemp &&& 0x01 ≠ 0 then lcdWriteHalfWord fore else lcdWriteHalfWord back)
    (fun ucTemp => ucTemp >>> 1) macWIDTH_EN_CHAR

/-- {lit}`lcd_disp_char_en`, run through its loops.  The rows of {lit}`ucAscii_1608` follow
each other in memory. -/
def lcdDispCharEnRun (env : DisplayEnv) (usX usY : Nat) (cChar : UInt8) (back fore : UInt16) :
    Draw where
  window := lcdOpenWindow usX usY macWIDTH_EN_CHAR macHEIGHT_EN_CHAR
  sends :=
    let ucRelativePosition := cChar - 32
    (List.range macHEIGHT_EN_CHAR).flatMap fun ucPage =>
      columnsEn back fore (env.ucAscii_1608 (ucRelativePosition.toNat * 16 + ucPage))

/-- {lit}`us_Temp` at the start of a row: the byte of the left half, moved up, with the byte
of the right half below it. -/
def usTemp (ucBuffer : List UInt8) (ucPage : Nat) : UInt16 :=
  let us_Temp := (ucBuffer.getD (ucPage * 2) 0).toUInt16
  let us_Temp := us_Temp <<< 8
  us_Temp ||| (ucBuffer.getD (ucPage * 2 + 1) 0).toUInt16

/-- The inner loop of {lit}`lcd_disp_char_ch`, from a value of {lit}`us_Temp` on. -/
def columnsCh (back fore : UInt16) : UInt16 → List Send :=
  shiftLoop
    (fun us_Temp : UInt16 =>
      if us_Temp &&& ((0x01 : UInt16) <<< 15) ≠ 0 then lcdWriteHalfWord fore
      else lcdWriteHalfWord back)
    (fun us_Temp => us_Temp <<< 1) macWIDTH_CH_CHAR

/-- {lit}`lcd_disp_char_ch`, run through its loops. -/
def lcdDispCharChRun (env : DisplayEnv) (x y : Nat) (high low : UInt8) (back fore : UInt16) :
    Draw where
  window := lcdOpenWindow x y macWIDTH_CH_CHAR macHEIGHT_CH_CHAR
  sends :=
    let ucBuffer := (getGBKCodeFromSd env.hzlib env.ucBuffer high low).1
    (List.range macHEIGHT_CH_CHAR).flatMap fun ucPage =>
      columnsCh back fore (usTemp ucBuffer ucPage)

/-! ## One row -/

/-- The bit that {lit}`lcd_disp_char_en` tests. -/
theorem and_0x01_ne_zero (ucTemp : UInt8) : ucTemp &&& 0x01 ≠ 0 ↔ ucTemp.toNat.testBit 0 := by
  rw [← UInt8.toNat_inj.ne, UInt8.toNat_and]
  exact and_two_pow_ne_zero ucTemp.toNat 0

/-- The bit that {lit}`lcd_disp_char_ch` tests. -/
theorem and_shiftLeft_15_ne_zero (us_Temp : UInt16) :
    us_Temp &&& ((0x01 : UInt16) <<< 15) ≠ 0 ↔ us_Temp.toNat.testBit 15 := by
  rw [← UInt16.toNat_inj.ne, UInt16.toNat_and]
  exact and_two_pow_ne_zero us_Temp.toNat 15

/-- A row of a byte has its lowest bit on the left. -/
theorem columnsEn_eq (back fore : UInt16) (ucTemp : UInt8) :
    columnsEn back fore ucTemp =
      (List.range 8).map fun c =>
        lcdWriteHalfWord (if ucTemp.toNat.testBit c then fore else back) := by
  refine shiftLoop_of_shiftRight UInt8.toNat
    (fun b => lcdWriteHalfWord (if b then fore else back)) (fun ucTemp => ?_)
    (fun ucTemp => UInt8.toNat_shiftRight ucTemp 1) 8 ucTemp
  simp only [and_0x01_ne_zero, apply_ite lcdWriteHalfWord]

/-- A row of a word has its highest bit on the left. -/
theorem columnsCh_eq (back fore : UInt16) (us_Temp : UInt16) :
    columnsCh back fore us_Temp =
      (List.range 16).map fun c =>
        lcdWriteHalfWord (if us_Temp.toNat.testBit (15 - c) then fore else back) := by
  refine shiftLoop_of_shiftLeft UInt16.toNat
    (fun b => lcdWriteHalfWord (if b then fore else back)) (fun us_Temp => ?_)
    (fun us_Temp => UInt16.toNat_shiftLeft us_Temp 1) le_rfl us_Temp
  simp only [and_shiftLeft_15_ne_zero, apply_ite lcdWriteHalfWord]

/-- The word of a row is the big-endian one. -/
theorem toNat_usTemp (ucBuffer : List UInt8) (ucPage : Nat) :
    (usTemp ucBuffer ucPage).toNat =
      256 * (ucBuffer.getD (2 * ucPage) 0).toNat + (ucBuffer.getD (2 * ucPage + 1) 0).toNat := by
  have hhigh := (ucBuffer.getD (2 * ucPage) 0).toNat_lt
  have hlow := (ucBuffer.getD (2 * ucPage + 1) 0).toNat_lt
  have hshift : ((ucBuffer.getD (2 * ucPage) 0).toUInt16 <<< 8).toNat =
      (ucBuffer.getD (2 * ucPage) 0).toNat <<< 8 := by
    rw [UInt16.toNat_shiftLeft, UInt8.toNat_toUInt16, Nat.shiftLeft_eq, Nat.shiftLeft_eq]
    refine Nat.mod_eq_of_lt ?_
    calc _ < 2 ^ 8 * 2 ^ 8 := Nat.mul_lt_mul_of_pos_right hhigh (Nat.two_pow_pos 8)
      _ = 2 ^ 16 := rfl
  rw [usTemp, Nat.mul_comm ucPage, UInt16.toNat_or, hshift, UInt8.toNat_toUInt16,
    ← Nat.shiftLeft_add_eq_or_of_lt hlow, Nat.shiftLeft_eq, Nat.mul_comm]

/-! ## All rows -/

/-- Rows of half-words that are sent one by one. -/
theorem flatMap_rows (width height : Nat) (f : Nat → Nat → UInt16) :
    ((List.range height).flatMap fun r =>
        (List.range width).map fun c => lcdWriteHalfWord (f r c)) =
      (gridPixels width height f).map lcdWriteHalfWord := by
  rw [gridPixels, List.map_flatMap]
  simp only [List.map_map]
  rfl

/-- The loops of {lit}`lcd_disp_char_en` draw the bitmap of the character. -/
theorem lcdDispCharEnRun_eq (env : DisplayEnv) (usX usY : Nat) (cChar : UInt8)
    (back fore : UInt16) :
    lcdDispCharEnRun env usX usY cChar back fore = lcdDispCharEn env usX usY cChar back fore := by
  refine congrArg (Draw.mk _) ?_
  simp only [columnsEn_eq]
  exact flatMap_rows 8 16 _

/-- The loops of {lit}`lcd_disp_char_ch` draw the bitmap of the character. -/
theorem lcdDispCharChRun_eq (env : DisplayEnv) (x y : Nat) (high low : UInt8)
    (back fore : UInt16) :
    lcdDispCharChRun env x y high low back fore = lcdDispCharCh env x y high low back fore := by
  refine congrArg (Draw.mk _) ?_
  simp only [columnsCh_eq, toNat_usTemp]
  exact flatMap_rows 16 16 _

/-! ## The picture -/

/-- The call shows a bitmap at a position. -/
structure Draw.Rasterises (d : Draw) (bm : Bitmap) (x y : Nat) (back fore : UInt16) : Prop where
  window : d.window = some (bm.window x y)
  count : d.sends.length = bm.width * bm.height
  /-- The transfer of a pixel, in the order in which the window is filled. -/
  sent : ∀ r c, r < bm.height → c < bm.width →
    d.sends[c + bm.width * r]? = some (lcdWriteHalfWord (if bm.bit r c then fore else back))
  /-- The pixel on the panel, whatever state the controller was in. -/
  shown : ∀ (s : Lcd) (r c : Nat), r < bm.height → c < bm.width →
    (s.receiveAll d.events).panel (x + c, y + r) = if bm.bit r c then fore else back
  foreground : back ≠ fore → ∀ (s : Lcd) (r c : Nat), r < bm.height → c < bm.width →
    ((s.receiveAll d.events).panel (x + c, y + r) = fore ↔ bm.bit r c = true)
  /-- The panel around the character is not changed. -/
  kept : ∀ (s : Lcd) (p : Nat × Nat), ¬(bm.window x y).Contains p →
    (s.receiveAll d.events).panel p = s.panel p

/-- A bit chooses between two colours that can be told apart. -/
theorem ite_eq_fore {back fore : UInt16} (hne : back ≠ fore) (b : Bool) :
    (if b then fore else back) = fore ↔ b = true := by
  cases b with
  | true => exact iff_of_true rfl rfl
  | false => exact iff_of_false hne Bool.false_ne_true

/-- The half-words of a bitmap on the panel, sent one by one, show the bitmap. -/
theorem rasterises_pixels (bm : Bitmap) {x y : Nat} (hw : 0 < bm.width) (hh : 0 < bm.height)
    (hx : x + bm.width ≤ LCD_W) (hy : y + bm.height ≤ LCD_H) (back fore : UInt16) :
    Draw.Rasterises ⟨some (bm.window x y), (bm.pixels back fore).map lcdWriteHalfWord⟩ bm x y
      back fore := by
  rcases bm.valid_window hw hh hx hy back fore with ⟨hvalid, hfit⟩
  have hpanel (s : Lcd) :
      (s.receiveAll (Draw.events
          ⟨some (bm.window x y), (bm.pixels back fore).map lcdWriteHalfWord⟩)).panel =
        Canvas.paint s.panel ((bm.window x y).layer (bm.pixels back fore)) := by
    rw [(Lcd.receiveAll_draw s (valid_map_lcdWriteHalfWord hvalid hfit)).2, Draw.layer,
      pixels_map_lcdWriteHalfWord]
  have hshown (s : Lcd) (r c : Nat) (hr : r < bm.height) (hc : c < bm.width) :
      Canvas.paint s.panel ((bm.window x y).layer (bm.pixels back fore)) (x + c, y + r) =
        if bm.bit r c then fore else back := by
    have hin : x ≤ x + c ∧ x + c < x + bm.width ∧ y ≤ y + r ∧ y + r < y + bm.height := by omega
    rw [bm.layer_window x y back fore hw hh, Canvas.paint, Bitmap.layer, if_pos hin,
      Nat.add_sub_cancel_left, Nat.add_sub_cancel_left, Option.getD_some]
  constructor
  case window => rfl
  case count => rw [List.length_map, Bitmap.pixels, length_gridPixels]
  case sent =>
      intro r c hr hc
      rw [List.getElem?_map, Bitmap.pixels, getElem?_gridPixels _ hr hc, Option.map_some]
  case shown =>
      intro s r c hr hc
      rw [hpanel]
      exact hshown s r c hr hc
  case foreground =>
      intro hne s r c hr hc
      rw [hpanel, hshown s r c hr hc]
      exact ite_eq_fore hne _
  case kept =>
      intro s p hp
      rw [hpanel, Canvas.paint, Window.layer, if_neg hp, Option.getD_none]

/-- A character of either kind that fits the panel shows its bitmap. -/
theorem rasterises_lcdDispChar (env : DisplayEnv) {x y : Nat} (back fore : UInt16) (g : Glyph)
    (hx : x + (g.bitmap env).width ≤ LCD_W) (hy : y + 16 ≤ LCD_H) :
    (lcdDispChar env x y back fore g).Rasterises (g.bitmap env) x y back fore := by
  have hheight := g.height_bitmap env
  rw [lcdDispChar_of_fits env back fore g hx hy]
  exact rasterises_pixels _ (g.width_bitmap env).1 (hheight ▸ Nat.succ_pos 15) hx (hheight ▸ hy)
    back fore

/-- For every font, glyph buffer, colours and position where the window fits the panel,
{lit}`lcd_disp_char_ch` sends 256 half-words that show bit {lit}`15 - c` of the big-endian word
of row {lit}`r` at column {lit}`c`, and {lit}`lcd_disp_char_en` sends 128 half-words that show
bit {lit}`c` of the byte of row {lit}`r` there. -/
theorem char_rasterised (env : DisplayEnv) (x y : Nat) (back fore : UInt16) :
    (∀ high low : UInt8, x + 16 ≤ LCD_W → y + 16 ≤ LCD_H →
      let ucBuffer := (getGBKCodeFromSd env.hzlib env.ucBuffer high low).1
      let word (r : Nat) : Nat :=
        256 * (ucBuffer.getD (2 * r) 0).toNat + (ucBuffer.getD (2 * r + 1) 0).toNat
      (lcdDispCharChRun env x y high low back fore).sends.length = 256 ∧
        (lcdDispCharChRun env x y high low back fore).Rasterises
          ⟨16, 16, fun r c => (word r).testBit (15 - c)⟩ x y back fore) ∧
    (∀ cChar : UInt8, x + 8 ≤ LCD_W → y + 16 ≤ LCD_H →
      let byte (r : Nat) : UInt8 := env.ucAscii_1608 ((cChar - 32).toNat * 16 + r)
      (lcdDispCharEnRun env x y cChar back fore).sends.length = 128 ∧
        (lcdDispCharEnRun env x y cChar back fore).Rasterises
          ⟨8, 16, fun r c => (byte r).toNat.testBit c⟩ x y back fore) := by
  constructor
  · intro high low hx hy
    have h := rasterises_lcdDispChar env back fore (.ch high low) hx hy
    rw [lcdDispCharChRun_eq]
    exact ⟨h.count, h⟩
  · intro cChar hx hy
    have h := rasterises_lcdDispChar env back fore (.en cChar) hx hy
    rw [lcdDispCharEnRun_eq]
    exact ⟨h.count, h⟩

/-- Fonts in which every glyph is a diagonal that falls to the right. -/
def diagonalFonts : DisplayEnv where
  ucAscii_1608 a := 1 <<< UInt8.ofNat (a % 8)
  asc2_1608 _ := 0
  asc2_2412 _ := 0
  asc2_3216 _ := 0
  hzlib := none
  icons _ := none
  fontBuf _ _ := true
  clearBuf := true
  ucBuffer := (List.range 16).flatMap fun r => halfWordBytes ((0x8000 : UInt16) >>> UInt16.ofNat r)
  heap _ := 0

/-- In the lower right corner of the panel. -/
theorem char_rasterised_diagonal :
    (lcdDispCharChRun diagonalFonts 224 224 0xB0 0xA1 0xFFFF RED).sends.length = 256 ∧
      (lcdDispCharEnRun diagonalFonts 232 224 0x41 0xFFFF RED).sends.length = 128 ∧
      ∀ s : Lcd, (s.receiveAll
        (lcdDispCharChRun diagonalFonts 224 224 0xB0 0xA1 0xFFFF RED).events).panel
          (224 + 3, 224 + 3) = RED := by
  have hch := (char_rasterised diagonalFonts 224 224 0xFFFF RED).1 0xB0 0xA1 (by decide) (by decide)
  have hen := (char_rasterised diagonalFonts 232 224 0xFFFF RED).2 0x41 (by decide) (by decide)
  refine ⟨hch.1, hen.1, fun s => ?_⟩
  rw [hch.2.shown s 3 3 (by decide) (by decide)]
  exact if_pos (by decide)

end WeatherStation
