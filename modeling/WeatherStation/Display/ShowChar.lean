import WeatherStation.Foundation.ShiftLoop
import WeatherStation.Display.Glyph

/-!
# Both ways of drawing a character

{lit}`lcd_show_char` sends a character from {lit}`font_buf` in one transfer, or half-word by
half-word when the buffer is not allocated.  For each of the three fonts it has a loop for
either way.  This module runs the loops down to the bytes: the addresses that are stored to
and the transfers that are made.

Main results:

- Theorem {lit}`read_stores`: the loop that fills the buffer leaves in it what the other loop
  sends.
- Theorem {lit}`show_char_agrees`: with and without the buffer the display receives the same
  bytes, as many as the window takes, and every byte of the buffer is stored.
- Theorem {lit}`pixels_fontLoop`: both loops draw the bitmap of the character.
-/

open Foundation

namespace WeatherStation

/-! ## The loops -/

/-- The two loops over one font: how many bytes a character has, from where on they stand in
the table, how many bits of a byte are pixels, and which pixel of the buffer a bit is. -/
structure FontLoop where
  table : Memory
  start : Nat
  count : Nat
  num : Nat → Nat
  place : Nat → Nat → Nat
  place_zero : place 0 0 = 0
  place_add (pos t : Nat) : place pos t = place pos 0 + t
  place_succ (pos : Nat) : place (pos + 1) 0 = place pos 0 + num pos

/-- The loops for {lit}`size == 16`. -/
def fontLoop1608 (env : DisplayEnv) (data : UInt8) : FontLoop where
  table := env.asc2_1608
  start := data.toNat * 16 * (16 / 2) / 8
  count := 16 * (16 / 2) / 8
  num _ := 8
  place pos t := 8 * pos + t
  place_zero := rfl
  place_add _ _ := rfl
  place_succ pos := Nat.mul_succ 8 pos

/-- The loops for {lit}`size == 24`, where every other byte has four pixels only. -/
def fontLoop2412 (env : DisplayEnv) (data : UInt8) : FontLoop where
  table := env.asc2_2412
  start := data.toNat * (24 * 16) / 8
  count := 24 * 16 / 8
  num pos := if pos % 2 = 0 then 8 else 4
  place pos t := if (if pos % 2 = 0 then 8 else 4) = 8 then 12 * (pos / 2) + t
    else 8 + 12 * (pos / 2) + t
  place_zero := rfl
  place_add pos t := by split_ifs <;> rfl
  place_succ pos := by
    rcases Nat.mod_two_eq_zero_or_one pos with heven | hodd
    · rw [if_neg (by rw [if_neg (by omega)]; decide), if_pos (by rw [if_pos heven]), if_pos heven]
      omega
    · rw [if_pos (by rw [if_pos (by omega)]), if_neg (by rw [if_neg (by omega)]; decide),
        if_neg (by omega)]
      omega

/-- The loops for {lit}`size == 32`. -/
def fontLoop3216 (env : DisplayEnv) (data : UInt8) : FontLoop where
  table := env.asc2_3216
  start := data.toNat * 32 * (32 / 2) / 8
  count := 32 * (32 / 2) / 8
  num _ := 8
  place pos t := 8 * pos + t
  place_zero := rfl
  place_add _ _ := rfl
  place_succ pos := Nat.mul_succ 8 pos

/-- The loops for a size, if there is a font of it. -/
def fontLoop (env : DisplayEnv) (data : UInt8) (size : Nat) : Option FontLoop :=
  if size = 16 then some (fontLoop1608 env data)
  else if size = 24 then some (fontLoop2412 env data)
  else if size = 32 then some (fontLoop3216 env data)
  else none

/-- The values of {lit}`colortemp` for the first bits of {lit}`temp`, which is shifted left
from one to the next. -/
def colortemps (back fore : UInt16) : Nat → UInt8 → List UInt16
  | 0, _ => []
  | num + 1, temp =>
      (if temp &&& 0x80 ≠ 0 then fore else back) :: colortemps back fore num (temp <<< 1)

/-- The two stores of a half-word to the buffer. -/
def storeHalfWord (place : Nat) (colortemp : UInt16) : List (Nat × UInt8) :=
  [(2 * place, (colortemp >>> 8).toUInt8), (2 * place + 1, colortemp.toUInt8)]

namespace FontLoop

variable (loop : FontLoop) (back fore : UInt16)

/-- The half-words of one byte of the font. -/
def colors (pos : Nat) : List UInt16 :=
  colortemps back fore (loop.num pos) (loop.table (loop.start + pos))

/-- The loop without a buffer: the half-words in the order in which they are sent. -/
def pixels : List UInt16 :=
  (List.range loop.count).flatMap (loop.colors back fore)

/-- The loop with a buffer: its stores in order. -/
def stores : List (Nat × UInt8) :=
  (List.range loop.count).flatMap fun pos =>
    (loop.colors back fore pos).zipIdx.flatMap fun c => storeHalfWord (loop.place pos c.2) c.1

end FontLoop

/-- What {lit}`lcd_show_char` does: the window it addresses, if any, the bytes of its transfers
and its stores to the buffer. -/
structure ShowCharRun where
  window : Option Window
  transfers : List (List UInt8)
  stores : List (Nat × UInt8)

/-- All bytes that are sent. -/
def ShowCharRun.bytes (run : ShowCharRun) : List UInt8 :=
  run.transfers.flatten

/-- {lit}`lcd_show_char`, given the content of {lit}`font_buf` if it is allocated. -/
def lcdShowCharRun (env : DisplayEnv) (font_buf : Option Memory) (back fore : UInt16) (x y : Nat)
    (data : UInt8) (size : Nat) : ShowCharRun :=
  if x > LCD_W - size / 2 ∨ y > LCD_H - size then ⟨none, [], []⟩
  else
    match fontLoop env (data - 32) size with
    | none => ⟨none, [], []⟩
    | some loop =>
        let window := some ⟨x, y, x + size / 2 - 1, y + size - 1⟩
        match font_buf with
        | none => ⟨window, (loop.pixels back fore).map halfWordBytes, []⟩
        | some heap =>
            let stores := loop.stores back fore
            ⟨window, [(heap.storeAll stores).read 0 (size * size)], stores⟩

/-! ## The buffer -/

/-- {lit}`temp` is looked at and shifted from one bit to the next. -/
theorem colortemps_eq_shiftLoop (back fore : UInt16) (num : Nat) (temp : UInt8) :
    colortemps back fore num temp =
      shiftLoop (fun temp : UInt8 => if temp &&& 0x80 ≠ 0 then fore else back)
        (fun temp => temp <<< 1) num temp := by
  induction num generalizing temp with
  | zero => rfl
  | succ num ih => rw [colortemps, shiftLoop, ih]

@[simp] theorem length_colortemps (back fore : UInt16) (num : Nat) (temp : UInt8) :
    (colortemps back fore num temp).length = num := by
  rw [colortemps_eq_shiftLoop, length_shiftLoop]

/-- A stored half-word is one as it is sent. -/
theorem snd_storeHalfWord (place : Nat) (c : UInt16) :
    (storeHalfWord place c).map Prod.snd = halfWordBytes c := by
  rw [storeHalfWord, List.map_cons, List.map_singleton, toUInt8_shiftRight_eight, halfWordBytes]

namespace FontLoop

variable (loop : FontLoop) (back fore : UInt16)

theorem length_colors (pos : Nat) : (loop.colors back fore pos).length = loop.num pos :=
  length_colortemps ..

/-- The bits of the first bytes are numbered without a gap. -/
theorem range_place (n : Nat) :
    ((List.range n).flatMap fun pos => (List.range (loop.num pos)).map (loop.place pos)) =
      List.range (loop.place n 0) := by
  induction n with
  | zero =>
      rw [loop.place_zero]
      rfl
  | succ n ih =>
      rw [List.range_succ, List.flatMap_append, List.flatMap_singleton, ih, loop.place_succ,
        List.range_add]
      congr 1
      exact List.map_congr_left fun t _ => loop.place_add n t

theorem length_pixels : (loop.pixels back fore).length = loop.place loop.count 0 := by
  have h := congrArg List.length (loop.range_place loop.count)
  simpa [pixels, List.length_flatMap, length_colors] using h

/-- Two addresses for each of the first pixels. -/
theorem range_two_mul (n : Nat) :
    ((List.range n).flatMap fun k => [2 * k, 2 * k + 1]) = List.range (2 * n) := by
  induction n with
  | zero => rfl
  | succ n ih =>
      rw [List.range_succ, List.flatMap_append, List.flatMap_singleton, ih, Nat.mul_succ,
        List.range_succ, List.range_succ, List.append_assoc]
      rfl

/-- The stores go to the addresses of the buffer, one after another. -/
theorem fst_stores : (loop.stores back fore).map Prod.fst =
    List.range (2 * loop.place loop.count 0) := by
  have hbyte (pos : Nat) :
      ((loop.colors back fore pos).zipIdx.flatMap fun c =>
          storeHalfWord (loop.place pos c.2) c.1).map Prod.fst =
        ((List.range (loop.num pos)).map (loop.place pos)).flatMap fun k => [2 * k, 2 * k + 1] := by
    rw [List.map_flatMap, List.flatMap_map, List.range_eq_range', ← loop.length_colors back fore,
      ← List.zipIdx_map_snd, List.flatMap_map]
    rfl
  rw [stores, List.map_flatMap, ← range_two_mul, ← loop.range_place, List.flatMap_assoc]
  simp only [hbyte]

/-- They store the bytes that the other loop sends. -/
theorem snd_stores : (loop.stores back fore).map Prod.snd =
    (loop.pixels back fore).flatMap halfWordBytes := by
  have hbyte (pos : Nat) :
      ((loop.colors back fore pos).zipIdx.flatMap fun c =>
          storeHalfWord (loop.place pos c.2) c.1).map Prod.snd =
        (loop.colors back fore pos).flatMap halfWordBytes := by
    rw [List.map_flatMap]
    simp only [snd_storeHalfWord]
    rw [← List.flatMap_map, List.zipIdx_map_fst]
  rw [stores, List.map_flatMap, pixels, List.flatMap_assoc]
  simp only [hbyte]

/-- The loop that fills the buffer leaves in it what the other loop sends. -/
theorem read_stores (heap : Memory) :
    (heap.storeAll (loop.stores back fore)).read 0 (2 * loop.place loop.count 0) =
      (loop.pixels back fore).flatMap halfWordBytes := by
  rw [Memory.read_storeAll heap (loop.fst_stores back fore), snd_stores]

end FontLoop

/-! ## The characters -/

/-- A font has half the width of its size, and its loops go over all of its pixels. -/
theorem place_fontLoop {env : DisplayEnv} {data : UInt8} {size : Nat} {loop : FontLoop}
    (h : fontLoop env data size = some loop) :
    2 * loop.place loop.count 0 = size * size ∧ size % 2 = 0 ∧ 0 < size := by
  unfold fontLoop at h
  split_ifs at h with h16 h24 h32
  · obtain rfl := Option.some.inj h
    subst h16
    exact ⟨rfl, rfl, by decide⟩
  · obtain rfl := Option.some.inj h
    subst h24
    exact ⟨by simp [fontLoop2412], rfl, by decide⟩
  · obtain rfl := Option.some.inj h
    subst h32
    exact ⟨rfl, rfl, by decide⟩

/-- A call with a buffer and one without do the same to the display, and the buffer is
filled. -/
structure ShowCharRun.Agrees (buffered single : ShowCharRun) : Prop where
  window : buffered.window = single.window
  bytes : buffered.bytes = single.bytes
  /-- The buffer is stored to at the addresses of the bytes that are sent from it. -/
  filled : ∀ a, a ∈ buffered.stores.map Prod.fst ↔ a < buffered.bytes.length
  /-- The window is on the panel and takes all bytes. -/
  full : ∀ w, buffered.window = some w → w.Valid ∧ buffered.bytes.length = 2 * w.area
  /-- Without a window nothing is sent. -/
  silent : buffered.window = none → buffered.bytes = []

/-- A call that draws nothing. -/
theorem agrees_skipped : ShowCharRun.Agrees ⟨none, [], []⟩ ⟨none, [], []⟩ where
  window := rfl
  bytes := rfl
  filled a := iff_of_false List.not_mem_nil (Nat.not_lt_zero a)
  full _ hw := absurd hw.symm (Option.some_ne_none _)
  silent _ := rfl

/-- Single transfers of half-words, all together. -/
theorem flatten_map_halfWordBytes (cs : List UInt16) :
    (cs.map halfWordBytes).flatten = cs.flatMap halfWordBytes := by
  rw [List.flatMap_def]

theorem length_flatMap_halfWordBytes (cs : List UInt16) :
    (cs.flatMap halfWordBytes).length = 2 * cs.length := by
  simp [List.length_flatMap, halfWordBytes, Nat.mul_comm]

/-- The window of a character that fits the panel. -/
theorem valid_showWindow {x y size : Nat} (heven : size % 2 = 0) (hpos : 0 < size)
    (hx : x + size / 2 ≤ LCD_W) (hy : y + size ≤ LCD_H) :
    (⟨x, y, x + size / 2 - 1, y + size - 1⟩ : Window).Valid ∧
      2 * (⟨x, y, x + size / 2 - 1, y + size - 1⟩ : Window).area = size * size := by
  constructor
  · simp only [Window.Valid]
    omega
  · have hwidth : x + size / 2 - 1 + 1 - x = size / 2 := by omega
    have hheight : y + size - 1 + 1 - y = size := by omega
    rw [Window.area, Window.width, Window.height, hwidth, hheight, ← Nat.mul_assoc]
    congr 1
    omega

/-- For each size, for all fonts, characters, colours and positions the display receives the
same window and the same bytes with and without the buffer; every byte of the buffer is stored
before it is sent, and a character that fits the panel has as many pixels as its window. -/
theorem show_char_agrees (env : DisplayEnv) (heap : Memory) (back fore : UInt16) (x y : UInt16)
    (data : UInt8) {size : Nat} (hsize : size = 16 ∨ size = 24 ∨ size = 32) :
    (lcdShowCharRun env (some heap) back fore x.toNat y.toNat data size).Agrees
        (lcdShowCharRun env none back fore x.toNat y.toNat data size) ∧
      ((lcdShowCharRun env (some heap) back fore x.toNat y.toNat data size).window.isSome ↔
        x.toNat + size / 2 ≤ LCD_W ∧ y.toNat + size ≤ LCD_H) := by
  obtain ⟨loop, hloop⟩ : ∃ loop, fontLoop env (data - 32) size = some loop := by
    rcases hsize with rfl | rfl | rfl <;> exact ⟨_, rfl⟩
  rcases place_fontLoop hloop with ⟨hplace, heven, hpos⟩
  have hfit : (x.toNat + size / 2 ≤ LCD_W ∧ y.toNat + size ≤ LCD_H) ↔
      ¬(x.toNat > LCD_W - size / 2 ∨ y.toNat > LCD_H - size) := by
    simp only [LCD_W, LCD_H]
    omega
  by_cases hskip : x.toNat > LCD_W - size / 2 ∨ y.toNat > LCD_H - size
  · rw [lcdShowCharRun, if_pos hskip, lcdShowCharRun, if_pos hskip]
    exact ⟨agrees_skipped, by simpa using hfit.not.mpr (not_not.mpr hskip)⟩
  · rcases hfit.mpr hskip with ⟨hx, hy⟩
    rcases valid_showWindow heven hpos hx hy with ⟨hvalid, harea⟩
    have hread := loop.read_stores back fore heap
    rw [hplace] at hread
    have hlen : ((loop.pixels back fore).flatMap halfWordBytes).length = size * size := by
      rw [length_flatMap_halfWordBytes, loop.length_pixels, hplace]
    simp only [lcdShowCharRun, if_neg hskip, hloop]
    refine ⟨⟨rfl, ?_, fun a => ?_, ?_, fun hnone => absurd hnone (Option.some_ne_none _)⟩,
      iff_of_true rfl ⟨hx, hy⟩⟩
    · rw [ShowCharRun.bytes, ShowCharRun.bytes, List.flatten_singleton, hread,
        flatten_map_halfWordBytes]
    · rw [ShowCharRun.bytes, List.flatten_singleton, hread, hlen, loop.fst_stores, hplace,
        List.mem_range]
    · rintro w hw
      obtain rfl := Option.some.inj hw
      exact ⟨hvalid, by rw [ShowCharRun.bytes, List.flatten_singleton, hread, hlen, harea]⟩

/-- Fonts whose bytes count up. -/
def countingFonts : DisplayEnv where
  ucAscii_1608 a := UInt8.ofNat a
  asc2_1608 a := UInt8.ofNat a
  asc2_2412 a := UInt8.ofNat a
  asc2_3216 a := UInt8.ofNat a
  hzlib := none
  icons _ := none
  fontBuf _ _ := true
  clearBuf := true
  ucBuffer := List.replicate 32 0
  heap _ := 0

/-- A letter of size 24 in the lower right corner of the panel. -/
theorem show_char_agrees_corner :
    (lcdShowCharRun countingFonts (some fun _ => 0xFF) 0xFFFF 0x001F 228 216 0x41 24).Agrees
        (lcdShowCharRun countingFonts none 0xFFFF 0x001F 228 216 0x41 24) ∧
      (lcdShowCharRun countingFonts (some fun _ => 0xFF) 0xFFFF 0x001F 228 216 0x41
        24).window.isSome := by
  rcases show_char_agrees countingFonts (fun _ => 0xFF) 0xFFFF 0x001F 228 216 0x41
    (.inr (.inl rfl)) with ⟨hagrees, hdrawn⟩
  exact ⟨hagrees, hdrawn.mpr ⟨by decide, by decide⟩⟩

/-! ## The bitmap of a character -/

/-- The bit that is tested first. -/
theorem and_0x80_ne_zero (temp : UInt8) : temp &&& 0x80 ≠ 0 ↔ temp.toNat.testBit 7 := by
  rw [← UInt8.toNat_inj.ne, UInt8.toNat_and]
  exact and_two_pow_ne_zero temp.toNat 7

/-- The colours of a byte, its highest bit first. -/
theorem colortemps_eq (back fore : UInt16) {num : Nat} (hnum : num ≤ 8) (temp : UInt8) :
    colortemps back fore num temp =
      (List.range num).map fun t => if temp.toNat.testBit (7 - t) then fore else back := by
  rw [colortemps_eq_shiftLoop]
  refine shiftLoop_of_shiftLeft UInt8.toNat (fun b => if b then fore else back) (fun temp => ?_)
    (fun temp => UInt8.toNat_shiftLeft temp 1) hnum temp
  simp only [and_0x80_ne_zero]

/-- An even number of bytes taken two at a time. -/
theorem flatMap_range_two_mul {α : Type*} (f : Nat → List α) (n : Nat) :
    (List.range (2 * n)).flatMap f =
      (List.range n).flatMap fun r => f (2 * r) ++ f (2 * r + 1) := by
  rw [← FontLoop.range_two_mul, List.flatMap_assoc]
  simp

namespace FontLoop

variable (loop : FontLoop) (back fore : UInt16)

theorem colors_eq {pos : Nat} (hnum : loop.num pos ≤ 8) :
    loop.colors back fore pos = (List.range (loop.num pos)).map fun t =>
      if (loop.table (loop.start + pos)).toNat.testBit (7 - t) then fore else back :=
  colortemps_eq back fore hnum _

/-- A row of two bytes, of which the second gives {lit}`k` columns. -/
theorem colors_row {r k : Nat} (hfirst : loop.num (2 * r) = 8) (hsecond : loop.num (2 * r + 1) = k)
    (hk : k ≤ 8) :
    loop.colors back fore (2 * r) ++ loop.colors back fore (2 * r + 1) =
      (List.range (8 + k)).map fun col =>
        if (loop.table (loop.start + 2 * r + col / 8)).toNat.testBit (7 - col % 8) then fore
        else back := by
  rw [loop.colors_eq back fore hfirst.le, loop.colors_eq back fore (hsecond.trans_le hk), hfirst,
    hsecond, List.range_add, List.map_append, List.map_map]
  refine congrArg₂ (· ++ ·) ?_ ?_
  · refine List.map_congr_left fun col hcol => ?_
    have hlt := List.mem_range.mp hcol
    rw [Nat.div_eq_of_lt hlt, Nat.mod_eq_of_lt hlt, Nat.add_zero]
  · refine List.map_congr_left fun col hcol => ?_
    have hlt : col < 8 := (List.mem_range.mp hcol).trans_le hk
    rw [Function.comp_apply, Nat.add_div_left _ (by decide), Nat.add_mod_left,
      Nat.div_eq_of_lt hlt, Nat.mod_eq_of_lt hlt]
    rfl

end FontLoop

section Bitmap

variable (env : DisplayEnv) (data : UInt8) (back fore : UInt16)

theorem pixels_fontLoop1608 : (fontLoop1608 env (data - 32)).pixels back fore =
    (showBitmap16 env data).pixels back fore := by
  have hstart : (fontLoop1608 env (data - 32)).start = (data - 32).toNat * 16 := by
    simp only [fontLoop1608]
    omega
  rw [FontLoop.pixels, Bitmap.pixels, gridPixels]
  refine List.flatMap_congr fun r _ => ?_
  rw [FontLoop.colors_eq _ back fore le_rfl, hstart]
  rfl

theorem pixels_fontLoop2412 : (fontLoop2412 env (data - 32)).pixels back fore =
    (showBitmap24 env data).pixels back fore := by
  have hstart : (fontLoop2412 env (data - 32)).start = (data - 32).toNat * 48 := by
    simp only [fontLoop2412]
    omega
  refine (flatMap_range_two_mul _ 24).trans ?_
  rw [Bitmap.pixels, gridPixels]
  refine List.flatMap_congr fun r _ => ?_
  rw [FontLoop.colors_row _ back fore (k := 4) (if_pos (by omega)) (if_neg (by omega)) (by decide),
    hstart]
  rfl

theorem pixels_fontLoop3216 : (fontLoop3216 env (data - 32)).pixels back fore =
    (showBitmap32 env data).pixels back fore := by
  have hstart : (fontLoop3216 env (data - 32)).start = (data - 32).toNat * 64 := by
    simp only [fontLoop3216]
    omega
  refine (flatMap_range_two_mul _ 32).trans ?_
  rw [Bitmap.pixels, gridPixels]
  refine List.flatMap_congr fun r _ => ?_
  rw [FontLoop.colors_row _ back fore rfl rfl le_rfl, hstart]
  rfl

end Bitmap

/-- The loops of a size draw the bitmap of the character. -/
theorem pixels_fontLoop {env : DisplayEnv} {data : UInt8} {size : Nat} {loop : FontLoop}
    (h : fontLoop env (data - 32) size = some loop) (back fore : UInt16) :
    ∃ bm, showBitmap env data size = some bm ∧ bm.pixels back fore = loop.pixels back fore := by
  unfold fontLoop at h
  unfold showBitmap
  split_ifs at h ⊢ with h16 h24 h32
  · obtain rfl := Option.some.inj h
    exact ⟨_, rfl, (pixels_fontLoop1608 env data back fore).symm⟩
  · obtain rfl := Option.some.inj h
    exact ⟨_, rfl, (pixels_fontLoop2412 env data back fore).symm⟩
  · obtain rfl := Option.some.inj h
    exact ⟨_, rfl, (pixels_fontLoop3216 env data back fore).symm⟩

/-- The drawing call of a character addresses the window of its run and makes the transfers. -/
theorem lcdShowChar_eq_run (env : DisplayEnv) (heap : Memory) (back fore : UInt16) (x y : Nat)
    (data : UInt8) (size : Nat) {run : ShowCharRun}
    (hrun : lcdShowCharRun env (if env.fontBuf x y then some heap else none) back fore x y data
      size = run) :
    (lcdShowChar env back fore x y data size = [] ∧ run.window = none ∧ run.transfers = []) ∨
      ∃ d, lcdShowChar env back fore x y data size = [d] ∧ d.window = run.window ∧
        d.sends.map (fun s => s.pixels.flatMap halfWordBytes) = run.transfers := by
  subst hrun
  by_cases hskip : x > LCD_W - size / 2 ∨ y > LCD_H - size
  · rw [lcdShowChar, if_pos hskip, lcdShowCharRun, if_pos hskip]
    exact .inl ⟨rfl, rfl, rfl⟩
  rw [lcdShowChar, if_neg hskip, lcdShowCharRun, if_neg hskip]
  cases hloop : fontLoop env (data - 32) size with
  | none =>
      have hnone : showBitmap env data size = none := by
        unfold fontLoop at hloop
        unfold showBitmap
        split_ifs at hloop ⊢
        rfl
      rw [hnone]
      exact .inl ⟨rfl, rfl, rfl⟩
  | some loop =>
      rcases pixels_fontLoop hloop back fore with ⟨bm, hbm, hpixels⟩
      rw [hbm]
      refine .inr ⟨_, rfl, ?_⟩
      rw [hpixels]
      cases env.fontBuf x y with
      | true =>
          have hread := loop.read_stores back fore heap
          rw [(place_fontLoop hloop).1] at hread
          exact ⟨rfl, congrArg ([·]) hread.symm⟩
      | false =>
          refine ⟨rfl, ?_⟩
          rw [if_neg Bool.false_ne_true, List.map_map]
          refine List.map_congr_left fun c _ => ?_
          exact List.flatMap_singleton ..

end WeatherStation
