import Mathlib.Data.List.GetD
import WeatherStation.Display.Text

/-!
# Reading glyphs from the font file

The glyph buffer of {lit}`lcd_disp_char_ch` for every outcome of the calls on the font file,
with the place that each of its bytes comes from.

Main results:

- Theorem {lit}`getD_fontBuffer`: a byte of the buffer is the byte of the font file at its
  origin, or what the buffer held before.
- Theorem {lit}`own_iff`: the characters and outcomes with which a character is painted from
  its own glyph.
- Theorem {lit}`glyphsOwn_iff`: the texts and outcomes with which all characters are.
- Theorem {lit}`fontBitmap_of_own`: such a character shows the glyph of the font file.
-/

open Foundation

namespace WeatherStation

/-! ## The calls on the font file -/

/-- The outcomes of the calls of {lit}`GetGBKCode_from_sd`: the results of {lit}`open` and
{lit}`read`, and whether {lit}`lseek` moves to an offset that is not negative. -/
structure FontIo where
  fd : Int
  lseekOk : Bool
  size : Int
  size_le : size ≤ 32

/-- The offset that is computed for a character, as {lit}`lseek` takes it. -/
def fontPos (high low : UInt8) : Int :=
  ((high.toNat - 0xa0 - 16 : Int) * 94 + low.toNat - 0xa0 - 1) * 2 * 16

/-- The position of the file when it is read.  A negative offset is refused. -/
def FontIo.position (io : FontIo) (high low : UInt8) : Nat :=
  if 0 ≤ fontPos high low ∧ io.lseekOk then (fontPos high low).toNat else 0

/-- The bytes that the read delivers. -/
def FontIo.data (io : FontIo) (file : List UInt8) (high low : UInt8) : List UInt8 :=
  if io.fd < 0 then [] else readFile file (io.position high low) io.size.toNat

/-- The glyph buffer after {lit}`GetGBKCode_from_sd`. -/
def fontBuffer (file ucBuffer : List UInt8) (io : FontIo) (high low : UInt8) : List UInt8 :=
  io.data file high low ++ ucBuffer.drop (io.data file high low).length

/-- Where a byte of the glyph buffer comes from: its place in the font file, or none for a
byte that the buffer held before. -/
def FontIo.origin (io : FontIo) (file : List UInt8) (high low : UInt8) (i : Nat) : Option Nat :=
  if i < (io.data file high low).length then some (io.position high low + i) else none

/-- A byte of the buffer is the byte of the font file at its origin, or what the buffer held
before. -/
theorem getD_fontBuffer (file ucBuffer : List UInt8) (io : FontIo) (high low : UInt8) (i : Nat) :
    (fontBuffer file ucBuffer io high low).getD i 0 =
      match io.origin file high low i with
      | some a => file.getD a 0
      | none => ucBuffer.getD i 0 := by
  rw [fontBuffer, FontIo.origin]
  split_ifs with hi
  · rw [List.getD_append _ _ _ _ hi]
    by_cases hopen : io.fd < 0
    · simp [FontIo.data, hopen] at hi
    · simp only [FontIo.data, if_neg hopen, readFile, List.length_take, List.length_drop] at hi ⊢
      simp only [List.getD_eq_getElem?_getD, List.getElem?_take, List.getElem?_drop]
      rw [if_pos (by omega)]
  · rw [List.getD_append_right _ _ _ _ (by omega), List.getD_eq_getElem?_getD, List.getElem?_drop,
      ← List.getD_eq_getElem?_getD]
    congr 1
    omega

/-- The outcomes when nothing fails. -/
def FontIo.complete : FontIo :=
  ⟨0, true, 32, by decide⟩

/-- When nothing fails the buffer is the one of the uninterrupted screen. -/
theorem fontBuffer_complete (file ucBuffer : List UInt8) (high low : UInt8) :
    fontBuffer file ucBuffer .complete high low =
      (getGBKCodeFromSd (some file) ucBuffer high low).1 := by
  simp [fontBuffer, FontIo.data, FontIo.position, FontIo.complete, getGBKCodeFromSd, fontPos]

/-- The bitmap that is drawn from the buffer. -/
def fontBitmap (file ucBuffer : List UInt8) (io : FontIo) (high low : UInt8) : Bitmap where
  width := 16
  height := 16
  bit r col :=
    let ucBuffer := fontBuffer file ucBuffer io high low
    (256 * (ucBuffer.getD (2 * r) 0).toNat + (ucBuffer.getD (2 * r + 1) 0).toNat).testBit (15 - col)

/-! ## A character's own glyph -/

/-- Size of the font file: 94 glyphs of 32 bytes for each of 72 lead bytes. -/
def fontSize : Nat := 72 * 94 * 32

/-- The characters of the font. -/
def InFont (high low : UInt8) : Prop :=
  0xB0 ≤ high ∧ high ≤ 0xF7 ∧ 0xA1 ≤ low ∧ low ≤ 0xFE

instance (high low : UInt8) : Decidable (InFont high low) :=
  inferInstanceAs (Decidable (_ ∧ _ ∧ _ ∧ _))

/-- The place of a character's glyph in the font file. -/
def ownOffset (high low : UInt8) : Nat :=
  ((high.toNat - 0xB0) * 94 + (low.toNat - 0xA1)) * 32

/-- A character is painted from its own glyph: a row of the table inside its bounds, or the
bytes of the font file for both halves of every row. -/
def Glyph.Own (file : List UInt8) (io : FontIo) : Glyph → Prop
  | .en c => (c - 32).toNat < 95
  | .ch high low => InFont high low ∧ ∀ row < 16,
      io.origin file high low (2 * row) = some (ownOffset high low + 2 * row) ∧
        io.origin file high low (2 * row + 1) = some (ownOffset high low + (2 * row + 1))

/-- The character is in its font; for the font file the calls deliver the whole glyph, where
only the first glyph needs no seek. -/
def Glyph.Readable (io : FontIo) : Glyph → Prop
  | .en c => 32 ≤ c ∧ c ≤ 126
  | .ch high low => InFont high low ∧ 0 ≤ io.fd ∧
      (io.lseekOk = true ∨ high = 0xB0 ∧ low = 0xA1) ∧ io.size = 32

/-- A single-byte character indexes the table inside its bounds when it is printable. -/
theorem index_lt_iff (c : UInt8) : (c - 32).toNat < 95 ↔ 32 ≤ c ∧ c ≤ 126 := by
  have hc := c.toNat_lt
  rw [UInt8.toNat_sub, UInt8.le_iff_toNat_le, UInt8.le_iff_toNat_le]
  simp only [UInt8.reduceToNat]
  omega

section InFont

variable {high low : UInt8}

theorem inFont_iff : InFont high low ↔
    176 ≤ high.toNat ∧ high.toNat ≤ 247 ∧ 161 ≤ low.toNat ∧ low.toNat ≤ 254 := by
  simp only [InFont, UInt8.le_iff_toNat_le]
  exact Iff.rfl

/-- The offset in terms of the two bytes. -/
theorem ownOffset_eq (high low : UInt8) :
    ownOffset high low = ((high.toNat - 176) * 94 + (low.toNat - 161)) * 32 :=
  rfl

/-- For the characters of the font the computed offset is that of their glyph. -/
theorem fontPos_of_inFont (h : InFont high low) : fontPos high low = ownOffset high low := by
  have hbytes := inFont_iff.mp h
  have hown := ownOffset_eq high low
  unfold fontPos
  omega

theorem ownOffset_of_inFont (h : InFont high low) : ownOffset high low + 32 ≤ fontSize := by
  have hbytes := inFont_iff.mp h
  have hown := ownOffset_eq high low
  have hsize : fontSize = 216576 := rfl
  omega

theorem ownOffset_eq_zero_iff (h : InFont high low) :
    ownOffset high low = 0 ↔ high = 0xB0 ∧ low = 0xA1 := by
  have hbytes := inFont_iff.mp h
  have hown := ownOffset_eq high low
  have hhigh : high = 0xB0 ↔ high.toNat = 176 := UInt8.toNat_inj.symm
  have hlow : low = 0xA1 ↔ low.toNat = 161 := UInt8.toNat_inj.symm
  rw [hhigh, hlow]
  omega

/-- The position of the file is the character's own when the seek succeeds or is not
needed. -/
theorem position_eq_iff (h : InFont high low) (io : FontIo) :
    io.position high low = ownOffset high low ↔
      io.lseekOk = true ∨ high = 0xB0 ∧ low = 0xA1 := by
  rw [← ownOffset_eq_zero_iff h, FontIo.position, fontPos_of_inFont h]
  generalize ownOffset high low = own
  cases io.lseekOk with
  | true =>
      rw [if_pos ⟨Int.natCast_nonneg own, rfl⟩]
      exact iff_of_true (Int.toNat_natCast own) (.inl rfl)
  | false =>
      rw [if_neg fun hseek => Bool.false_ne_true hseek.2]
      exact ⟨fun hzero => .inr hzero.symm,
        fun hown => (hown.resolve_left Bool.false_ne_true).symm⟩

/-- From there the file supplies all bytes that are read. -/
theorem length_data (h : InFont high low) {file : List UInt8} (hfile : file.length = fontSize)
    {io : FontIo} (hopen : 0 ≤ io.fd) (hpos : io.position high low = ownOffset high low) :
    (io.data file high low).length = io.size.toNat := by
  have hend := ownOffset_of_inFont h
  have hsize := io.size_le
  rw [FontIo.data, if_neg (by omega), hpos, readFile, List.length_take, List.length_drop, hfile]
  omega

end InFont

/-- With the whole font file a character is painted from its own glyph exactly when it is in
its font and the calls deliver the whole glyph. -/
theorem own_iff {file : List UInt8} (hfile : file.length = fontSize) (io : FontIo) (g : Glyph) :
    g.Own file io ↔ g.Readable io := by
  cases g with
  | en c => exact index_lt_iff c
  | ch high low =>
      refine and_congr_right fun hin => ?_
      rw [← position_eq_iff hin]
      constructor
      · intro hrows
        have hfirst := (hrows 0 (by decide)).1
        have hlast := (hrows 15 (by decide)).2
        simp only [FontIo.origin, Option.ite_none_right_eq_some, Option.some.injEq] at hfirst hlast
        have hpos : io.position high low = ownOffset high low := by omega
        have hopen : 0 ≤ io.fd := by
          by_contra hfail
          rw [FontIo.data, if_pos (by omega)] at hlast
          exact absurd hlast.1 (Nat.not_lt_zero _)
        have hlen := length_data hin hfile hopen hpos
        have hsize := io.size_le
        exact ⟨hopen, hpos, by omega⟩
      · rintro ⟨hopen, hpos, hsize⟩ row hrow
        have hlen := length_data hin hfile hopen hpos
        rw [hsize] at hlen
        have hlen : (io.data file high low).length = 32 := hlen
        simp only [FontIo.origin, hlen, hpos]
        exact ⟨if_pos (by omega), if_pos (by omega)⟩

/-- A character that is painted from its own glyph shows the glyph of the font file, whatever
its buffer held before. -/
theorem fontBitmap_of_own {file : List UInt8} {io : FontIo} {high low : UInt8}
    (h : (Glyph.ch high low).Own file io) (ucBuffer : List UInt8) {r : Nat} (hr : r < 16)
    (col : Nat) :
    (fontBitmap file ucBuffer io high low).bit r col =
      (256 * (file.getD (ownOffset high low + 2 * r) 0).toNat +
        (file.getD (ownOffset high low + (2 * r + 1)) 0).toNat).testBit (15 - col) := by
  rcases h.2 r hr with ⟨hhigh, hlow⟩
  simp only [fontBitmap, getD_fontBuffer, hhigh, hlow]

/-! ## Texts -/

/-- The characters that {lit}`lcd_disp_str_en_ch` draws are those of its text. -/
theorem glyph_lcdDispStrEnCh (x y : Nat) (bs : List UInt8) :
    (lcdDispStrEnCh x y bs).glyphs.map Placed.glyph = glyphsOf bs := by
  induction bs using glyphsOf.induct generalizing x y with
  | case1 => rfl
  | case2 b bs hb ih => simp [lcdDispStrEnCh, hb, TextRun.cons, glyphsOf_en hb, ih]
  | case3 b hb => simp [lcdDispStrEnCh, hb, glyphsOf]
  | case4 b hb b' bs ih => simp [lcdDispStrEnCh, hb, TextRun.cons, glyphsOf_ch hb, ih]

/-- Every character that the function draws for a text is painted from its own glyph; the
calls for the characters one after another have the given outcomes. -/
def GlyphsOwn (file : List UInt8) (io : Nat → FontIo) (usX usY : UInt16) (pStr : CStr) : Prop :=
  ∀ (k : Nat) (p : Placed), (lcdDispStrEnCh usX.toNat usY.toNat pStr.bytes).glyphs[k]? = some p →
    p.glyph.Own file (io k)

/-- With the whole font file every character of a text is painted from its own glyph exactly
when every character is in its font and the calls for it deliver the whole glyph. -/
theorem glyphsOwn_iff {file : List UInt8} (hfile : file.length = fontSize) (io : Nat → FontIo)
    (usX usY : UInt16) (pStr : CStr) :
    GlyphsOwn file io usX usY pStr ↔
      ∀ (k : Nat) (g : Glyph), (glyphsOf pStr.bytes)[k]? = some g → g.Readable (io k) := by
  rw [← glyph_lcdDispStrEnCh usX.toNat usY.toNat]
  simp only [GlyphsOwn, List.getElem?_map, Option.map_eq_some_iff]
  constructor
  · rintro h k g ⟨p, hp, rfl⟩
    exact (own_iff hfile _ _).mp (h k p hp)
  · intro h k p hp
    exact (own_iff hfile _ _).mpr (h k _ ⟨p, hp, rfl⟩)

/-- A letter and the first character of the font, when nothing fails. -/
theorem glyphsOwn_complete :
    GlyphsOwn (List.replicate fontSize 0) (fun _ => .complete) 0 0
      ⟨[0x41, 0xB0, 0xA1], by decide⟩ := by
  refine (glyphsOwn_iff List.length_replicate _ 0 0 _).mpr fun k g hg => ?_
  have hglyphs : glyphsOf [0x41, 0xB0, 0xA1] = [.en 0x41, .ch 0xB0 0xA1] := by decide
  rw [hglyphs] at hg
  rcases List.mem_pair.mp (List.mem_of_getElem? hg) with rfl | rfl
  · exact ⟨by decide, by decide⟩
  · exact ⟨by decide, by decide, .inl rfl, rfl⟩

/-- Without the font file a character is painted from what its buffer held before. -/
theorem font_file_missing :
    ¬∀ (file : List UInt8) (io : Nat → FontIo) (usX usY : UInt16) (pStr : CStr),
      file.length = fontSize → GlyphsOwn file io usX usY pStr := by
  intro h
  have hown := h (List.replicate fontSize 0) (fun _ => ⟨-1, false, 0, by decide⟩) 0 0
    ⟨[0xB0, 0xA1], by decide⟩ List.length_replicate 0 ⟨0, 0, .ch 0xB0 0xA1⟩ (by decide)
  have hopen := ((own_iff List.length_replicate _ _).mp hown).2.1
  revert hopen
  decide

end WeatherStation
