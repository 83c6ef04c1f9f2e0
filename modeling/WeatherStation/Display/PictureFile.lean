import WeatherStation.Display.Glyph
import WeatherStation.Display.Picture

/-!
# Picture files

What {lit}`Show_BMP` makes of the content of its file: of well-formed bitmap files, whose
rows are stored from the bottom of the picture up and padded to a multiple of four bytes,
and of any other content.

Main results:

- Theorem {lit}`drawnAsFormat_iff`: a bitmap file is drawn as its format defines exactly
  when the buffer is allocated and the rows, taken one after another as the loop reads
  them, have the colours of the rows of the picture from the top down.
- Theorem {lit}`harmless_iff`: the file contents with which a call addresses a window on
  the panel, does not overrun it and sends what it has read.
-/

open Foundation

namespace WeatherStation

/-! ## Colours -/

/-- Masking off the low bits of a byte rounds it down. -/
theorem toNat_and_mask (b : UInt8) :
    (b &&& 0xF8).toNat = b.toNat / 8 * 8 ∧ (b &&& 0xFC).toNat = b.toNat / 4 * 4 := by
  have h : ∀ n < 256, n &&& 248 = n / 8 * 8 ∧ n &&& 252 = n / 4 * 4 := by decide +kernel
  exact h b.toNat b.toNat_lt

/-- The colour format of the panel: five bits of red, six of green and five of blue. -/
def rgb565 (r g b : UInt8) : Nat :=
  2048 * (r.toNat / 8) + (32 * (g.toNat / 4) + b.toNat / 8)

/-- {lit}`RGB888ToRGB565` gives the value of that format. -/
theorem toNat_RGB888ToRGB565 (r g b : UInt8) :
    (RGB888ToRGB565 r g b).toNat = rgb565 r g b := by
  have hr := r.toNat_lt
  have hg := g.toNat_lt
  have hb := b.toNat_lt
  have hred : ((r &&& 0xF8).toUInt16 <<< 8).toNat = 2048 * (r.toNat / 8) := by
    rw [UInt16.toNat_shiftLeft, UInt8.toNat_toUInt16, (toNat_and_mask r).1]
    simp only [UInt16.reduceToNat, Nat.reduceMod, Nat.shiftLeft_eq]
    omega
  have hgreen : ((g &&& 0xFC).toUInt16 <<< 3).toNat = 32 * (g.toNat / 4) := by
    rw [UInt16.toNat_shiftLeft, UInt8.toNat_toUInt16, (toNat_and_mask g).2]
    simp only [UInt16.reduceToNat, Nat.reduceMod, Nat.shiftLeft_eq]
    omega
  have hblue : ((b &&& 0xF8).toUInt16 >>> 3).toNat = b.toNat / 8 := by
    rw [UInt16.toNat_shiftRight, UInt8.toNat_toUInt16, (toNat_and_mask b).1]
    simp only [UInt16.reduceToNat, Nat.reduceMod, Nat.shiftRight_eq_div_pow]
    omega
  -- The three parts have no bit in common.
  have hlow : 32 * (g.toNat / 4) ||| b.toNat / 8 = 32 * (g.toNat / 4) + b.toNat / 8 :=
    (Nat.two_pow_add_eq_or_of_lt (i := 5) (by omega) _).symm
  have hhigh : 2048 * (r.toNat / 8) ||| (32 * (g.toNat / 4) + b.toNat / 8) = rgb565 r g b :=
    (Nat.two_pow_add_eq_or_of_lt (i := 11) (by omega) _).symm
  rw [RGB888ToRGB565, UInt16.toNat_or, UInt16.toNat_or, hred, hgreen, hblue, Nat.or_assoc, hlow,
    hhigh]

/-- The colour that the loop makes of the three bytes at a position of a file. -/
def colorAt (file : List UInt8) (a : Nat) : UInt16 :=
  RGB888ToRGB565 (fileBytes file (a + 2)) (fileBytes file (a + 1)) (fileBytes file a)

/-! ## The rows of a call -/

/-- A row as the loop of {lit}`Show_BMP` reads it: what the read delivers, the size of the
buffer, and the content of the buffer after the read. -/
structure RowRead where
  data : List UInt8
  capacity : Nat
  buffer : Memory

namespace BmpCall

/-- The rows that are read from a file position and buffer content on. -/
def rowReads (c : BmpCall) (w capacity : Nat) : Nat → Nat → Memory → List RowRead
  | 0, _, _ => []
  | n + 1, pos, buffer =>
      let data := readFile (c.file.getD []) pos (w * 3)
      let buffer := buffer.write 0 data
      ⟨data, capacity, buffer⟩ :: rowReads c w capacity n (pos + data.length) buffer

/-- The effects of the loop, row by row. -/
theorem rows_eq_flatMap (c : BmpCall) (w capacity n pos : Nat) (buffer : Memory) :
    c.rows w capacity n pos buffer =
      (c.rowReads w capacity n pos buffer).flatMap fun r =>
        .readRow (w * 3) r.capacity :: (bmpColumns r.buffer w).map .halfWord := by
  induction n generalizing pos buffer with
  | zero => rfl
  | succ n ih =>
      rw [rows, rowReads, List.flatMap_cons, ih]

theorem halfWords_append (es es' : List BmpEffect) :
    halfWords (es ++ es') = halfWords es ++ halfWords es' :=
  List.filterMap_append

/-- The half-words of the loop. -/
theorem halfWords_rows (c : BmpCall) (w capacity n pos : Nat) (buffer : Memory) :
    halfWords (c.rows w capacity n pos buffer) =
      (c.rowReads w capacity n pos buffer).flatMap fun r => bmpColumns r.buffer w := by
  induction n generalizing pos buffer with
  | zero => rfl
  | succ n ih =>
      rw [rows, rowReads, List.flatMap_cons, halfWords_append, ih]
      exact congrArg (· ++ _) (halfWords_map _)

/-- A row whose bytes are all there gives the colours of the file. -/
theorem bmpColumns_of_complete {file : List UInt8} {w pos : Nat} (hw : w ≤ 240)
    (hlen : pos + 3 * w ≤ file.length) (buffer : Memory) :
    bmpColumns (buffer.write 0 (readFile file pos (w * 3))) w =
      (List.range w).map fun col => colorAt file (pos + 3 * col) := by
  have hdata : (readFile file pos (w * 3)).length = w * 3 := by
    simp only [readFile, List.length_take, List.length_drop]
    omega
  have hbyte (i : Nat) (hi : i < w * 3) :
      buffer.write 0 (readFile file pos (w * 3)) i = fileBytes file (pos + i) := by
    rw [Memory.write_of_mem _ (by omega)]
    simp [readFile, fileBytes, hi]
  rw [bmpColumns, ← List.flatMap_pure_eq_map]
  refine List.flatMap_congr fun col hcol => ?_
  have hcol : col < w := List.mem_range.mp hcol
  rw [if_pos (by omega), bmpPixel, hbyte _ (by omega), hbyte _ (by omega), hbyte _ (by omega),
    Nat.mul_comm col 3]
  rfl

/-- Complete rows are sent in the order of the file. -/
theorem halfWords_rows_of_complete {c : BmpCall} {file : List UInt8} (hfile : c.file = some file)
    {w : Nat} (hw : w ≤ 240) (capacity : Nat) {n pos : Nat}
    (hlen : pos + 3 * (w * n) ≤ file.length) (buffer : Memory) :
    halfWords (c.rows w capacity n pos buffer) =
      gridPixels w n fun row col => colorAt file (pos + 3 * (w * row + col)) := by
  induction n generalizing pos buffer with
  | zero => rfl
  | succ n ih =>
      rw [Nat.mul_succ] at hlen
      have hdata : (readFile file pos (w * 3)).length = 3 * w := by
        simp only [readFile, List.length_take, List.length_drop]
        omega
      have hrest := @ih (pos + 3 * w) (by omega) (buffer.write 0 (readFile file pos (w * 3)))
      rw [halfWords_rows] at hrest ⊢
      rw [rowReads, List.flatMap_cons, hfile, Option.getD_some, hdata,
        bmpColumns_of_complete hw (by omega), hrest, gridPixels, gridPixels,
        List.range_succ_eq_map, List.flatMap_cons, List.flatMap_map]
      refine congrArg₂ (· ++ ·) ?_ ?_
      · simp only [Nat.mul_zero, Nat.zero_add]
      · simp only [Nat.mul_succ, Nat.mul_add, Nat.add_assoc, Nat.add_left_comm]

/-! ## The call as a whole -/

/-- Width of the picture by the header after the call has read it. -/
def picWidth (c : BmpCall) (bmp : Memory) : Nat :=
  BmpHead.pic_w_l (c.headerAfter bmp)

/-- Height of the picture. -/
def picHeight (c : BmpCall) (bmp : Memory) : Nat :=
  BmpHead.pic_h_l (c.headerAfter bmp)

/-- The file position from which the rows are read. -/
def dataStart (c : BmpCall) (bmp : Memory) : Nat :=
  BmpHead.seek (c.headerAfter bmp) c.header.length

/-- The size of the row buffer. -/
def rowCapacity (c : BmpCall) (bmp : Memory) : Nat :=
  if c.mallocOk then c.picWidth bmp * 3 else 0

/-- The file opens and has the letters of a bitmap file. -/
def Shows (c : BmpCall) (bmp : Memory) : Prop :=
  c.file.isSome ∧ BmpHead.isBmp (c.headerAfter bmp)

/-- All rows of the call. -/
def reads (c : BmpCall) (bmp : Memory) : List RowRead :=
  c.rowReads (c.picWidth bmp) (c.rowCapacity bmp) (c.picHeight bmp) (c.dataStart bmp) c.heap

/-- The window of the call. -/
def picWindow (c : BmpCall) (bmp : Memory) : Window :=
  bmpWindow c.point_x c.point_y (c.picWidth bmp) (c.picHeight bmp)

/-- The effects of a call that shows its file. -/
theorem showBmp_of_shows {c : BmpCall} {bmp : Memory} (h : c.Shows bmp) :
    c.showBmp bmp = .addressSet (c.picWindow bmp) :: .malloc (c.picWidth bmp * 3) ::
      (c.rows (c.picWidth bmp) (c.rowCapacity bmp) (c.picHeight bmp) (c.dataStart bmp) c.heap ++
        [.free]) :=
  if_pos h

theorem showBmp_of_not_shows {c : BmpCall} {bmp : Memory} (h : ¬c.Shows bmp) :
    c.showBmp bmp = [] :=
  if_neg h

/-- The half-words of a call. -/
theorem halfWords_showBmp {c : BmpCall} {bmp : Memory} (h : c.Shows bmp) :
    halfWords (c.showBmp bmp) =
      halfWords (c.rows (c.picWidth bmp) (c.rowCapacity bmp) (c.picHeight bmp) (c.dataStart bmp)
        c.heap) := by
  rw [showBmp_of_shows h]
  simp [halfWords]

/-- The call addresses one window. -/
theorem addressSet_mem_showBmp {c : BmpCall} {bmp : Memory} (h : c.Shows bmp) {w : Window} :
    BmpEffect.addressSet w ∈ c.showBmp bmp ↔ w = c.picWindow bmp := by
  rw [showBmp_of_shows h, rows_eq_flatMap]
  simp

/-- The reads of a call are those of its rows. -/
theorem readRow_mem_showBmp {c : BmpCall} {bmp : Memory} (h : c.Shows bmp) {n capacity : Nat} :
    BmpEffect.readRow n capacity ∈ c.showBmp bmp ↔
      ∃ r ∈ c.reads bmp, n = c.picWidth bmp * 3 ∧ capacity = r.capacity := by
  rw [showBmp_of_shows h, rows_eq_flatMap, reads]
  simp

/-- All rows are read into the same buffer. -/
theorem capacity_of_mem_rowReads {c : BmpCall} {w capacity n pos : Nat} {buffer : Memory}
    {r : RowRead} (hr : r ∈ c.rowReads w capacity n pos buffer) : r.capacity = capacity := by
  induction n generalizing pos buffer with
  | zero => exact absurd hr List.not_mem_nil
  | succ n ih =>
      rcases List.mem_cons.mp hr with rfl | hr
      · rfl
      · exact ih hr

/-- A row has room in its buffer when it was allocated. -/
theorem room_iff {c : BmpCall} {bmp : Memory} {r : RowRead} (hr : r ∈ c.reads bmp)
    (hw : 0 < c.picWidth bmp) : c.picWidth bmp * 3 ≤ r.capacity ↔ c.mallocOk = true := by
  rw [capacity_of_mem_rowReads hr, rowCapacity]
  split_ifs with hok
  · exact iff_of_true le_rfl hok
  · exact iff_of_false (by omega) hok

/-- A picture with at least one row is read from its first one on. -/
theorem exists_mem_reads {c : BmpCall} {bmp : Memory} (hh : 0 < c.picHeight bmp) :
    ∃ r, r ∈ c.reads bmp := by
  obtain ⟨n, hn⟩ := Nat.exists_eq_succ_of_ne_zero (Nat.ne_of_gt hh)
  rw [reads, hn]
  exact ⟨_, List.mem_cons_self⟩

/-- Every read delivers a whole row exactly when the file is long enough for all of them. -/
theorem whole_rowReads_iff {c : BmpCall} {w : Nat} (hw : 0 < w) (capacity n pos : Nat)
    (buffer : Memory) :
    (∀ r ∈ c.rowReads w capacity (n + 1) pos buffer, 3 * w ≤ r.data.length) ↔
      pos + 3 * (w * (n + 1)) ≤ (c.file.getD []).length := by
  have hdata (pos : Nat) : (readFile (c.file.getD []) pos (w * 3)).length =
      min (w * 3) ((c.file.getD []).length - pos) := by
    simp [readFile]
  induction n generalizing pos buffer with
  | zero =>
      simp only [rowReads, List.forall_mem_singleton, hdata]
      omega
  | succ n ih =>
      refine (List.forall_mem_cons.trans (and_congr_right' (ih _ _))).trans ?_
      simp only [hdata, Nat.mul_succ w (n + 1), Nat.mul_succ w n]
      omega

theorem whole_reads_iff {c : BmpCall} {bmp : Memory} (hw : 0 < c.picWidth bmp)
    (hh : 0 < c.picHeight bmp) :
    (∀ r ∈ c.reads bmp, 3 * c.picWidth bmp ≤ r.data.length) ↔
      c.dataStart bmp + 3 * (c.picWidth bmp * c.picHeight bmp) ≤ (c.file.getD []).length := by
  obtain ⟨n, hn⟩ := Nat.exists_eq_succ_of_ne_zero (Nat.ne_of_gt hh)
  rw [reads, hn]
  exact whole_rowReads_iff hw _ n _ _

end BmpCall

/-! ## Bitmap files -/

/-- A 32-bit field of a file. -/
def fileWord (file : List UInt8) (a : Nat) : Nat :=
  BmpHead.word (fileBytes file) a + 65536 * BmpHead.word (fileBytes file) (a + 2)

/-- Bytes of a row in a file, with its padding. -/
def rowStride (w : Nat) : Nat :=
  (3 * w + 3) / 4 * 4

/-- An uncompressed bitmap file of 24 bits per pixel with its rows from the bottom up. -/
structure Bmp24 (file : List UInt8) (w h off : Nat) : Prop where
  magic : BmpHead.isBmp (fileBytes file) = true
  offset : fileWord file 10 = off
  width : fileWord file 18 = w
  height : fileWord file 22 = h
  planes : BmpHead.word (fileBytes file) 26 = 1
  bits : BmpHead.word (fileBytes file) 28 = 24
  compression : fileWord file 30 = 0
  head : 54 ≤ off
  size : off + rowStride w * h ≤ file.length

/-- The place of a pixel in such a file, with its row counted from the top of the picture. -/
def pixelAddress (w h off col row : Nat) : Nat :=
  off + rowStride w * (h - 1 - row) + 3 * col

/-- Where the loop starts to read: the offset of the data, or what follows the header when
the offset is negative as a signed number. -/
def readStart (off : Nat) : Nat :=
  if off < 2147483648 then off else bmpHeadSize

/-- The colour of a pixel of the picture. -/
def pixelColour (file : List UInt8) (w h off col row : Nat) : Nat :=
  let a := pixelAddress w h off col row
  rgb565 (fileBytes file (a + 2)) (fileBytes file (a + 1)) (fileBytes file a)

/-- The picture is drawn as its format defines, whatever the panel showed and whatever
picture was shown before: no row overruns the buffer, and every pixel has its colour. -/
structure DrawnAsFormat (c : BmpCall) (file : List UInt8) (w h off : Nat) : Prop where
  fits : ∀ bmp n capacity, BmpEffect.readRow n capacity ∈ c.showBmp bmp → n ≤ capacity
  panel : ∀ bmp (s : Lcd), ∀ col < w, ∀ row < h,
    ((s.receiveAll ((c.draw bmp).flatMap Draw.events)).panel
      (c.point_x + col, c.point_y + row)).toNat = pixelColour file w h off col row

namespace Bmp24

variable {c : BmpCall} {file : List UInt8} {w h off : Nat}

/-- The call sees the header of the file. -/
theorem headerAfter (hpic : Bmp24 file w h off) (hfile : c.file = some file) (bmp : Memory) :
    ∀ i ∈ headerReads, c.headerAfter bmp i = fileBytes file i := by
  intro i hi
  have hi : i < 54 := (by decide : ∀ i ∈ headerReads, i < 54) i hi
  have hhead := hpic.head
  have hsize := hpic.size
  exact BmpCall.headerAfter_of_mem hfile bmp (Nat.lt_trans hi (by decide)) (by omega)

theorem shows (hpic : Bmp24 file w h off) (hfile : c.file = some file) (bmp : Memory) :
    c.Shows bmp :=
  ⟨by rw [hfile]; rfl, (BmpCall.isBmp_congr fun i hi =>
    hpic.headerAfter hfile bmp i (List.mem_append_left _ hi)).trans hpic.magic⟩

/-- And the size of the picture. -/
theorem size_eq (hpic : Bmp24 file w h off) (hfile : c.file = some file) (hw : w ≤ 240)
    (hh : h ≤ 240) (bmp : Memory) : c.picWidth bmp = w ∧ c.picHeight bmp = h := by
  rcases BmpCall.size_congr fun i hi => hpic.headerAfter hfile bmp i
    (List.mem_append_right [0, 1, 10, 11, 12, 13] hi) with ⟨hwidth, hheight⟩
  have hw' := hpic.width
  have hh' := hpic.height
  rw [BmpCall.picWidth, BmpCall.picHeight, hwidth, hheight]
  simp only [fileWord] at hw' hh'
  simp only [BmpHead.pic_w_l, BmpHead.pic_h_l]
  omega

/-- The position from which the call reads the rows. -/
theorem dataStart_eq (hpic : Bmp24 file w h off) (hfile : c.file = some file) (bmp : Memory) :
    c.dataStart bmp = readStart off := by
  have hsize := hpic.size
  have hheader : c.header.length = min bmpHeadSize file.length := by
    simp [BmpCall.header, hfile, readFile]
  have hoffset : 65536 * BmpHead.pic_data_address_h (fileBytes file) +
      BmpHead.pic_data_address_l (fileBytes file) = off :=
    (Nat.add_comm _ _).trans hpic.offset
  have hseek := BmpCall.seek_congr (fun i hi => hpic.headerAfter hfile bmp i
    (List.mem_append_right [0, 1] (List.mem_append_left [18, 19, 22, 23] hi))) c.header.length
  rw [BmpCall.dataStart, hseek, BmpHead.seek, hoffset, readStart]
  simp only [bmpHeadSize] at hheader ⊢
  split_ifs <;> omega

/-- The rows are in the file, in whatever order the loop takes them. -/
theorem rows_le_length (hpic : Bmp24 file w h off) :
    readStart off + 3 * (w * h) ≤ file.length := by
  have hsize := hpic.size
  have hstride : 3 * w * h ≤ rowStride w * h := by
    refine Nat.mul_le_mul_right h ?_
    simp only [rowStride]
    omega
  rw [Nat.mul_assoc] at hstride
  simp only [readStart, bmpHeadSize]
  split_ifs <;> omega

/-- The picture as one drawing call: the colours of the file in the order of the file. -/
theorem draw_eq (hpic : Bmp24 file w h off) (hfile : c.file = some file) (hw : w ≤ 240)
    (hh : h ≤ 240) (bmp : Memory) :
    c.draw bmp = [⟨some (bmpWindow c.point_x c.point_y w h),
      (gridPixels w h fun row col =>
        colorAt file (readStart off + 3 * (w * row + col))).map lcdWriteHalfWord⟩] := by
  have hshows := hpic.shows hfile bmp
  rcases hpic.size_eq hfile hw hh bmp with ⟨hwidth, hheight⟩
  have hrows := BmpCall.halfWords_showBmp hshows
  rw [hwidth, hheight, hpic.dataStart_eq hfile,
    BmpCall.halfWords_rows_of_complete hfile hw _ hpic.rows_le_length] at hrows
  rw [← hrows, ← hwidth, ← hheight]
  exact if_pos hshows

/-- What the panel shows after the call. -/
theorem panel_showBmp (hpic : Bmp24 file w h off) (hfile : c.file = some file)
    (hx : c.point_x + w ≤ 240) (hy : c.point_y + h ≤ 240) (bmp : Memory) (s : Lcd)
    {col row : Nat} (hcol : col < w) (hrow : row < h) :
    (s.receiveAll ((c.draw bmp).flatMap Draw.events)).panel (c.point_x + col, c.point_y + row) =
      colorAt file (readStart off + 3 * (w * row + col)) := by
  have hw : 0 < w := Nat.zero_lt_of_lt hcol
  have hh : 0 < h := Nat.zero_lt_of_lt hrow
  have hwindow := bmpWindow_of_fits hw hh hx hy
  rcases valid_of_fits hw hh hx hy with ⟨hvalid, harea⟩
  have hcontains : (⟨c.point_x, c.point_y, c.point_x + w - 1, c.point_y + h - 1⟩ : Window).Contains
      (c.point_x + col, c.point_y + row) := by
    simp only [Window.Contains]
    omega
  have hindex : (⟨c.point_x, c.point_y, c.point_x + w - 1, c.point_y + h - 1⟩ : Window).index
      (c.point_x + col, c.point_y + row) = col + w * row := by
    have hwidth : c.point_x + w - 1 + 1 - c.point_x = w := by omega
    rw [Window.index, Window.width, hwidth, Nat.add_sub_cancel_left, Nat.add_sub_cancel_left]
  rw [hpic.draw_eq hfile (by omega) (by omega), List.flatMap_singleton, hwindow,
    (s.receiveAll_draw (valid_map_lcdWriteHalfWord hvalid ?_)).2]
  · simp only [Canvas.paint, Draw.layer, pixels_map_lcdWriteHalfWord, Window.layer,
      if_pos hcontains, hindex, getElem?_gridPixels _ hrow hcol, Option.getD_some]
  · rw [length_gridPixels, harea]

/-- A picture whose rows need no padding is drawn upside down. -/
theorem panel_upside_down (hpic : Bmp24 file w h off) (hfile : c.file = some file)
    (hx : c.point_x + w ≤ 240) (hy : c.point_y + h ≤ 240) (hoff : off < 2147483648)
    (hpad : rowStride w = 3 * w) (bmp : Memory) (s : Lcd) {col row : Nat} (hcol : col < w)
    (hrow : row < h) :
    ((s.receiveAll ((c.draw bmp).flatMap Draw.events)).panel
      (c.point_x + col, c.point_y + row)).toNat = pixelColour file w h off col (h - 1 - row) := by
  have haddress : pixelAddress w h off col (h - 1 - row) = off + 3 * (w * row + col) := by
    have hmirror : h - 1 - (h - 1 - row) = row := by omega
    rw [pixelAddress, hpad, hmirror, Nat.mul_add, Nat.add_assoc, Nat.mul_assoc]
  rw [hpic.panel_showBmp hfile hx hy bmp s hcol hrow, readStart, if_pos hoff, colorAt,
    toNat_RGB888ToRGB565, pixelColour, haddress]

/-- The rows fit their buffer when it is allocated. -/
theorem fits_iff (hpic : Bmp24 file w h off) (hfile : c.file = some file) (hw : w ≤ 240)
    (hw' : 0 < w) (hh : h ≤ 240) (hh' : 0 < h) (bmp : Memory) :
    (∀ n capacity, BmpEffect.readRow n capacity ∈ c.showBmp bmp → n ≤ capacity) ↔
      c.mallocOk = true := by
  rcases hpic.size_eq hfile hw hh bmp with ⟨hwidth, hheight⟩
  have hpos : 0 < c.picWidth bmp := hwidth.symm ▸ hw'
  simp only [BmpCall.readRow_mem_showBmp (hpic.shows hfile bmp)]
  constructor
  · intro hfits
    obtain ⟨r, hr⟩ := BmpCall.exists_mem_reads (hheight.symm ▸ hh')
    exact (BmpCall.room_iff hr hpos).mp (hfits _ _ ⟨r, hr, rfl, rfl⟩)
  · rintro hok n capacity ⟨r, hr, rfl, rfl⟩
    exact (BmpCall.room_iff hr hpos).mpr hok

end Bmp24

/-- A bitmap file is drawn as its format defines exactly when the row buffer is allocated and
the bytes that the loop reads one after another, without the padding and from the first row of
the file on, give the colours of the picture from its top row down. -/
theorem drawnAsFormat_iff {c : BmpCall} {file : List UInt8} {w h off : Nat}
    (hfile : c.file = some file) (hpic : Bmp24 file w h off) (hw : 1 ≤ w ∧ w ≤ 240)
    (hh : 1 ≤ h ∧ h ≤ 240) (hx : c.point_x + w ≤ 240) (hy : c.point_y + h ≤ 240) :
    DrawnAsFormat c file w h off ↔
      c.mallocOk = true ∧ ∀ col < w, ∀ row < h,
        colorAt file (readStart off + 3 * (w * row + col)) =
          colorAt file (pixelAddress w h off col row) := by
  have hcolour (a : Nat) (col row : Nat) :
      (colorAt file a).toNat = pixelColour file w h off col row ↔
        colorAt file a = colorAt file (pixelAddress w h off col row) := by
    rw [← UInt16.toNat_inj]
    simp only [colorAt, toNat_RGB888ToRGB565, pixelColour]
  constructor
  · rintro ⟨hfits, hpanel⟩
    refine ⟨(hpic.fits_iff hfile hw.2 hw.1 hh.2 hh.1 (fun _ => 0)).mp (hfits _), ?_⟩
    intro col hcol row hrow
    -- What the panel showed before does not matter, so any panel will do.
    have hpixel := hpanel (fun _ => 0)
      ⟨false, 0, [], ⟨0, 0, 0, 0⟩, 0, 0, none, fun _ => 0⟩ col hcol row hrow
    rw [hpic.panel_showBmp hfile hx hy _ _ hcol hrow] at hpixel
    exact (hcolour _ _ _).mp hpixel
  · rintro ⟨hok, hrows⟩
    refine ⟨fun bmp => (hpic.fits_iff hfile hw.2 hw.1 hh.2 hh.1 bmp).mpr hok, ?_⟩
    intro bmp s col hcol row hrow
    rw [hpic.panel_showBmp hfile hx hy bmp s hcol hrow]
    exact (hcolour _ _ _).mpr (hrows col hcol row hrow)

/-- A bitmap file with the given width, height and rows. -/
def bmp24File (w h : UInt8) (rows : List UInt8) : List UInt8 :=
  [66, 77, 62, 0, 0, 0, 0, 0, 0, 0, 54, 0, 0, 0, 40, 0, 0, 0, w, 0, 0, 0, h, 0, 0, 0] ++
    [1, 0, 24, 0] ++ List.replicate 24 0 ++ rows

/-- A bitmap file of width 1 with the given height and rows. -/
def narrowBmp (h : UInt8) (rows : List UInt8) : List UInt8 :=
  bmp24File 1 h rows

/-- A picture of four columns, whose first and third row have the same colours on the panel. -/
def mirroredBmp : List UInt8 :=
  bmp24File 4 3 ([1, 2, 3, 40, 50, 60, 7, 80, 9, 250, 100, 0] ++
    [255, 255, 255, 0, 0, 0, 10, 20, 30, 64, 128, 192] ++
    [0, 1, 2, 41, 51, 61, 6, 81, 8, 251, 101, 1])

/-- Such a picture is drawn as its format defines. -/
theorem drawnAsFormat_mirrored :
    DrawnAsFormat ⟨12, 34, some mirroredBmp, true, fun _ => 0⟩ mirroredBmp 4 3 54 := by
  refine (drawnAsFormat_iff rfl ?_ (by decide) (by decide) (by decide) (by decide)).mpr
    ⟨rfl, by decide⟩
  exact ⟨by decide, by decide, by decide, by decide, by decide, by decide, by decide, by decide,
    by decide⟩

/-- A black row below a white one comes out above it. -/
theorem drawn_upside_down :
    ¬∀ (c : BmpCall) (file : List UInt8) (w h off : Nat), c.file = some file →
      Bmp24 file w h off → 1 ≤ w ∧ w ≤ 240 → 1 ≤ h ∧ h ≤ 240 → c.point_x + w ≤ 240 →
        c.point_y + h ≤ 240 → DrawnAsFormat c file w h off := by
  intro h
  have hpic : Bmp24 (narrowBmp 2 [0, 0, 0, 0, 255, 255, 255, 0]) 1 2 54 :=
    ⟨by decide, by decide, by decide, by decide, by decide, by decide, by decide, by decide,
      by decide⟩
  let c : BmpCall :=
    ⟨0, 0, some (narrowBmp 2 [0, 0, 0, 0, 255, 255, 255, 0]), true, fun _ => 0⟩
  have hpanel := (h c _ 1 2 54 rfl hpic (by decide) (by decide) (by decide) (by decide)).panel
    (fun _ => 0) ⟨false, 0, [], ⟨0, 0, 0, 0⟩, 0, 0, none, fun _ => 0⟩ 0 (by decide) 0 (by decide)
  rw [hpic.panel_showBmp rfl (by decide) (by decide) _ _ (by decide) (by decide)] at hpanel
  revert hpanel
  decide

/-! ## Any content -/

/-- The half-words of the row are computed from bytes that its read put into the buffer. -/
def RowRead.Supplied (r : RowRead) (w : Nat) : Prop :=
  ∀ tx < w, tx < 240 → 3 * tx + 2 < r.data.length ∧ 3 * tx + 2 < r.capacity

/-- The call addresses a window on the panel, sends no more half-words than it has pixels,
and computes each of them from bytes that were read for its row. -/
structure Harmless (c : BmpCall) (bmp : Memory) : Prop where
  window : ∀ w, BmpEffect.addressSet w ∈ c.showBmp bmp → w.Valid
  count : ∀ w, BmpEffect.addressSet w ∈ c.showBmp bmp →
    (BmpCall.halfWords (c.showBmp bmp)).length ≤ w.area
  supplied : c.Shows bmp → ∀ r ∈ c.reads bmp, r.Supplied (c.picWidth bmp)

/-- A row of at most 240 pixels is supplied when all of it was read. -/
theorem RowRead.supplied_iff (r : RowRead) {w : Nat} (hw : 0 < w) (hw' : w ≤ 240) :
    r.Supplied w ↔ 3 * w ≤ r.data.length ∧ 3 * w ≤ r.capacity := by
  constructor
  · intro h
    have hlast := h (w - 1) (by omega) (by omega)
    omega
  · intro h tx htx _
    omega

/-- The window of a call lies on the panel when the picture fits beside its position. -/
theorem BmpCall.valid_picWindow_iff (c : BmpCall) (bmp : Memory) :
    (c.picWindow bmp).Valid ↔ 1 ≤ c.picWidth bmp ∧ 1 ≤ c.picHeight bmp ∧
      c.point_x % 65536 + c.picWidth bmp ≤ 240 ∧ c.point_y % 65536 + c.picHeight bmp ≤ 240 := by
  have hlow (off : Nat) : BmpHead.word (c.headerAfter bmp) off < 65536 := by
    have h₀ := (c.headerAfter bmp off).toNat_lt
    have h₁ := (c.headerAfter bmp (off + 1)).toNat_lt
    rw [BmpHead.word]
    omega
  have hwidth : c.picWidth bmp < 65536 := hlow 18
  have hheight : c.picHeight bmp < 65536 := hlow 22
  simp only [BmpCall.picWindow, bmpWindow, Window.Valid, LCD_W, LCD_H]
  omega

/-- A valid window has as many pixels as the picture. -/
theorem BmpCall.area_picWindow {c : BmpCall} {bmp : Memory} (h : (c.picWindow bmp).Valid) :
    (c.picWindow bmp).area = c.picWidth bmp * c.picHeight bmp := by
  have hfit := (c.valid_picWindow_iff bmp).mp h
  simp only [BmpCall.picWindow, bmpWindow, Window.area, Window.width, Window.height]
  exact congrArg₂ (· * ·) (by omega) (by omega)

/-- A call that shows its file is harmless exactly when the picture has at least one pixel and
fits the panel, the row buffer is allocated, and the file holds all rows from the position to
which its header points. -/
theorem harmless_iff (c : BmpCall) (bmp : Memory) :
    Harmless c bmp ↔ (c.Shows bmp →
      1 ≤ c.picWidth bmp ∧ 1 ≤ c.picHeight bmp ∧
      c.point_x % 65536 + c.picWidth bmp ≤ 240 ∧ c.point_y % 65536 + c.picHeight bmp ≤ 240 ∧
      c.mallocOk = true ∧
      c.dataStart bmp + 3 * (c.picWidth bmp * c.picHeight bmp) ≤ (c.file.getD []).length) := by
  by_cases hshows : c.Shows bmp
  · rw [forall_prop_of_true hshows]
    have hvalid := c.valid_picWindow_iff bmp
    constructor
    · rintro ⟨hwindow, -, hsupplied⟩
      obtain ⟨hw, hh, hx, hy⟩ := hvalid.mp
        (hwindow _ ((BmpCall.addressSet_mem_showBmp hshows).mpr rfl))
      have hrow (r : RowRead) (hr : r ∈ c.reads bmp) :=
        (r.supplied_iff hw (by omega)).mp (hsupplied hshows r hr)
      -- The first row says whether there is a buffer.
      obtain ⟨r, hr⟩ := BmpCall.exists_mem_reads hh
      have hok := (BmpCall.room_iff hr hw).mp (by rw [Nat.mul_comm]; exact (hrow r hr).2)
      exact ⟨hw, hh, hx, hy, hok, (BmpCall.whole_reads_iff hw hh).mp fun r hr => (hrow r hr).1⟩
    · rintro ⟨hw, hh, hx, hy, hok, hlen⟩
      have hon := hvalid.mpr ⟨hw, hh, hx, hy⟩
      refine ⟨fun w hmem => ?_, fun w hmem => ?_, fun _ r hr => ?_⟩
      · rwa [(BmpCall.addressSet_mem_showBmp hshows).mp hmem]
      · rw [(BmpCall.addressSet_mem_showBmp hshows).mp hmem, BmpCall.area_picWindow hon,
          BmpCall.halfWords_showBmp hshows, BmpCall.length_halfWords_rows c (by omega)]
      · refine (r.supplied_iff hw (by omega)).mpr
          ⟨(BmpCall.whole_reads_iff hw hh).mpr hlen r hr, ?_⟩
        rw [Nat.mul_comm]
        exact (BmpCall.room_iff hr hw).mpr hok
  · -- Nothing is drawn.
    have hnone := BmpCall.showBmp_of_not_shows hshows
    refine ⟨fun _ h => absurd h hshows, fun _ => ⟨?_, ?_, fun h => absurd h hshows⟩⟩
    · rw [hnone]
      exact fun w hmem => absurd hmem List.not_mem_nil
    · rw [hnone]
      exact fun w hmem => absurd hmem List.not_mem_nil

/-- A picture file that ends after its header is drawn from what the buffer held before. -/
theorem truncated_picture : ¬∀ (c : BmpCall) (bmp : Memory), Harmless c bmp := by
  intro h
  let c : BmpCall := ⟨0, 0, some (narrowBmp 1 []), true, fun _ => 0⟩
  have hshows : c.Shows fun _ => 0 := ⟨rfl, by decide⟩
  have hheight : c.picHeight (fun _ => 0) = 1 := by decide
  have hwidth : c.picWidth (fun _ => 0) = 1 := by decide
  have hstart : c.dataStart (fun _ => 0) = 54 := by decide
  have hrow : ∃ r, r ∈ c.reads (fun _ => 0) ∧ r.data = [] := by
    rw [BmpCall.reads, hheight, hwidth, hstart]
    exact ⟨_, List.mem_cons_self, rfl⟩
  obtain ⟨r, hr, hdata⟩ := hrow
  have hbyte := (h c fun _ => 0).supplied hshows r hr 0 (hwidth ▸ Nat.one_pos) (by decide)
  rw [hdata] at hbyte
  exact absurd hbyte.1 (Nat.not_lt_zero _)

end WeatherStation
