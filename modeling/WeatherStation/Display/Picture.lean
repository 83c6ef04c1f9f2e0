import Mathlib.Tactic.Ring
import WeatherStation.Display.Bmp
import WeatherStation.Display.Glyph

/-!
# Pictures shown without interruption

A call of {lit}`Show_BMP` that no other call interrupts, as the list of its effects
and as one drawing call.

Main results:

- Theorem {lit}`showBmp_alone`: executing the statements one by one ends with these
  effects.
- Theorem {lit}`draw_of_complete`: the picture of a file with a complete header does
  not depend on the pictures shown before it.
- Theorem {lit}`valid_draw`, {lit}`covered_draw`: a picture that fits the panel fills its
  window, whatever its data.
-/

open Foundation

namespace WeatherStation

/-! ## The loops -/

/-- The colour of a column of the row in the buffer. -/
def bmpPixel (buffer : Memory) (tx : Nat) : UInt16 :=
  RGB888ToRGB565 (buffer (tx * 3 + 2)) (buffer (tx * 3 + 1)) (buffer (tx * 3))

/-- The half-words of the first columns of a row; columns from 240 on are not drawn. -/
def bmpColumns (buffer : Memory) (n : Nat) : List UInt16 :=
  (List.range n).flatMap fun tx => if tx < 240 then [bmpPixel buffer tx] else []

namespace BmpCall

/-- The rows from a file position and buffer content on: each row is read over the
buffer and drawn. -/
def rows (c : BmpCall) (w capacity : Nat) : Nat → Nat → Memory → List BmpEffect
  | 0, _, _ => []
  | n + 1, pos, buffer =>
      let data := readFile (c.file.getD []) pos (w * 3)
      let buffer := buffer.write 0 data
      .readRow (w * 3) capacity :: (bmpColumns buffer w).map .halfWord ++
        rows c w capacity n (pos + data.length) buffer

/-- The effects of {lit}`Show_BMP` when it runs alone, for the header that was there
before. -/
def showBmp (c : BmpCall) (bmp : Memory) : List BmpEffect :=
  let bmp := c.headerAfter bmp
  let w := BmpHead.pic_w_l bmp
  let h := BmpHead.pic_h_l bmp
  if c.file.isSome ∧ BmpHead.isBmp bmp then
    [.addressSet (bmpWindow c.point_x c.point_y w h), .malloc (w * 3)] ++
      c.rows w (if c.mallocOk then w * 3 else 0) h (BmpHead.seek bmp c.header.length) c.heap ++
      [.free]
  else []

/-! ## Executing the statements -/

variable {c : BmpCall}

/-- The call stands at a statement of the loops, with the given header and locals;
{lit}`point` and the locals of one column can be anything. -/
def At (x : BmpState) (pc : Pc) (bmp : Memory) (pos capacity : Nat) (buffer : Memory)
    (ty tx : Nat) (effects : List BmpEffect) : Prop :=
  ∃ point r g b color,
    x = ⟨⟨bmp, point⟩, ⟨pc, pos, capacity, buffer, ty, tx, r, g, b, color, effects⟩⟩

section Loops

variable {x : BmpState} {bmp buffer : Memory} {pos capacity ty tx : Nat} {effects : List BmpEffect}

/-- One round of the inner loop draws one column, or skips it. -/
theorem column_round (h : At x .colTest bmp pos capacity buffer ty tx effects)
    (htx : tx < BmpHead.pic_w_l bmp) :
    ∃ n, At (c.run n x) .colTest bmp pos capacity buffer ty (tx + 1)
      (effects ++ if tx < 240 then [.halfWord (bmpPixel buffer tx)] else []) := by
  rcases h with ⟨point, r, g, b, color, rfl⟩
  by_cases hclip : tx < 240
  · refine ⟨12, ?_⟩
    simp only [run, step, htx, if_true, hclip]
    exact ⟨_, _, _, _, _, rfl⟩
  · refine ⟨5, ?_⟩
    simp only [run, step, htx, if_true, hclip, if_false, List.append_nil]
    exact ⟨_, _, _, _, _, rfl⟩

/-- The inner loop draws the columns from the first one on. -/
theorem columns_run (h : At x .colTest bmp pos capacity buffer ty 0 effects) {n : Nat}
    (hn : n ≤ BmpHead.pic_w_l bmp) :
    ∃ k, At (c.run k x) .colTest bmp pos capacity buffer ty n
      (effects ++ (bmpColumns buffer n).map .halfWord) := by
  induction n with
  | zero => exact ⟨0, by simpa [bmpColumns, run] using h⟩
  | succ n ih =>
      rcases ih (by omega) with ⟨k, hk⟩
      rcases column_round (c := c) hk (by omega) with ⟨k', hk'⟩
      refine ⟨k + k', ?_⟩
      rw [run_add]
      have hsplit : (bmpColumns buffer (n + 1)).map BmpEffect.halfWord =
          (bmpColumns buffer n).map .halfWord ++
            if n < 240 then [.halfWord (bmpPixel buffer n)] else [] := by
        simp only [bmpColumns, List.range_succ, List.flatMap_append, List.map_append,
          List.flatMap_singleton]
        split_ifs <;> rfl
      rwa [hsplit, ← List.append_assoc]

/-- After the last column the inner loop goes on to the next row. -/
theorem column_end (h : At x .colTest bmp pos capacity buffer ty tx effects)
    (htx : ¬tx < BmpHead.pic_w_l bmp) :
    At (c.run 1 x) .rowTest bmp pos capacity buffer (ty + 1) tx effects := by
  rcases h with ⟨point, r, g, b, color, rfl⟩
  simp only [run, step, htx, if_false]
  exact ⟨_, _, _, _, _, rfl⟩

/-- The outer loop reads and draws the remaining rows and releases the buffer. -/
theorem rows_run {n : Nat} (h : At x .rowTest bmp pos capacity buffer ty tx effects)
    (hn : ty + n = BmpHead.pic_h_l bmp) :
    ∃ k, (c.run k x).locals.pc = .done ∧ (c.run k x).locals.effects =
      effects ++ c.rows (BmpHead.pic_w_l bmp) capacity n pos buffer ++ [.free] := by
  induction n generalizing x pos buffer ty tx effects with
  | zero =>
      rcases h with ⟨point, r, g, b, color, rfl⟩
      have hend : ¬ty < BmpHead.pic_h_l bmp := by omega
      refine ⟨3, ?_⟩
      simp only [run, step, hend, if_false, rows, List.append_nil, and_self]
  | succ n ih =>
      have hmore : ty < BmpHead.pic_h_l bmp := by omega
      have hread : At (c.run 2 x) .colTest bmp
          (pos + (readFile (c.file.getD []) pos (BmpHead.pic_w_l bmp * 3)).length) capacity
          (buffer.write 0 (readFile (c.file.getD []) pos (BmpHead.pic_w_l bmp * 3))) ty 0
          (effects ++ [.readRow (BmpHead.pic_w_l bmp * 3) capacity]) := by
        rcases h with ⟨point, r, g, b, color, rfl⟩
        simp only [run, step, hmore, if_true]
        exact ⟨_, _, _, _, _, rfl⟩
      rcases columns_run (c := c) hread le_rfl with ⟨k, hk⟩
      obtain ⟨tx', hnext⟩ : ∃ tx', At (c.run (2 + k + 1) x) .rowTest bmp
          (pos + (readFile (c.file.getD []) pos (BmpHead.pic_w_l bmp * 3)).length) capacity
          (buffer.write 0 (readFile (c.file.getD []) pos (BmpHead.pic_w_l bmp * 3))) (ty + 1) tx'
          (effects ++ [.readRow (BmpHead.pic_w_l bmp * 3) capacity] ++
            (bmpColumns (buffer.write 0 (readFile (c.file.getD []) pos (BmpHead.pic_w_l bmp * 3)))
              (BmpHead.pic_w_l bmp)).map .halfWord) := by
        rw [run_add, run_add]
        exact ⟨_, column_end hk (Nat.lt_irrefl _)⟩
      rcases ih hnext (by omega) with ⟨k', hpc, heffects⟩
      refine ⟨2 + k + 1 + k', ?_⟩
      rw [run_add]
      refine ⟨hpc, heffects.trans ?_⟩
      simp only [rows, List.append_assoc, List.cons_append, List.nil_append]

end Loops

/-- Executed statement by statement and without interruption the call ends with
these effects. -/
theorem showBmp_alone (c : BmpCall) (g : BmpGlobals) :
    ∃ n, (c.run n ⟨g, c.start⟩).locals.pc = .done ∧
      (c.run n ⟨g, c.start⟩).locals.effects = c.showBmp g.bmp := by
  cases hfile : c.file with
  | none => exact ⟨1, by simp [run, step, start, showBmp, hfile]⟩
  | some file =>
      by_cases hbmp : BmpHead.isBmp (c.headerAfter g.bmp)
      · have hloop : At (c.run 6 ⟨g, c.start⟩) .rowTest (c.headerAfter g.bmp)
            (BmpHead.seek (c.headerAfter g.bmp) c.header.length)
            (if c.mallocOk then BmpHead.pic_w_l (c.headerAfter g.bmp) * 3 else 0) c.heap 0 0
            [.addressSet (bmpWindow c.point_x c.point_y
                (BmpHead.pic_w_l (c.headerAfter g.bmp)) (BmpHead.pic_h_l (c.headerAfter g.bmp))),
              .malloc (BmpHead.pic_w_l (c.headerAfter g.bmp) * 3)] := by
          have hmagic : BmpHead.isBmp (g.bmp.write 0 c.header) = true := hbmp
          simp only [run, step, start, hfile, Option.isSome_some, if_true, hmagic]
          exact ⟨_, _, _, _, _, rfl⟩
        rcases rows_run (c := c) hloop (Nat.zero_add _) with ⟨k, hpc, heffects⟩
        refine ⟨6 + k, ?_⟩
        rw [run_add]
        refine ⟨hpc, heffects.trans ?_⟩
        simp [showBmp, hfile, hbmp]
      · refine ⟨4, ?_⟩
        have hmagic : ¬BmpHead.isBmp (g.bmp.write 0 c.header) = true := hbmp
        simp [run, step, start, showBmp, hfile, hmagic, hbmp]

/-! ## Pictures as drawing calls -/

/-- The half-words among the effects of a call. -/
def halfWords (es : List BmpEffect) : List UInt16 :=
  es.filterMap fun
    | .halfWord c => some c
    | _ => none

/-- The drawing call of a picture: none when its file is missing or no bitmap. -/
def draw (c : BmpCall) (bmp : Memory) : List Draw :=
  if c.file.isSome ∧ BmpHead.isBmp (c.headerAfter bmp) then
    [{ window :=
        some (bmpWindow c.point_x c.point_y
          (BmpHead.pic_w_l (c.headerAfter bmp)) (BmpHead.pic_h_l (c.headerAfter bmp)))
       sends := (halfWords (c.showBmp bmp)).map lcdWriteHalfWord }]
  else []

theorem draw_of_none {c : BmpCall} (h : c.file = none) (bmp : Memory) : c.draw bmp = [] := by
  simp [draw, h]

theorem halfWords_map (cs : List UInt16) : halfWords (cs.map .halfWord) = cs := by
  simp [halfWords, List.filterMap_map]

theorem length_bmpColumns (buffer : Memory) {n : Nat} (hn : n ≤ 240) :
    (bmpColumns buffer n).length = n := by
  rw [bmpColumns, List.length_flatMap]
  have hone : ∀ tx ∈ List.range n,
      (if tx < 240 then [bmpPixel buffer tx] else []).length = 1 := by
    intro tx htx
    have hclip : tx < 240 := Nat.lt_of_lt_of_le (List.mem_range.mp htx) hn
    rw [if_pos hclip, List.length_singleton]
  rw [List.map_congr_left hone]
  simp

/-- Rows of at most 240 columns give one half-word for each pixel. -/
theorem length_halfWords_rows (c : BmpCall) {w : Nat} (hw : w ≤ 240) (capacity n pos : Nat)
    (buffer : Memory) : (halfWords (c.rows w capacity n pos buffer)).length = w * n := by
  induction n generalizing pos buffer with
  | zero => simp [rows, halfWords]
  | succ n ih =>
      have hrow (buffer : Memory) :
          (halfWords ((bmpColumns buffer w).map .halfWord)).length = w := by
        rw [halfWords_map, length_bmpColumns buffer hw]
      simp only [halfWords] at hrow ih
      simp only [rows, halfWords, List.cons_append, List.filterMap_cons, List.filterMap_append,
        List.length_append, hrow, ih]
      ring

/-- The drawing call depends on the bytes of the header that the call looks at. -/
theorem draw_congr (c : BmpCall) {bmp bmp' : Memory}
    (h : ∀ i ∈ headerReads, c.headerAfter bmp i = c.headerAfter bmp' i) :
    c.draw bmp = c.draw bmp' := by
  have hmagic := isBmp_congr fun i hi => h i (List.mem_append_left _ hi)
  have hseek := seek_congr fun i hi => h i
    (List.mem_append_right [0, 1] (List.mem_append_left [18, 19, 22, 23] hi))
  rcases size_congr fun i hi => h i
    (List.mem_append_right [0, 1, 10, 11, 12, 13] hi) with ⟨hw, hh⟩
  simp only [draw, showBmp, hmagic, hseek, hw, hh]

end BmpCall

/-- A file as a memory, zero beyond its end. -/
def fileBytes (file : List UInt8) : Memory :=
  fun a => file.getD a 0

/-- A bitmap file of the given size with a complete header. -/
structure Picture (file : List UInt8) (w h : Nat) : Prop where
  size : bmpHeadSize ≤ file.length
  magic : BmpHead.isBmp (fileBytes file) = true
  width : BmpHead.pic_w_l (fileBytes file) = w
  height : BmpHead.pic_h_l (fileBytes file) = h

/-- The window of a picture that fits the panel. -/
theorem bmpWindow_of_fits {x y w h : Nat} (hw : 0 < w) (hh : 0 < h) (hx : x + w ≤ 240)
    (hy : y + h ≤ 240) : bmpWindow x y w h = ⟨x, y, x + w - 1, y + h - 1⟩ := by
  simp only [bmpWindow, Window.mk.injEq]
  omega

/-- It is valid and has as many pixels as the picture. -/
theorem valid_of_fits {x y w h : Nat} (hw : 0 < w) (hh : 0 < h) (hx : x + w ≤ 240)
    (hy : y + h ≤ 240) :
    (⟨x, y, x + w - 1, y + h - 1⟩ : Window).Valid ∧
      (⟨x, y, x + w - 1, y + h - 1⟩ : Window).area = w * h := by
  constructor
  · simp only [Window.Valid, LCD_W, LCD_H]
    omega
  · simp only [Window.area, Window.width, Window.height]
    congr 1 <;> omega

namespace BmpCall

variable {c : BmpCall} {file : List UInt8} {w h : Nat}

/-- What the file supplies of the header replaces the one before. -/
theorem headerAfter_of_mem (hfile : c.file = some file) (bmp : Memory) {i : Nat}
    (hi : i < bmpHeadSize) (hlen : i < file.length) : c.headerAfter bmp i = fileBytes file i := by
  have hheader : c.header.length = min bmpHeadSize file.length := by
    simp [header, hfile, readFile]
  rw [headerAfter, Memory.write_of_mem _ (by omega)]
  simp [header, hfile, readFile, fileBytes, hi]

/-- The header of a complete file does not depend on the one before. -/
theorem headerAfter_of_complete (hfile : c.file = some file) (hsize : bmpHeadSize ≤ file.length)
    (bmp : Memory) {i : Nat} (hi : i < bmpHeadSize) :
    c.headerAfter bmp i = fileBytes file i :=
  headerAfter_of_mem hfile bmp hi (Nat.lt_of_lt_of_le hi hsize)

/-- The picture of a complete file is the same whatever header was there before. -/
theorem draw_of_complete (hfile : c.file = some file) (hsize : bmpHeadSize ≤ file.length)
    (bmp bmp' : Memory) : c.draw bmp = c.draw bmp' := by
  refine draw_congr c fun i hi => ?_
  have hi : i < bmpHeadSize := (by decide : ∀ i ∈ headerReads, i < bmpHeadSize) i hi
  rw [headerAfter_of_complete hfile hsize bmp hi, headerAfter_of_complete hfile hsize bmp' hi]

/-- A picture that fits the panel is one drawing call that fills its window. -/
theorem draw_of_picture (hfile : c.file = some file) (hpic : Picture file w h) (hw : 0 < w)
    (hh : 0 < h) (hx : c.point_x + w ≤ 240) (hy : c.point_y + h ≤ 240) (bmp : Memory) :
    ∃ cs : List UInt16, c.draw bmp =
        [⟨some ⟨c.point_x, c.point_y, c.point_x + w - 1, c.point_y + h - 1⟩,
          cs.map lcdWriteHalfWord⟩] ∧
      cs.length = w * h := by
  have hhead : ∀ i ∈ headerReads, c.headerAfter bmp i = fileBytes file i := fun i hi =>
    headerAfter_of_complete hfile hpic.size bmp
      ((by decide : ∀ i ∈ headerReads, i < bmpHeadSize) i hi)
  have hmagic : BmpHead.isBmp (c.headerAfter bmp) = true :=
    (isBmp_congr fun i hi => hhead i (List.mem_append_left _ hi)).trans hpic.magic
  rcases size_congr fun i hi => hhead i
    (List.mem_append_right [0, 1, 10, 11, 12, 13] hi) with ⟨hwidth, hheight⟩
  rw [hpic.width] at hwidth
  rw [hpic.height] at hheight
  have hwindow := bmpWindow_of_fits hw hh hx hy
  refine ⟨halfWords (c.showBmp bmp), ?_, ?_⟩
  · simp only [draw, hfile, hmagic, hwidth, hheight, hwindow, Option.isSome_some, and_self, if_true]
  · simp only [showBmp, hfile, hmagic, hwidth, hheight, Option.isSome_some, and_self, if_true]
    have hrows := length_halfWords_rows c (w := w) (by omega) (if c.mallocOk then w * 3 else 0) h
      (BmpHead.seek (c.headerAfter bmp) c.header.length) c.heap
    simp only [halfWords] at hrows ⊢
    simp only [List.cons_append, List.filterMap_cons, List.filterMap_append, List.nil_append,
      List.filterMap_nil, List.append_nil, hrows]

/-- Such a picture is a valid drawing call. -/
theorem valid_draw (hfile : c.file = some file) (hpic : Picture file w h) (hw : 0 < w)
    (hh : 0 < h) (hx : c.point_x + w ≤ 240) (hy : c.point_y + h ≤ 240) (bmp : Memory) :
    ∀ d ∈ c.draw bmp, d.Valid := by
  rcases draw_of_picture hfile hpic hw hh hx hy bmp with ⟨cs, hdraw, hlen⟩
  rcases valid_of_fits hw hh hx hy with ⟨hvalid, harea⟩
  rw [hdraw]
  refine List.forall_mem_singleton.mpr (valid_map_lcdWriteHalfWord hvalid ?_)
  rw [harea, hlen]

end BmpCall

end WeatherStation
