import Mathlib.Data.List.Range
import WeatherStation.Display.Glyph
import WeatherStation.Foundation.DigitalLine

/-!
# Lines

{lit}`lcd_draw_line` traces a line with two error accumulators.  For horizontal lines it
has a fast path, which sends the whole line from a buffer of 480 bytes.

Main results:

- Theorem {lit}`line_digital`: between end points on different rows the function draws a
  digital line from one end to the other.
- Theorem {lit}`fast_line_differs`: the fast path never colours the pixels of the general
  loop; from right to left it leaves its buffer, otherwise it misses the last pixel.
-/

open Foundation

namespace WeatherStation

/-! ## The general loop -/

/-- The points that the general loop of {lit}`lcd_draw_line` draws. -/
def generalPoints (x1 y1 x2 y2 : Nat) : List (Nat × Nat) :=
  let delta_x : Int := x2 - x1
  let delta_y : Int := y2 - y1
  let distance := max delta_x.natAbs delta_y.natAbs
  linePoints delta_x.natAbs delta_y.natAbs distance delta_x.sign delta_y.sign
    (distance + 2) ⟨x1, y1, 0, 0⟩

/-- The drawing calls of the general loop. -/
def generalLine (fore : UInt16) (x1 y1 x2 y2 : Nat) : List Draw :=
  (generalPoints x1 y1 x2 y2).map fun p => lcdDrawPoint fore p.1 p.2

theorem lcdDrawLine_of_ne (fore : UInt16) {x1 y1 x2 y2 : Nat} (h : y1 ≠ y2) :
    lcdDrawLine fore x1 y1 x2 y2 = some (generalLine fore x1 y1 x2 y2) :=
  if_neg h

/-- A pixel as a point of the grid. -/
def gridPoint (p : Nat × Nat) : DigitalLine.Point :=
  (p.1, p.2)

/-- The variables of the loop after {lit}`k` rounds. -/
def lineState (x y incx incy : Int) (delta_x delta_y distance k : Nat) : LineState where
  row := x + incx * DigitalLine.steps distance delta_x k
  col := y + incy * DigitalLine.steps distance delta_y k
  xerr := DigitalLine.residue distance delta_x k
  yerr := DigitalLine.residue distance delta_y k

/-- One round of the loop moves on to the next state. -/
theorem lineState_succ (x y incx incy : Int) {delta_x delta_y distance : Nat}
    (hx : delta_x ≤ distance) (hy : delta_y ≤ distance) (k : Nat) :
    lineState x y incx incy delta_x delta_y distance (k + 1) =
      let s := lineState x y incx incy delta_x delta_y distance k
      { row := if s.xerr + delta_x > distance then s.row + incx else s.row
        col := if s.yerr + delta_y > distance then s.col + incy else s.col
        xerr := if s.xerr + delta_x > distance then s.xerr + delta_x - distance
          else s.xerr + delta_x
        yerr := if s.yerr + delta_y > distance then s.yerr + delta_y - distance
          else s.yerr + delta_y } := by
  simp only [lineState, DigitalLine.walk_succ hx, DigitalLine.walk_succ hy,
    DigitalLine.residue_succ hx, DigitalLine.residue_succ hy]
  rfl

/-- The loop draws where its accumulators stand. -/
theorem linePoints_lineState (x y incx incy : Int) {delta_x delta_y distance : Nat}
    (hx : delta_x ≤ distance) (hy : delta_y ≤ distance) (n k : Nat) :
    linePoints delta_x delta_y distance incx incy n
        (lineState x y incx incy delta_x delta_y distance k) =
      (List.range n).map fun i =>
        let s := lineState x y incx incy delta_x delta_y distance (k + i)
        ((s.row % 65536).toNat, (s.col % 65536).toNat) := by
  induction n generalizing k with
  | zero => rfl
  | succ n ih =>
      have hnext := ih (k + 1)
      rw [lineState_succ x y incx incy hx hy] at hnext
      rw [linePoints, List.range_succ_eq_map, List.map_cons, List.map_map]
      refine congrArg₂ List.cons rfl (hnext.trans ?_)
      refine List.map_congr_left fun i _ => ?_
      simp only [Function.comp_apply, Nat.succ_eq_add_one, Nat.add_assoc, Nat.add_comm 1 i]

/-- The general loop draws the points of a digital line. -/
theorem map_generalPoints {x1 y1 x2 y2 : Nat} (hx1 : x1 < 240) (hy1 : y1 < 240)
    (hx2 : x2 < 240) (hy2 : y2 < 240) :
    (generalPoints x1 y1 x2 y2).map gridPoint =
      (List.range (DigitalLine.length (x1, y1) (x2, y2) + 2)).map
        (DigitalLine.point (x1, y1) (x2, y2)) := by
  have hstart : (⟨x1, y1, 0, 0⟩ : LineState) =
      lineState x1 y1 (x2 - x1 : Int).sign (y2 - y1 : Int).sign (x2 - x1 : Int).natAbs
        (y2 - y1 : Int).natAbs (max (x2 - x1 : Int).natAbs (y2 - y1 : Int).natAbs) 0 := by
    simp [lineState]
  simp only [generalPoints, hstart]
  rw [linePoints_lineState _ _ _ _ (le_max_left _ _) (le_max_right _ _), List.map_map]
  refine List.map_congr_left fun k hk => ?_
  obtain ⟨⟨hx, hx'⟩, hy, hy'⟩ := DigitalLine.inBox_point (p := (x1, y1)) (q := (x2, y2))
    (Nat.lt_succ_iff.mp (List.mem_range.mp hk))
  simp only [Function.comp_apply, gridPoint, Nat.zero_add]
  refine Prod.ext ?_ ?_
  · change (((DigitalLine.point (x1, y1) (x2, y2) k).1 % 65536).toNat : Int) = _
    generalize (DigitalLine.point (x1, y1) (x2, y2) k).1 = x at *
    omega
  · change (((DigitalLine.point (x1, y1) (x2, y2) k).2 % 65536).toNat : Int) = _
    generalize (DigitalLine.point (x1, y1) (x2, y2) k).2 = y at *
    omega

theorem gridPoint_injective : Function.Injective gridPoint := by
  rintro ⟨x, y⟩ ⟨x', y'⟩ h
  simpa [gridPoint] using h

/-- Between end points on different rows the points begin at the first and end at the
second end point, leave no gaps, and lie in the bounding box of the end points and less
than one pixel from the segment between them. -/
theorem line_digital (fore : UInt16) {x1 y1 x2 y2 : Nat} (hx1 : x1 < 240) (hy1 : y1 < 240)
    (hx2 : x2 < 240) (hy2 : y2 < 240) (hne : y1 ≠ y2) :
    lcdDrawLine fore x1 y1 x2 y2 =
        some ((generalPoints x1 y1 x2 y2).map fun p => lcdDrawPoint fore p.1 p.2) ∧
      (generalPoints x1 y1 x2 y2).head? = some (x1, y1) ∧
      (generalPoints x1 y1 x2 y2).getLast? = some (x2, y2) ∧
      ((generalPoints x1 y1 x2 y2).map gridPoint).IsChain DigitalLine.Adjacent ∧
      ∀ p ∈ generalPoints x1 y1 x2 y2,
        DigitalLine.InBox (x1, y1) (x2, y2) (gridPoint p) ∧
          DigitalLine.Near (x1, y1) (x2, y2) (gridPoint p) := by
  have hpoints := map_generalPoints hx1 hy1 hx2 hy2
  have hends : gridPoint (x1, y1) ≠ gridPoint (x2, y2) := fun h =>
    hne (Prod.ext_iff.mp (gridPoint_injective h)).2
  refine ⟨lcdDrawLine_of_ne fore hne, ?_, ?_, ?_, ?_⟩
  · have hhead := congrArg List.head? hpoints
    rw [List.head?_map, List.head?_map, List.head?_range, if_neg (by omega), Option.map_some,
      DigitalLine.point_zero] at hhead
    exact Option.map_injective gridPoint_injective hhead
  · have hlast := congrArg List.getLast? hpoints
    rw [List.getLast?_map, List.getLast?_map, List.getLast?_range, if_neg (by omega),
      Option.map_some] at hlast
    exact Option.map_injective gridPoint_injective
      (hlast.trans (congrArg some (DigitalLine.point_last _ _)))
  · rw [hpoints, List.isChain_map]
    exact (List.isChain_range_succ _ _).mpr fun k _ => DigitalLine.adjacent_point _ _ k
  · intro p hp
    have hmem := List.mem_map_of_mem (f := gridPoint) hp
    rw [hpoints] at hmem
    rcases List.mem_map.mp hmem with ⟨k, hk, hpoint⟩
    rw [← hpoint]
    exact ⟨DigitalLine.inBox_point (Nat.lt_succ_iff.mp (List.mem_range.mp hk)),
      DigitalLine.near_point hends k⟩

/-- A steep line that goes up from right to left. -/
theorem line_digital_steep :
    (generalPoints 7 200 5 3).head? = some (7, 200) ∧
      (generalPoints 7 200 5 3).getLast? = some (5, 3) :=
  have h := @line_digital 0 7 200 5 3 (by decide) (by decide)
    (by decide) (by decide) (by decide)
  ⟨h.2.1, h.2.2.1⟩

/-! ## The fast path -/

/-- The pixels of a row from one column to another, in either order. -/
def RowPixel (x1 x2 y : Nat) (p : Nat × Nat) : Prop :=
  min x1 x2 ≤ p.1 ∧ p.1 ≤ max x1 x2 ∧ p.2 = y

/-- A point is one pixel. -/
theorem isSome_lcdDrawPoint {fore : UInt16} {x y : Nat} {p : Nat × Nat} :
    ((lcdDrawPoint fore x y).layer p).isSome ↔ p = (x, y) := by
  have hfull : (⟨x, y, x, y⟩ : Window).area ≤ (lcdDrawPoint fore x y).pixels.length := by
    simp [Window.area, Window.width, Window.height, lcdDrawPoint, Draw.pixels, lcdWriteHalfWord]
  change (Window.layer ⟨x, y, x, y⟩ _ p).isSome ↔ _
  rw [Window.isSome_layer hfull, Prod.ext_iff]
  simp only [Window.Contains]
  omega

theorem covered_generalLine {fore : UInt16} {x1 y1 x2 y2 : Nat} {p : Nat × Nat} :
    Canvas.Covered ((generalLine fore x1 y1 x2 y2).map Draw.layer) p ↔
      p ∈ generalPoints x1 y1 x2 y2 := by
  simp only [Canvas.Covered, generalLine, List.map_map, List.mem_map, Function.comp_apply]
  constructor
  · rintro ⟨l, ⟨q, hq, rfl⟩, hcover⟩
    rwa [isSome_lcdDrawPoint.mp hcover]
  · exact fun hp => ⟨_, ⟨p, hp, rfl⟩, isSome_lcdDrawPoint.mpr rfl⟩

/-- On one row the general loop colours every pixel between the end points. -/
theorem mem_generalPoints_row {x1 x2 y : Nat} (hx1 : x1 < 240) (hx2 : x2 < 240) (hy : y < 240)
    {p : Nat × Nat} : p ∈ generalPoints x1 y x2 y ↔ RowPixel x1 x2 y p := by
  have hpoints := map_generalPoints hx1 hy hx2 hy
  have hlength : DigitalLine.length (x1, y) (x2, y) = (x2 - x1 : Int).natAbs := by
    simp [DigitalLine.length]
  rw [← List.mem_map_of_injective gridPoint_injective, hpoints, hlength]
  simp only [List.mem_map, List.mem_range]
  constructor
  · rintro ⟨k, hk, hpoint⟩
    obtain ⟨⟨hx, hx'⟩, hrow, hrow'⟩ :=
      DigitalLine.inBox_point (p := (x1, y)) (q := (x2, y)) (k := k) (by rw [hlength]; omega)
    rw [hpoint] at hx hx' hrow hrow'
    simp only [gridPoint] at hx hx' hrow hrow'
    exact ⟨by omega, by omega, by omega⟩
  · rintro ⟨hx, hx', hrow⟩
    refine ⟨(p.1 - x1 : Int).natAbs + 1, by omega, Prod.ext ?_ ?_⟩
    · have hcol := DigitalLine.coordinate_full x1 x2 (p.1 - x1 : Int).natAbs
      rw [DigitalLine.point, hlength, hcol]
      rcases Int.lt_trichotomy (x2 - x1) 0 with hlt | heq | hgt
      · rw [Int.sign_eq_neg_one_of_neg hlt]
        simp only [gridPoint]
        omega
      · rw [heq, Int.sign_zero]
        simp only [gridPoint]
        omega
      · rw [Int.sign_eq_one_of_pos hgt]
        simp only [gridPoint]
        omega
    · simp [DigitalLine.point, DigitalLine.coordinate, gridPoint, hrow]

/-- The rounds of the loop that fills the line buffer: its unsigned index is compared with a
signed difference. -/
def lineBufRounds (x1 x2 : Nat) : Nat :=
  ((x2 - x1 : Int) % 4294967296).toNat

/-- The fast path stays inside its line buffer. -/
def InsideLineBuf (x1 x2 : Nat) : Prop :=
  ∀ i < lineBufRounds x1 x2, 2 * i + 1 < 480

/-- The drawing call of the fast path. -/
def fastLine (fore : UInt16) (x1 y x2 : Nat) : Draw :=
  ⟨some ⟨x1, y, x2, y⟩, [⟨true, List.replicate (x2 - x1) fore⟩]⟩

/-- From right to left the loop runs on far beyond the buffer. -/
theorem insideLineBuf_iff {x1 x2 : Nat} (hx1 : x1 < 240) (hx2 : x2 < 240) :
    InsideLineBuf x1 x2 ↔ x1 ≤ x2 := by
  unfold InsideLineBuf lineBufRounds
  constructor
  · intro h
    by_contra hlt
    have := h 240 (by omega)
    omega
  · intro h i hi
    omega

/-- The function returns to its caller as modelled exactly when the fast path stays inside
its line buffer. -/
theorem lcdDrawLine_row (fore : UInt16) {x1 x2 : Nat} (hx1 : x1 < 240) (hx2 : x2 < 240)
    (y : Nat) :
    lcdDrawLine fore x1 y x2 y = if x1 ≤ x2 then some [fastLine fore x1 y x2] else none := by
  rw [lcdDrawLine, if_pos rfl]
  by_cases h : x1 ≤ x2
  · rw [if_pos ⟨h, by omega⟩, if_pos h]
    rfl
  · rw [if_neg fun hboth => h hboth.1, if_neg h]

/-- From left to right the fast path colours all pixels of the row but the last one. -/
theorem covered_fastLine {fore : UInt16} {x1 x2 y : Nat} (h : x1 ≤ x2) {p : Nat × Nat} :
    ((fastLine fore x1 y x2).layer p).isSome ↔ RowPixel x1 x2 y p ∧ p ≠ (x2, y) := by
  have hpixels : (fastLine fore x1 y x2).pixels = List.replicate (x2 - x1) fore := by
    simp [fastLine, Draw.pixels]
  change (Window.layer ⟨x1, y, x2, y⟩ (fastLine fore x1 y x2).pixels p).isSome ↔ _
  rw [hpixels, Window.layer, RowPixel, Ne, Prod.ext_iff]
  by_cases hp : (⟨x1, y, x2, y⟩ : Window).Contains p
  · have hsent (k : Nat) : (List.replicate (x2 - x1) fore)[k]?.isSome ↔ k < x2 - x1 := by simp
    rw [if_pos hp, hsent]
    simp only [Window.Contains] at hp
    have hrow : p.2 - y = 0 := by omega
    simp only [Window.index, hrow]
    omega
  · rw [if_neg hp]
    simp only [Window.Contains] at hp
    simp only [Option.isSome_none, Bool.false_eq_true, false_iff]
    omega

/-- The fast path does what the general loop of the function does for the same end points:
it stays inside its line buffer and colours the same pixels. -/
structure FastLineAgrees (fore : UInt16) (x1 x2 y : Nat) : Prop where
  inside : InsideLineBuf x1 x2
  colours : ∃ ds, lcdDrawLine fore x1 y x2 y = some ds ∧
    ∀ p, Canvas.Covered (ds.map Draw.layer) p ↔
      Canvas.Covered ((generalLine fore x1 y x2 y).map Draw.layer) p

/-- The general loop colours the pixels of the row between the end points, in either order.
The fast path does so for no end points: from right to left it runs out of its line buffer,
and otherwise it leaves out the last pixel, which is the only one of a single point. -/
theorem fast_line_differs (fore : UInt16) {x1 x2 y : Nat} (hx1 : x1 < 240) (hx2 : x2 < 240)
    (hy : y < 240) :
    (∀ p, Canvas.Covered ((generalLine fore x1 y x2 y).map Draw.layer) p ↔ RowPixel x1 x2 y p) ∧
      ¬FastLineAgrees fore x1 x2 y ∧
      (InsideLineBuf x1 x2 ↔ x1 ≤ x2) ∧
      (x1 ≤ x2 → ∃ ds, lcdDrawLine fore x1 y x2 y = some ds ∧
        ∀ p, Canvas.Covered (ds.map Draw.layer) p ↔ RowPixel x1 x2 y p ∧ p ≠ (x2, y)) := by
  have hgeneral (p : Nat × Nat) :
      Canvas.Covered ((generalLine fore x1 y x2 y).map Draw.layer) p ↔ RowPixel x1 x2 y p := by
    rw [covered_generalLine, mem_generalPoints_row hx1 hx2 hy]
  have hinside := insideLineBuf_iff hx1 hx2
  have hfast (hle : x1 ≤ x2) (p : Nat × Nat) :
      Canvas.Covered ([fastLine fore x1 y x2].map Draw.layer) p ↔
        RowPixel x1 x2 y p ∧ p ≠ (x2, y) := by
    rw [← @covered_fastLine fore x1 x2 y hle]
    simp [Canvas.Covered]
  have hrow (hle : x1 ≤ x2) : lcdDrawLine fore x1 y x2 y = some [fastLine fore x1 y x2] := by
    rw [lcdDrawLine_row fore hx1 hx2, if_pos hle]
  refine ⟨hgeneral, ?_, hinside, fun hle => ⟨_, hrow hle, hfast hle⟩⟩
  rintro ⟨hin, ds, hds, hcolours⟩
  have hle := hinside.mp hin
  obtain rfl : [fastLine fore x1 y x2] = ds := Option.some.inj ((hrow hle).symm.trans hds)
  -- The last pixel of the row.
  have hlast : RowPixel x1 x2 y (x2, y) := ⟨by omega, by omega, rfl⟩
  exact ((hfast hle _).mp ((hcolours _).mpr ((hgeneral _).mpr hlast))).2 rfl

/-- The line of the weather screen, which ends one pixel early. -/
theorem fast_line_differs_screen : ¬FastLineAgrees 0 18 224 130 :=
  (@fast_line_differs 0 18 224 130 (by decide) (by decide) (by decide)).2.1

/-- A single point is not drawn. -/
theorem fast_line_point :
    ¬∀ (fore : UInt16) (x1 x2 y : Nat), x1 < 240 → x2 < 240 → y < 240 →
      FastLineAgrees fore x1 x2 y := by
  intro h
  obtain ⟨-, ds, hds, hcolours⟩ := h 0 5 5 7 (by decide) (by decide) (by decide)
  rw [lcdDrawLine_row 0 (by decide) (by decide), if_pos (by decide)] at hds
  obtain rfl := Option.some.inj hds
  have hpoint := (hcolours (5, 7)).mpr (covered_generalLine.mpr (by decide))
  revert hpoint
  simp [Canvas.Covered, fastLine, Draw.layer, Draw.pixels, Window.layer]

end WeatherStation
