import Mathlib.Algebra.Order.Field.Rat
import Mathlib.Algebra.Order.Field.Basic
import Mathlib.Algebra.Order.Ring.Abs
import Mathlib.Data.Int.SuccPred
import Mathlib.Tactic.FieldSimp
import Mathlib.Tactic.Linarith
import Mathlib.Tactic.Ring

/-!
# Digital lines by accumulated errors

An accumulator gains a fixed amount in every round and makes a step, which costs the
length of the longer axis, whenever it holds more than that.  Two of them, one for each
axis, trace a segment of the integer grid.  Nothing here depends on who draws the line.

Main results:

- Theorem {lit}`steps_succ`: the closed form of the number of steps follows the rounds.
- Theorem {lit}`steps_last`: after one round more than the longer axis is long, each axis
  has made all of its steps.
- Theorem {lit}`near_point`: every point is less than one pixel, along the shorter axis,
  from the segment.
-/

namespace Foundation

namespace DigitalLine

/-! ## One accumulator -/

/-- The steps of an accumulator in its first {lit}`k` rounds. -/
def steps (distance delta k : Nat) : Nat :=
  (k * delta - 1) / distance

/-- What the accumulator holds after them. -/
def residue (distance delta k : Nat) : Int :=
  k * delta - steps distance delta k * distance

@[simp] theorem steps_zero (distance delta : Nat) : steps distance delta 0 = 0 := by
  simp [steps]

@[simp] theorem residue_zero (distance delta : Nat) : residue distance delta 0 = 0 := by
  simp [residue]

/-- An accumulator that gains nothing makes no steps. -/
@[simp] theorem steps_zero_delta (distance k : Nat) : steps distance 0 k = 0 := by
  simp [steps]

section Accumulator

variable {distance delta : Nat}

/-- The steps so far are as many as the gains pay for, and the accumulator is never
emptied. -/
theorem steps_bounds (hdistance : 0 < distance) {k : Nat} (hgain : 0 < k * delta) :
    steps distance delta k * distance + 1 ≤ k * delta ∧
      k * delta ≤ steps distance delta k * distance + distance := by
  have hle := Nat.div_mul_le_self (k * delta - 1) distance
  have hlt := Nat.lt_div_mul_add (a := k * delta - 1) hdistance
  unfold steps
  omega

/-- A number of steps is determined by the bounds. -/
theorem steps_eq {k s : Nat} (hlow : s * distance + 1 ≤ k * delta)
    (hhigh : k * delta ≤ s * distance + distance) : steps distance delta k = s := by
  refine Nat.div_eq_of_lt_le (by omega) ?_
  rw [Nat.succ_mul]
  omega

/-- One round: a step is made exactly when the accumulator exceeds the distance. -/
theorem steps_succ (hdelta : delta ≤ distance) (k : Nat) :
    steps distance delta (k + 1) =
      if residue distance delta k + delta > distance then steps distance delta k + 1
      else steps distance delta k := by
  rcases Nat.eq_zero_or_pos delta with rfl | hpos
  · simp [residue]
  · have hsucc : (k + 1) * delta = k * delta + delta := Nat.succ_mul k delta
    have hcast : residue distance delta k =
        (k * delta : Nat) - (steps distance delta k * distance : Nat) := by
      unfold residue
      push_cast
      rfl
    rcases Nat.eq_zero_or_pos (k * delta) with hzero | hgain
    · obtain rfl : k = 0 := (Nat.mul_eq_zero.mp hzero).resolve_right (Nat.ne_of_gt hpos)
      rw [if_neg (by simpa using hdelta), steps_zero]
      exact steps_eq (by omega) (by omega)
    · rcases steps_bounds (Nat.lt_of_lt_of_le hpos hdelta) hgain with ⟨hlow, hhigh⟩
      have hpaid := Nat.add_one_mul (steps distance delta k) distance
      split_ifs with hstep
      · exact steps_eq (by omega) (by omega)
      · exact steps_eq (by omega) (by omega)

/-- What the accumulator holds after one more round. -/
theorem residue_succ (hdelta : delta ≤ distance) (k : Nat) :
    residue distance delta (k + 1) =
      if residue distance delta k + delta > distance then
        residue distance delta k + delta - distance
      else residue distance delta k + delta := by
  have hsteps := steps_succ hdelta k
  have hnow : residue distance delta (k + 1) =
      (k + 1 : Nat) * delta - steps distance delta (k + 1) * distance := rfl
  split_ifs at hsteps ⊢ with hstep
  · rw [hnow, hsteps, residue]
    push_cast
    ring
  · rw [hnow, hsteps, residue]
    push_cast
    ring

/-- A position that moves by {lit}`inc` with every step. -/
theorem walk_succ (hdelta : delta ≤ distance) (start inc : Int) (k : Nat) :
    start + inc * steps distance delta (k + 1) =
      if residue distance delta k + delta > distance then
        start + inc * steps distance delta k + inc
      else start + inc * steps distance delta k := by
  rw [steps_succ hdelta]
  split_ifs
  · rw [Nat.cast_succ, mul_add, mul_one, add_assoc]
  · rfl

/-- Steps are made one at a time. -/
theorem steps_succ_cases (hdelta : delta ≤ distance) (k : Nat) :
    steps distance delta (k + 1) = steps distance delta k ∨
      steps distance delta (k + 1) = steps distance delta k + 1 := by
  rw [steps_succ hdelta]
  split_ifs
  · exact .inr rfl
  · exact .inl rfl

/-- Steps are not taken back. -/
theorem steps_mono {k l : Nat} (h : k ≤ l) : steps distance delta k ≤ steps distance delta l :=
  Nat.div_le_div_right (Nat.sub_le_sub_right (Nat.mul_le_mul_right _ h) 1)

/-- After one round more than the distance all steps are made. -/
theorem steps_last (hdelta : delta ≤ distance) : steps distance delta (distance + 1) = delta := by
  rcases Nat.eq_zero_or_pos delta with rfl | hpos
  · exact steps_zero_delta _ _
  · have hgain : (distance + 1) * delta = delta * distance + delta := by
      rw [Nat.succ_mul, Nat.mul_comm]
    exact steps_eq (by omega) (by omega)

/-- The longer axis makes a step in every round but the first. -/
theorem steps_full (hdistance : 0 < distance) (k : Nat) :
    steps distance distance k = k - 1 := by
  cases k with
  | zero => exact steps_zero _ _
  | succ k =>
      have hgain : (k + 1) * distance = k * distance + distance := Nat.succ_mul k distance
      exact steps_eq (by rw [Nat.add_sub_cancel]; omega) (by rw [Nat.add_sub_cancel]; omega)

/-- Behind the longer axis an accumulator is less than one step ahead or behind. -/
theorem steps_near (hdistance : 0 < distance) (hdelta : delta ≤ distance) (k : Nat) :
    |(steps distance delta k : Int) * distance - (k - 1 : Nat) * delta| < distance := by
  rcases Nat.eq_zero_or_pos (k * delta) with hzero | hgain
  · rcases Nat.mul_eq_zero.mp hzero with rfl | rfl <;> simpa using hdistance
  · obtain ⟨k, rfl⟩ := Nat.exists_eq_succ_of_ne_zero (Nat.pos_of_mul_pos_right hgain).ne'
    have hpos : 0 < delta := Nat.pos_of_mul_pos_left hgain
    rcases steps_bounds hdistance hgain with ⟨hlow, hhigh⟩
    rw [Nat.succ_mul] at hlow hhigh
    rw [abs_lt, Nat.succ_sub_one, ← Nat.cast_mul, ← Nat.cast_mul]
    omega

end Accumulator

/-! ## A segment of the grid -/

/-- A point of the integer grid. -/
abbrev Point := Int × Int

/-- The length of the longer axis of a segment. -/
def length (p q : Point) : Nat :=
  max (q.1 - p.1).natAbs (q.2 - p.2).natAbs

/-- One coordinate after {lit}`k` rounds, on the way from {lit}`a` to {lit}`b`. -/
def coordinate (distance : Nat) (a b : Int) (k : Nat) : Int :=
  a + (b - a).sign * steps distance (b - a).natAbs k

/-- The point after {lit}`k` rounds. -/
def point (p q : Point) (k : Nat) : Point :=
  (coordinate (length p q) p.1 q.1 k, coordinate (length p q) p.2 q.2 k)

/-- The points differ by at most one in each coordinate. -/
def Adjacent (p q : Point) : Prop :=
  |q.1 - p.1| ≤ 1 ∧ |q.2 - p.2| ≤ 1

/-- The point lies in the bounding box of a segment. -/
def InBox (p q r : Point) : Prop :=
  (min p.1 q.1 ≤ r.1 ∧ r.1 ≤ max p.1 q.1) ∧ min p.2 q.2 ≤ r.2 ∧ r.2 ≤ max p.2 q.2

/-- The first coordinate of the segment where its second one is {lit}`y`. -/
def idealX (p q : Point) (y : Int) : Rat :=
  p.1 + (y - p.2) * ((q.1 - p.1) / (q.2 - p.2))

/-- The second coordinate of the segment where its first one is {lit}`x`. -/
def idealY (p q : Point) (x : Int) : Rat :=
  p.2 + (x - p.1) * ((q.2 - p.2) / (q.1 - p.1))

/-- The point is less than one pixel from the segment, along the shorter axis. -/
def Near (p q r : Point) : Prop :=
  if |q.1 - p.1| ≤ |q.2 - p.2| then |r.1 - idealX p q r.2| < 1
  else |r.2 - idealY p q r.1| < 1

section Coordinate

variable {distance : Nat} {a b : Int}

theorem coordinate_zero : coordinate distance a b 0 = a := by
  simp [coordinate]

theorem coordinate_last (h : (b - a).natAbs ≤ distance) :
    coordinate distance a b (distance + 1) = b := by
  rw [coordinate, steps_last h, Int.sign_mul_natAbs]
  omega

/-- The coordinate of the longer axis moves on in every round but the first. -/
theorem coordinate_full (a b : Int) (k : Nat) :
    coordinate (b - a).natAbs a b (k + 1) = a + (b - a).sign * k := by
  rcases Nat.eq_zero_or_pos (b - a).natAbs with hzero | hpos
  · rw [Int.natAbs_eq_zero] at hzero
    simp [coordinate, hzero]
  · rw [coordinate, steps_full hpos, Nat.add_sub_cancel]

/-- A coordinate changes by at most one in a round. -/
theorem coordinate_succ (h : (b - a).natAbs ≤ distance) (k : Nat) :
    |coordinate distance a b (k + 1) - coordinate distance a b k| ≤ 1 := by
  have hsign : |(b - a).sign| ≤ 1 := by
    rcases Int.sign_trichotomy (b - a) with hs | hs | hs <;> rw [hs] <;> decide
  unfold coordinate
  rcases steps_succ_cases h k with hsame | hnext
  · simp [hsame]
  · rw [hnext]
    push_cast
    rw [mul_add, mul_one, add_sub_add_left_eq_sub, add_sub_cancel_left]
    exact hsign

/-- A coordinate stays between its ends. -/
theorem coordinate_mem (h : (b - a).natAbs ≤ distance) {k : Nat} (hk : k ≤ distance + 1) :
    min a b ≤ coordinate distance a b k ∧ coordinate distance a b k ≤ max a b := by
  have hsteps : steps distance (b - a).natAbs k ≤ (b - a).natAbs := by
    calc steps distance (b - a).natAbs k
        ≤ steps distance (b - a).natAbs (distance + 1) := steps_mono hk
      _ = (b - a).natAbs := steps_last h
  unfold coordinate
  rcases Int.lt_trichotomy a b with hlt | heq | hgt
  · rw [Int.sign_eq_one_of_pos (by omega)]
    omega
  · subst heq
    simp
  · rw [Int.sign_eq_neg_one_of_neg (by omega)]
    omega

theorem cast_eq_sign_mul_natAbs (n : Int) : (n : Rat) = n.sign * n.natAbs := by
  have h : ((n.sign * (n.natAbs : Int) : Int) : Rat) = n := by rw [Int.sign_mul_natAbs]
  rwa [Int.cast_mul, Int.cast_natCast, eq_comm] at h

/-- Where the longer axis stands, the other coordinate is less than one from the segment. -/
theorem coordinate_near {c d : Int} (hlong : (b - a).natAbs ≤ (d - c).natAbs) (hne : c ≠ d)
    (k : Nat) :
    |(coordinate (d - c).natAbs a b k : Rat) -
      (a + ((coordinate (d - c).natAbs c d k : Int) - c) * ((b - a) / (d - c)))| < 1 := by
  have hdistance : 0 < (d - c).natAbs := Int.natAbs_pos.mpr (sub_ne_zero.mpr hne.symm)
  have hnear := steps_near hdistance hlong k
  have hfull := steps_full hdistance k
  have hb := cast_eq_sign_mul_natAbs (b - a)
  have hd := cast_eq_sign_mul_natAbs (d - c)
  have hsign : ((d - c).sign : Rat) = 1 ∨ ((d - c).sign : Rat) = -1 := by
    rcases Int.lt_or_gt_of_ne (sub_ne_zero.mpr hne.symm) with hneg | hpos
    · exact .inr (by rw [Int.sign_eq_neg_one_of_neg hneg]; norm_num)
    · exact .inl (by rw [Int.sign_eq_one_of_pos hpos]; norm_num)
  rw [Int.cast_sub] at hb hd
  unfold coordinate
  rw [hfull, hb, hd]
  generalize (d - c).natAbs = distance at *
  generalize (b - a).natAbs = delta at *
  generalize steps distance delta k = s at *
  have hpos : (0 : Rat) < distance := by exact_mod_cast hdistance
  -- The difference is what the two accumulators hold, divided by the distance.
  have hdiff : ((a + (b - a).sign * (s : Int) : Int) : Rat) -
      (a + (((c + (d - c).sign * ((k - 1 : Nat) : Int) : Int) : Rat) - c) *
        ((b - a).sign * delta / ((d - c).sign * distance))) =
      (b - a).sign * (((s : Int) * distance - (k - 1 : Nat) * delta : Int) / distance) := by
    push_cast
    rcases hsign with hs | hs <;> rw [hs] <;> field_simp <;> ring
  have hunit : |((b - a).sign : Rat)| ≤ 1 := by
    rcases Int.sign_trichotomy (b - a) with hs | hs | hs <;> rw [hs] <;> norm_num
  have hsmall : |((s : Int) * distance - (k - 1 : Nat) * delta : Int) / (distance : Rat)|
      < 1 := by
    rw [abs_div, abs_of_pos hpos, div_lt_one hpos]
    exact_mod_cast hnear
  rw [hdiff, abs_mul]
  calc |((b - a).sign : Rat)| * _ ≤ 1 * _ := mul_le_mul_of_nonneg_right hunit (abs_nonneg _)
    _ < 1 := by rwa [one_mul]

end Coordinate

/-! ## The points of a line -/

section Line

variable {p q : Point}

theorem length_pos (hne : p ≠ q) : 0 < length p q := by
  unfold length
  by_contra hzero
  refine hne (Prod.ext ?_ ?_) <;> omega

theorem point_zero (p q : Point) : point p q 0 = p := by
  simp [point, coordinate_zero]

/-- The line ends at the end of the segment. -/
theorem point_last (p q : Point) : point p q (length p q + 1) = q := by
  refine Prod.ext ?_ ?_
  · exact coordinate_last (le_max_left _ _)
  · exact coordinate_last (le_max_right _ _)

/-- The line has no gaps. -/
theorem adjacent_point (p q : Point) (k : Nat) :
    Adjacent (point p q k) (point p q (k + 1)) :=
  ⟨coordinate_succ (le_max_left _ _) k, coordinate_succ (le_max_right _ _) k⟩

theorem inBox_point {k : Nat} (hk : k ≤ length p q + 1) : InBox p q (point p q k) :=
  ⟨coordinate_mem (le_max_left _ _) hk, coordinate_mem (le_max_right _ _) hk⟩

/-- Every point of the line is near the segment. -/
theorem near_point (hne : p ≠ q) (k : Nat) : Near p q (point p q k) := by
  rcases p with ⟨x1, y1⟩
  rcases q with ⟨x2, y2⟩
  unfold Near
  simp only [Int.abs_eq_natAbs, Nat.cast_le]
  split_ifs with haxis
  · have hlength : length (x1, y1) (x2, y2) = (y2 - y1).natAbs := max_eq_right haxis
    have hy : y1 ≠ y2 := by
      rintro rfl
      have hpos := length_pos hne
      simp [hlength] at hpos
    rw [point, hlength]
    exact coordinate_near haxis hy k
  · have hlength : length (x1, y1) (x2, y2) = (x2 - x1).natAbs := max_eq_left (by omega)
    have hx : x1 ≠ x2 := by
      rintro rfl
      simp at haxis
    rw [point, hlength]
    exact coordinate_near (by omega) hx k

end Line

end DigitalLine

end Foundation
