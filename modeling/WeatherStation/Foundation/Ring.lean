import Mathlib.Logic.Function.Basic
import Mathlib.Tactic.Common

/-!
# Rings of slots

The slots of a ring are used from a read index up to a write index; both go round.  One slot
stays free, so that equal indices mean an empty ring.

Main results:

- Theorem {lit}`next_eq_iff`: the write index runs into the read index when all slots but one
  are used.
- Theorem {lit}`contents_of_ne`: the value at the read index is the first one.
- Theorem {lit}`contents_update_next`: a value that is put at the write index becomes the last
  one.
-/

namespace Foundation

namespace Ring

variable {k : Nat}

/-- The slot behind a slot; the last one is followed by the first. -/
def next (i : Fin k) : Fin k :=
  if h : i.val + 1 < k then ⟨i.val + 1, h⟩ else ⟨0, i.pos⟩

/-- The number of used slots between the two indices. -/
def used (r w : Fin k) : Nat :=
  if r.val ≤ w.val then w.val - r.val else w.val + k - r.val

theorem val_next (i : Fin k) : (next i).val = if i.val + 1 < k then i.val + 1 else 0 := by
  unfold next
  split_ifs <;> rfl

theorem next_injective : Function.Injective (next (k := k)) := by
  intro i j h
  have hval := congrArg Fin.val h
  rw [val_next, val_next] at hval
  apply Fin.ext
  have hi := i.isLt
  have hj := j.isLt
  split_ifs at hval <;> omega

theorem used_lt (r w : Fin k) : used r w < k := by
  have hr := r.isLt
  have hw := w.isLt
  unfold used
  split_ifs <;> omega

/-- Equal indices mean an empty ring. -/
theorem used_eq_zero_iff {r w : Fin k} : used r w = 0 ↔ r = w := by
  have hr := r.isLt
  rw [Fin.ext_iff, used]
  split_ifs <;> omega

/-- Moving the read index gives a slot free. -/
theorem used_next_left {r w : Fin k} (h : r ≠ w) : used (next r) w + 1 = used r w := by
  have hr := r.isLt
  have hw := w.isLt
  have hne : r.val ≠ w.val := Fin.val_ne_of_ne h
  rw [used, used, val_next]
  split_ifs <;> omega

/-- The write index runs into the read index when all slots but one are used. -/
theorem next_eq_iff {r w : Fin k} : next w = r ↔ used r w = k - 1 := by
  have hr := r.isLt
  have hw := w.isLt
  rw [Fin.ext_iff, val_next, used]
  split_ifs <;> omega

/-! ## Slots in use -/

/-- The given number of slots from an index on. -/
def slotsFrom : Fin k → Nat → List (Fin k)
  | _, 0 => []
  | r, n + 1 => r :: slotsFrom (next r) n

/-- The slots in use, in order. -/
def slots (r w : Fin k) : List (Fin k) :=
  slotsFrom r (used r w)

@[simp] theorem length_slots (r w : Fin k) : (slots r w).length = used r w := by
  have hlen (n : Nat) : ∀ r : Fin k, (slotsFrom r n).length = n := by
    induction n with
    | zero => exact fun _ => rfl
    | succ n ih => exact fun r => congrArg (· + 1) (ih (next r))
  exact hlen _ r

@[simp] theorem slots_self (r : Fin k) : slots r r = [] := by
  rw [slots, used_eq_zero_iff.mpr rfl, slotsFrom]

theorem slots_of_ne {r w : Fin k} (h : r ≠ w) : slots r w = r :: slots (next r) w := by
  rw [slots, ← used_next_left h, slotsFrom, slots]

/-- The slots in use as a list, from the first one on. -/
theorem slots_induction {w : Fin k} {P : Fin k → Prop} (self : P w)
    (step : ∀ r, r ≠ w → P (next r) → P r) (r : Fin k) : P r := by
  generalize hn : used r w = n
  induction n generalizing r with
  | zero => rwa [used_eq_zero_iff.mp hn]
  | succ n ih =>
      have hne : r ≠ w := fun heq => by
        rw [used_eq_zero_iff.mpr heq] at hn
        omega
      have hused := used_next_left hne
      exact step r hne (ih (next r) (by omega))

/-- The slot at the write index is free. -/
theorem notMem_slots (r w : Fin k) : w ∉ slots r w := by
  induction r using slots_induction (w := w) with
  | self => simp
  | step r hne ih =>
      rw [slots_of_ne hne, List.mem_cons]
      exact not_or.mpr ⟨hne.symm, ih⟩

/-- Moving the write index appends its slot. -/
theorem slots_next_right {r w : Fin k} (h : next w ≠ r) : slots r (next w) = slots r w ++ [w] := by
  revert h
  induction r using slots_induction (w := w) with
  | self =>
      intro h
      rw [slots_of_ne h.symm, slots_self, slots_self]
      rfl
  | step r hne ih =>
      intro h
      rw [slots_of_ne h.symm, slots_of_ne hne, List.cons_append,
        ih fun heq => hne (next_injective heq).symm]

/-! ## Contents -/

section Contents

variable {α : Type*} (f : Fin k → α)

/-- The values in the used slots, in order. -/
def contents (r w : Fin k) : List α :=
  (slots r w).map f

theorem length_contents (r w : Fin k) : (contents f r w).length = used r w := by
  rw [contents, List.length_map, length_slots]

@[simp] theorem contents_self (r : Fin k) : contents f r r = [] := by
  rw [contents, slots_self, List.map_nil]

/-- The value at the read index is the first one. -/
theorem contents_of_ne {r w : Fin k} (h : r ≠ w) :
    contents f r w = f r :: contents f (next r) w := by
  rw [contents, slots_of_ne h, List.map_cons, contents]

/-- A value that is put at the write index becomes the last one. -/
theorem contents_update_next {r w : Fin k} (h : next w ≠ r) (x : α) :
    contents (Function.update f w x) r (next w) = contents f r w ++ [x] := by
  have hold : (slots r w).map (Function.update f w x) = (slots r w).map f := by
    refine List.map_congr_left fun i hi => Function.update_of_ne ?_ _ _
    rintro rfl
    exact notMem_slots r i hi
  rw [contents, slots_next_right h, List.map_append, hold, List.map_singleton,
    Function.update_self, contents]

end Contents

end Ring

end Foundation
