import Mathlib.Data.Nat.Bitwise

/-!
# Shift loops

A loop that looks at one end of a word and then shifts the word by one bit, so that the
bits come past one after another.  The words are of any type; {lit}`val` gives the number
that a word stands for.

Main results:

- Theorem {lit}`shiftLoop_of_shiftRight`: a loop that shifts right sees the bits of the word
  from the lowest one on.
- Theorem {lit}`shiftLoop_of_shiftLeft`: a loop over words of {lit}`w` bits that shifts left
  sees them from the highest one on.
-/

namespace Foundation

variable {σ β : Type*}

/-- What the first {lit}`n` rounds of the loop see: {lit}`look` is the value that a round
takes from the word, {lit}`shift` is the word of the next round. -/
def shiftLoop (look : σ → β) (shift : σ → σ) : Nat → σ → List β
  | 0, _ => []
  | n + 1, s => look s :: shiftLoop look shift n (shift s)

section Rules

variable {look : σ → β} {shift : σ → σ}

@[simp] theorem length_shiftLoop (n : Nat) (s : σ) :
    (shiftLoop look shift n s).length = n := by
  induction n generalizing s with
  | zero => rfl
  | succ n ih => rw [shiftLoop, List.length_cons, ih]

/-- The rounds see the values of the first word in order, when a shift moves each of the
first {lit}`w` values one place down and a round looks at place zero. -/
theorem shiftLoop_eq_map (value : σ → Nat → β) {w : Nat} (hlook : ∀ s, look s = value s 0)
    (hshift : ∀ s k, k + 1 < w → value (shift s) k = value s (k + 1)) {n : Nat} (hn : n ≤ w)
    (s : σ) : shiftLoop look shift n s = (List.range n).map (value s) := by
  induction n generalizing s with
  | zero => rfl
  | succ n ih =>
      rw [shiftLoop, hlook, ih (Nat.le_of_succ_le hn), List.range_succ_eq_map, List.map_cons,
        List.map_map]
      congr 1
      refine List.map_congr_left fun k hk => ?_
      have hk := List.mem_range.mp hk
      exact hshift s k (by omega)

end Rules

/-! ## Bits -/

/-- The test of one bit with a mask. -/
theorem and_two_pow_ne_zero (m k : Nat) : m &&& 2 ^ k ≠ 0 ↔ m.testBit k = true := by
  rw [Nat.and_two_pow]
  cases m.testBit k <;> simp

/-- In a word of {lit}`w` bits a shift to the left moves every bit but the highest one up. -/
theorem testBit_shiftLeft_one_mod (m : Nat) {w k : Nat} (hk : k + 1 < w) :
    (m <<< 1 % 2 ^ w).testBit (w - 1 - k) = m.testBit (w - 1 - (k + 1)) := by
  have hlow : w - 1 - k < w := by omega
  have hup : w - 1 - k ≥ 1 := by omega
  rw [Nat.testBit_mod_two_pow, Nat.testBit_shiftLeft, decide_eq_true hlow, decide_eq_true hup,
    Bool.true_and, Bool.true_and, Nat.sub_sub (w - 1)]

section Words

variable (val : σ → Nat) {look : σ → β} {shift : σ → σ} (f : Bool → β)

/-- A loop that tests the lowest bit and shifts right sees the bits from the lowest one on. -/
theorem shiftLoop_of_shiftRight (hlook : ∀ s, look s = f ((val s).testBit 0))
    (hshift : ∀ s, val (shift s) = val s >>> 1) (n : Nat) (s : σ) :
    shiftLoop look shift n s = (List.range n).map fun k => f ((val s).testBit k) := by
  refine shiftLoop_eq_map (fun s k => f ((val s).testBit k)) hlook (fun s k _ => ?_) le_rfl s
  rw [hshift, Nat.testBit_shiftRight, Nat.add_comm]

/-- A loop over words of {lit}`w` bits that tests the highest bit and shifts left sees the
bits from the highest one on. -/
theorem shiftLoop_of_shiftLeft {w : Nat} (hlook : ∀ s, look s = f ((val s).testBit (w - 1)))
    (hshift : ∀ s, val (shift s) = val s <<< 1 % 2 ^ w) {n : Nat} (hn : n ≤ w) (s : σ) :
    shiftLoop look shift n s = (List.range n).map fun k => f ((val s).testBit (w - 1 - k)) := by
  refine shiftLoop_eq_map (fun s k => f ((val s).testBit (w - 1 - k))) hlook
    (fun s k hk => ?_) hn s
  rw [hshift, testBit_shiftLeft_one_mod _ hk]

end Words

end Foundation
