import Mathlib.Data.Nat.Bitwise
import Mathlib.Tactic.Common

/-!
# UTF-8 and UTF-16 by shifts and masks

Programs build the bytes of a code point by masking six bits at a time and
setting marker bits, and join surrogates the same way.  These are the values that
this gives.

Main results:

- Theorem {lit}`or_and_continuation`: a continuation byte holds the low six bits.
- Theorem {lit}`or_mark`: a marker above the bits of a number is added to it.
- Theorem {lit}`join_surrogates`: the code point of a surrogate pair.
-/

namespace Foundation

namespace Utf8

/-- A marker above the bits of a number is added to it. -/
theorem or_mark {n k : Nat} (m : Nat) (h : n < 2 ^ k) : n ||| m * 2 ^ k = m * 2 ^ k + n := by
  rw [Nat.or_comm, ← Nat.shiftLeft_eq, Nat.shiftLeft_add_eq_or_of_lt h]

/-- A continuation byte holds the low six bits below its marker. -/
theorem or_and_continuation (n : Nat) : (n ||| 0x80) &&& 0xBF = n % 64 + 0x80 := by
  have hlow : n % 64 ||| 0x80 = n % 64 + 0x80 := by
    rw [Nat.add_comm]
    exact or_mark (k := 6) 2 (Nat.mod_lt n (by decide))
  rw [← hlow]
  have hmark (i : Nat) : Nat.testBit 0x80 i = decide (7 = i) :=
    Nat.testBit_two_pow (n := 7)
  have hmask (i : Nat) : Nat.testBit 0xBF i = decide (i < 6 ∨ i = 7) := by
    rcases Nat.lt_or_ge i 8 with hi | hi
    · revert i
      decide
    · have hlt : 0xBF < 2 ^ i :=
        calc 0xBF < 2 ^ 8 := by decide
          _ ≤ 2 ^ i := Nat.pow_le_pow_right (by decide) hi
      rw [Nat.testBit_lt_two_pow hlt, eq_comm, decide_eq_false_iff_not]
      omega
  apply Nat.eq_of_testBit_eq
  intro i
  rw [show n % 64 = n % 2 ^ 6 from rfl, Nat.testBit_and, Nat.testBit_or, Nat.testBit_or,
    Nat.testBit_mod_two_pow, hmark, hmask, Bool.eq_iff_iff]
  simp only [Bool.and_eq_true, Bool.or_eq_true, decide_eq_true_eq]
  grind

/-- The code point of a surrogate pair, ten bits from each half. -/
theorem join_surrogates {hi lo : Nat} (hhi : 0xD800 ≤ hi ∧ hi ≤ 0xDBFF)
    (hlo : 0xDC00 ≤ lo ∧ lo ≤ 0xDFFF) :
    0x10000 + (((hi &&& 0x3FF) <<< 10) ||| (lo &&& 0x3FF)) =
      0x10000 + (hi - 0xD800) * 0x400 + (lo - 0xDC00) := by
  rw [show (0x3FF : Nat) = 2 ^ 10 - 1 from rfl, Nat.and_two_pow_sub_one_eq_mod,
    Nat.and_two_pow_sub_one_eq_mod, ← Nat.shiftLeft_add_eq_or_of_lt (Nat.mod_lt lo (by decide)),
    Nat.shiftLeft_eq]
  omega

end Utf8

end Foundation
