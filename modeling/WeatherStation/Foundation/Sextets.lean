import Mathlib.Data.Nat.Bitwise
import Mathlib.Tactic.Common

/-!
# Three bytes as four sextets

The bit shifts that cut 24 bits, given as three bytes, into four groups of six and put them
together again.

Main results:

- Theorem {lit}`triple_sextets`: the sextets of three bytes hold the three bytes.
- Theorem {lit}`octet_triple`: the bytes are read back from the 24 bits.
-/

namespace Foundation

namespace Sextets

variable {a b c : Nat}

/-- The highest six bits of the first byte. -/
def first (a : Nat) : Nat := a >>> 2

/-- The last two bits of the first byte and the highest four of the second. -/
def second (a b : Nat) : Nat := ((a &&& 0x03) <<< 4) ||| (b >>> 4)

/-- The last four bits of the second byte and the highest two of the third. -/
def third (b c : Nat) : Nat := ((b &&& 0x0f) <<< 2) ||| (c >>> 6)

/-- The last six bits of the third byte. -/
def fourth (c : Nat) : Nat := c &&& 0x3f

/-- Four sextets as 24 bits. -/
def triple (s₁ s₂ s₃ s₄ : Nat) : Nat :=
  (s₁ <<< (3 * 6)) + (s₂ <<< (2 * 6)) + (s₃ <<< (1 * 6)) + (s₄ <<< (0 * 6))

/-- The {lit}`k`-th byte of 24 bits, counted from the last one. -/
def octet (t k : Nat) : Nat := (t >>> (k * 8)) &&& 0xFF

theorem first_eq (a : Nat) : first a = a / 4 :=
  Nat.shiftRight_eq_div_pow a 2

theorem second_eq (a : Nat) (hb : b < 256) : second a b = a % 4 * 16 + b / 16 := by
  have hlow : b >>> 4 = b / 16 := Nat.shiftRight_eq_div_pow b 4
  rw [second, Nat.and_two_pow_sub_one_eq_mod a 2, hlow,
    ← Nat.shiftLeft_add_eq_or_of_lt (show b / 16 < 2 ^ 4 by omega), Nat.shiftLeft_eq]

theorem third_eq (b : Nat) (hc : c < 256) : third b c = b % 16 * 4 + c / 64 := by
  have hlow : c >>> 6 = c / 64 := Nat.shiftRight_eq_div_pow c 6
  rw [third, Nat.and_two_pow_sub_one_eq_mod b 4, hlow,
    ← Nat.shiftLeft_add_eq_or_of_lt (show c / 64 < 2 ^ 2 by omega), Nat.shiftLeft_eq]

theorem fourth_eq (c : Nat) : fourth c = c % 64 :=
  Nat.and_two_pow_sub_one_eq_mod c 6

/-- The sextets have six bits. -/
theorem sextets_lt (ha : a < 256) (hb : b < 256) (hc : c < 256) :
    first a < 64 ∧ second a b < 64 ∧ third b c < 64 ∧ fourth c < 64 := by
  rw [first_eq, second_eq a hb, third_eq b hc, fourth_eq]
  omega

/-- The sextets of three bytes hold the three bytes. -/
theorem triple_sextets (a : Nat) (hb : b < 256) (hc : c < 256) :
    triple (first a) (second a b) (third b c) (fourth c) = 65536 * a + 256 * b + c := by
  simp only [triple, Nat.shiftLeft_eq]
  rw [first_eq, second_eq a hb, third_eq b hc, fourth_eq]
  omega

/-- The bytes are read back from the 24 bits. -/
theorem octet_triple (ha : a < 256) (hb : b < 256) (hc : c < 256) :
    octet (triple (first a) (second a b) (third b c) (fourth c)) 2 = a ∧
      octet (triple (first a) (second a b) (third b c) (fourth c)) 1 = b ∧
      octet (triple (first a) (second a b) (third b c) (fourth c)) 0 = c := by
  rw [triple_sextets a hb hc]
  simp only [octet, Nat.shiftRight_eq_div_pow, Nat.and_two_pow_sub_one_eq_mod _ 8]
  omega

end Sextets

end Foundation
