import Mathlib.Data.Nat.Digits.Defs
import Mathlib.Tactic.Common

/-!
# Hexadecimal texts

The value of a hexadecimal digit in either case, and of a row of digits.

Main results:

- Theorem {lit}`hexDigit_hexChar`: every digit is read as its value.
- Theorem {lit}`foldl_hexText`: reading a row of digits from the left gives its value.
-/

namespace Foundation

namespace Hex

/-- The value of one hexadecimal digit. -/
def hexDigit (c : UInt8) : Option Nat :=
  if 48 ≤ c ∧ c ≤ 57 then some (c.toNat - 48)
  else if 65 ≤ c ∧ c ≤ 70 then some (10 + (c.toNat - 65))
  else if 97 ≤ c ∧ c ≤ 102 then some (10 + (c.toNat - 97))
  else none

/-- A hexadecimal digit in upper or lower case. -/
def hexChar (upper : Bool) (d : Fin 16) : UInt8 :=
  UInt8.ofNat (if d.val < 10 then 48 + d.val else if upper then 55 + d.val else 87 + d.val)

theorem hexDigit_hexChar (upper : Bool) (d : Fin 16) :
    hexDigit (hexChar upper d) = some d.val := by
  revert upper d
  decide

/-- A row of digits, each in its own case. -/
def hexText (ds : List (Bool × Fin 16)) : List UInt8 :=
  ds.map fun d => hexChar d.1 d.2

/-- The value of a row of digits, the most significant one first. -/
def hexValue (ds : List (Bool × Fin 16)) : Nat :=
  Nat.ofDigits 16 (ds.reverse.map fun d => d.2.val)

/-- Reading the digits from the left gives the value. -/
theorem foldl_hexText (ds : List (Bool × Fin 16)) :
    (hexText ds).foldl (fun n c => 16 * n + (hexDigit c).getD 0) 0 = hexValue ds := by
  have hfold (n : Nat) : (hexText ds).foldl (fun n c => 16 * n + (hexDigit c).getD 0) n =
      hexValue ds + 16 ^ ds.length * n := by
    induction ds generalizing n with
    | nil => simp [hexText, hexValue]
    | cons d ds ih =>
        have hcons : hexText (d :: ds) = hexChar d.1 d.2 :: hexText ds := rfl
        rw [hcons, List.foldl_cons, ih, hexDigit_hexChar, Option.getD_some, hexValue, hexValue,
          List.reverse_cons, List.map_append, Nat.ofDigits_append, List.length_map,
          List.length_reverse, List.map_singleton, Nat.ofDigits_singleton, List.length_cons,
          pow_succ]
        ring
  rw [hfold, Nat.mul_zero, Nat.add_zero]

end Hex

end Foundation
