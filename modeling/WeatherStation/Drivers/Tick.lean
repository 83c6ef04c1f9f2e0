import Mathlib.Algebra.Order.Ring.Nat
import Mathlib.Tactic.Common

/-!
# The millisecond clock of the HAL

{lit}`HAL_GetTick` converts the tick counter of the kernel to milliseconds.  Its product
wraps at 32 bits, long before the counter does, so that its values run from 0 to 4294967
and start again.

Main results:

- Theorem {lit}`elapsed_eq_iff`: the difference of two values is the elapsed time exactly
  when the product does not wrap in between.
- Theorem {lit}`halTimedOut_of_wrap`: across a wrap every time-out of the HAL expires at
  once.
-/

namespace WeatherStation

/-- {lit}`RT_TICK_PER_SECOND` -/
def RT_TICK_PER_SECOND : UInt32 := 1000

/-- {lit}`HAL_GetTick` when {lit}`rt_tick_get` returns {lit}`tick`; all operands are
unsigned numbers of 32 bits. -/
def halGetTick (tick : UInt32) : UInt32 :=
  tick * 1000 / RT_TICK_PER_SECOND

/-- The time that the HAL takes to have elapsed: {lit}`HAL_GetTick() - tickstart`. -/
def elapsed (start tick : UInt32) : UInt32 :=
  halGetTick tick - halGetTick start

/-- The test of the HAL for a time-out. -/
def halTimedOut (start tick Timeout : UInt32) : Bool :=
  elapsed start tick > Timeout || Timeout = 0

/-- How often the product has wrapped after {lit}`n` ticks. -/
def productWraps (n : Nat) : Nat :=
  n * 1000 / 2 ^ 32

theorem toNat_halGetTick (tick : UInt32) :
    (halGetTick tick).toNat = tick.toNat * 1000 % 2 ^ 32 / 1000 := by
  rw [halGetTick, RT_TICK_PER_SECOND, UInt32.toNat_div, UInt32.toNat_mul]
  rfl

/-- A value of the clock by the ticks since the counter was zero. -/
theorem toNat_halGetTick_add (t d : UInt32) :
    (halGetTick (t + d)).toNat = (t.toNat + d.toNat) * 1000 % 2 ^ 32 / 1000 := by
  rw [toNat_halGetTick, UInt32.toNat_add, Nat.mod_mul_mod]

/-- The clock never reaches half the range of its type. -/
theorem toNat_halGetTick_le (tick : UInt32) : (halGetTick tick).toNat ≤ 4294967 := by
  rw [toNat_halGetTick]
  omega

/-- The part of a product below the wrap, divided by the factor, grows with the ticks exactly
as long as the product does not wrap. -/
theorem mod_div_add_eq_iff {M k : Nat} (hk : 0 < k) (hkM : k ≤ M) (x d : Nat) :
    x % M / k + d = (x + k * d) % M / k ↔ (x + k * d) / M = x / M := by
  have hgrow : x % M / k + d = (x % M + k * d) / k := (Nat.add_mul_div_left _ _ hk).symm
  have hx := Nat.div_add_mod x M
  have hxd := Nat.div_add_mod (x + k * d) M
  have hle : x / M ≤ (x + k * d) / M := Nat.div_le_div_right (Nat.le_add_right _ _)
  rw [hgrow]
  constructor
  · intro h
    by_contra hne
    have hlt : x / M + 1 ≤ (x + k * d) / M := Nat.lt_of_le_of_ne hle (Ne.symm hne)
    have hM := Nat.mul_le_mul_left M hlt
    -- A wrap takes away at least one whole factor.
    have hwrap : (x + k * d) % M + k ≤ x % M + k * d := by
      rw [Nat.mul_add] at hM
      omega
    have hdiv := Nat.div_le_div_right (c := k) hwrap
    rw [Nat.add_div_right _ hk] at hdiv
    omega
  · intro h
    rw [h] at hxd
    congr 1
    omega

/-- The clock goes on by the elapsed ticks exactly as long as the product does not wrap. -/
theorem toNat_halGetTick_add_eq_iff (t d : UInt32) :
    (halGetTick t).toNat + d.toNat = (halGetTick (t + d)).toNat ↔
      productWraps (t.toNat + d.toNat) = productWraps t.toNat := by
  rw [toNat_halGetTick, toNat_halGetTick_add, productWraps, productWraps, Nat.add_mul,
    Nat.mul_comm d.toNat]
  exact mod_div_add_eq_iff (by decide) (Nat.le_of_ble_eq_true rfl) _ _

/-- For every tick count and every elapsed time below half the range of the counter, the
difference of the two values is the elapsed time exactly when the product does not wrap
in between. -/
theorem elapsed_eq_iff (t d : UInt32) (hd : d.toNat < 2 ^ 31) :
    halGetTick (t + d) - halGetTick t = d ↔
      productWraps (t.toNat + d.toNat) = productWraps t.toNat := by
  rw [← toNat_halGetTick_add_eq_iff, ← UInt32.toNat_inj, UInt32.toNat_sub]
  have hu := toNat_halGetTick_le t
  have hv := toNat_halGetTick_le (t + d)
  omega

/-- A millisecond after the wrap the clock seems to have run for 4290672329 milliseconds. -/
theorem elapsed_across_wrap :
    ¬∀ t d : UInt32, d.toNat < 2 ^ 31 → halGetTick (t + d) - halGetTick t = d := by
  intro h
  have hfirst := h 4294967 1 (by decide)
  revert hfirst
  decide

/-- Without a wrap the elapsed time is right. -/
theorem elapsed_eq_iff_first_second :
    (1000 : UInt32).toNat < 2 ^ 31 ∧
      (halGetTick (0 + 1000) - halGetTick 0 = 1000 ↔
        productWraps ((0 : UInt32).toNat + (1000 : UInt32).toNat) =
          productWraps (0 : UInt32).toNat) :=
  ⟨by decide, elapsed_eq_iff 0 1000 (by decide)⟩

/-- A time-out of less than half the range expires at once when the product wraps within the
71 minutes after the start. -/
theorem halTimedOut_of_wrap {t d Timeout : UInt32} (hd : d.toNat < 4294967)
    (hTimeout : Timeout.toNat < 2 ^ 31)
    (hwrap : productWraps (t.toNat + d.toNat) ≠ productWraps t.toNat) :
    halTimedOut t (t + d) Timeout = true := by
  have hback : (halGetTick (t + d)).toNat < (halGetTick t).toNat := by
    rw [toNat_halGetTick_add, toNat_halGetTick]
    rw [productWraps, productWraps] at hwrap
    omega
  have hlarge : Timeout < elapsed t (t + d) := by
    rw [UInt32.lt_iff_toNat_lt, elapsed, UInt32.toNat_sub]
    have hu := toNat_halGetTick_le t
    omega
  simp [halTimedOut, hlarge]

end WeatherStation
