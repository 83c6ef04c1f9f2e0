import Mathlib.Tactic.Common

/-!
# Loops

A loop is given by what one round does: {lit}`step s` is the state after one more round,
or none when the loop is left.  Nothing here depends on what the rounds do.

Main results:

- Theorem {lit}`rounds_invariant`: what every round keeps holds after any number of rounds.
- Theorem {lit}`left_rounds`: a loop whose rounds lower a measure is left after as many
  rounds as the measure allows.
- Theorem {lit}`exists_left`: it is left in a state that meets the invariant.
- Theorem {lit}`rounds_eq_of_left`: a loop is left in one state only.
-/

namespace Foundation

namespace Loop

variable {σ : Type*} (step : σ → Option σ)

/-- The loop is left in this state. -/
def Left (s : σ) : Prop :=
  step s = none

/-- The state after at most {lit}`n` rounds. -/
def rounds : Nat → σ → σ
  | 0, s => s
  | n + 1, s =>
      match step s with
      | none => s
      | some s' => rounds n s'

variable {step}

theorem rounds_of_left {s : σ} (h : Left step s) (n : Nat) : rounds step n s = s := by
  cases n with
  | zero => rfl
  | succ n => rw [rounds, h]

theorem rounds_succ {s s' : σ} (h : step s = some s') (n : Nat) :
    rounds step (n + 1) s = rounds step n s' := by
  rw [rounds, h]

/-- Rounds one after another. -/
theorem rounds_add (n k : Nat) (s : σ) :
    rounds step (n + k) s = rounds step k (rounds step n s) := by
  induction n generalizing s with
  | zero => rw [Nat.zero_add, rounds]
  | succ n ih =>
      cases hs : step s with
      | none => rw [rounds_of_left hs, rounds_of_left hs, rounds_of_left hs]
      | some s' => rw [Nat.succ_add, rounds_succ hs, rounds_succ hs, ih]

/-- What every round keeps holds after any number of rounds. -/
theorem rounds_invariant {P : σ → Prop} (hstep : ∀ s s', P s → step s = some s' → P s')
    {s : σ} (hs : P s) (n : Nat) : P (rounds step n s) := by
  induction n generalizing s with
  | zero => exact hs
  | succ n ih =>
      cases hnext : step s with
      | none => rwa [rounds_of_left hnext]
      | some s' =>
          rw [rounds_succ hnext]
          exact ih (hstep s s' hs hnext)

/-- A loop whose rounds keep an invariant and lower a measure is left. -/
theorem left_rounds {P : σ → Prop} {m : σ → Nat}
    (hstep : ∀ s s', P s → step s = some s' → P s' ∧ m s' < m s) {s : σ} (hs : P s)
    {n : Nat} (hn : m s ≤ n) : Left step (rounds step n s) := by
  induction n generalizing s with
  | zero =>
      cases hnext : step s with
      | none => exact hnext
      | some s' =>
          have hlt := (hstep s s' hs hnext).2
          omega
  | succ n ih =>
      cases hnext : step s with
      | none => rwa [rounds_of_left hnext]
      | some s' =>
          rcases hstep s s' hs hnext with ⟨hs', hlt⟩
          rw [rounds_succ hnext]
          exact ih hs' (by omega)

/-- Such a loop is left in a state that meets the invariant. -/
theorem exists_left {P : σ → Prop} {m : σ → Nat}
    (hstep : ∀ s s', P s → step s = some s' → P s' ∧ m s' < m s) {s : σ} (hs : P s) :
    ∃ n, Left step (rounds step n s) ∧ P (rounds step n s) :=
  ⟨m s, left_rounds hstep hs (Nat.le_refl (m s)),
    rounds_invariant (fun s s' hs h => (hstep s s' hs h).1) hs (m s)⟩

/-- A loop is left in one state only. -/
theorem rounds_eq_of_left {s : σ} {n k : Nat} (hn : Left step (rounds step n s))
    (hk : Left step (rounds step k s)) : rounds step n s = rounds step k s := by
  rw [← rounds_of_left hn k, ← rounds_add, Nat.add_comm, rounds_add, rounds_of_left hk]

end Loop

end Foundation
