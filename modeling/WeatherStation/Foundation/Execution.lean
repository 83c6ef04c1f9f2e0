import Mathlib.Tactic.Common

/-!
# Runs of a partial step function

A transition system is given by an executable partial step function
{lit}`step : σ → α → Option σ`.  This module fixes its runs over a list of
actions, the condition that every step of a run meets a predicate, and the
invariant rule for such conditioned runs.  A straight-line program is given by
the trace of its effects instead, and its reachable states are those after the
prefixes of the trace.

Main results:

- Theorem {lit}`exec_invariant`: a property preserved by every conditioned
  step holds at the end of every conditioned run.
- Theorem {lit}`throughout_append`: a property of all states along a trace of
  effects, part by part.
-/

namespace Foundation

namespace Execution

variable {σ α : Type*} (step : σ → α → Option σ)

/-- The state reached by executing the actions in order, if all are enabled. -/
def exec : σ → List α → Option σ
  | s, [] => some s
  | s, a :: as => (step s a).bind fun s' => exec s' as

/-- Every step taken along the actions meets the condition {lit}`P`. -/
def AllSteps (P : σ → α → Prop) : σ → List α → Prop
  | _, [] => True
  | s, a :: as => P s a ∧ ∀ s', step s a = some s' → AllSteps P s' as

theorem exec_cons (s : σ) (a : α) (as : List α) :
    exec step s (a :: as) = (step s a).bind fun s' => exec step s' as :=
  rfl

/-- The condition of a run can be checked step by step. -/
instance decidableAllSteps {P : σ → α → Prop} [∀ s a, Decidable (P s a)] :
    ∀ (s : σ) (as : List α), Decidable (AllSteps step P s as)
  | _, [] => .isTrue trivial
  | s, a :: as =>
      haveI : DecidablePred fun s' => AllSteps step P s' as := fun s' =>
        decidableAllSteps s' as
      inferInstanceAs (Decidable (P s a ∧ ∀ s' ∈ step s a, AllSteps step P s' as))

/-- A nonempty run consists of its first step and the remaining run. -/
theorem exec_cons_eq_some_iff {s t : σ} {a : α} {as : List α} :
    exec step s (a :: as) = some t ↔ ∃ s', step s a = some s' ∧ exec step s' as = some t := by
  rw [exec_cons, Option.bind_eq_some_iff]

variable {step}

/-- A property kept by every step that meets {lit}`P` is kept by every run whose
steps all meet {lit}`P`. -/
theorem exec_invariant {P : σ → α → Prop} {Inv : σ → Prop}
    (hstep : ∀ s a s', Inv s → P s a → step s a = some s' → Inv s')
    {s t : σ} {as : List α} (hs : Inv s) (hP : AllSteps step P s as)
    (hrun : exec step s as = some t) : Inv t := by
  induction as generalizing s with
  | nil =>
      cases hrun
      exact hs
  | cons a as ih =>
      rcases (exec_cons_eq_some_iff step).mp hrun with ⟨s', hs', hrest⟩
      exact ih (hstep s a s' hs hP.1 hs') (hP.2 s' hs') hrest

/-- A condition that all steps meet is no condition on a run. -/
theorem allSteps_of_forall {P : σ → α → Prop} (h : ∀ s a, P s a) (s : σ) (as : List α) :
    AllSteps step P s as := by
  induction as generalizing s with
  | nil => trivial
  | cons a as ih => exact ⟨h s a, fun s' _ => ih s'⟩

/-- The unconditioned rule: a property kept by every step is kept by every run. -/
theorem exec_invariant_of_step {Inv : σ → Prop}
    (hstep : ∀ s a s', Inv s → step s a = some s' → Inv s')
    {s t : σ} {as : List α} (hs : Inv s) (hrun : exec step s as = some t) : Inv t :=
  exec_invariant (fun s a s' hs _ h => hstep s a s' hs h) hs
    (allSteps_of_forall (fun _ _ => trivial) s as) hrun

/-- When an invariant is kept by all steps that meet {lit}`P`, and such a step meets
{lit}`Q` wherever the invariant holds, then a run of steps that meet {lit}`P` is one
of steps that meet {lit}`Q`. -/
theorem allSteps_of_invariant {P Q : σ → α → Prop} {Inv : σ → Prop}
    (hstep : ∀ s a s', Inv s → P s a → step s a = some s' → Inv s')
    (hQ : ∀ s a, Inv s → P s a → Q s a)
    {s : σ} {as : List α} (hs : Inv s) (hP : AllSteps step P s as) : AllSteps step Q s as := by
  induction as generalizing s with
  | nil => trivial
  | cons a as ih =>
      exact ⟨hQ s a hs hP.1, fun s' hs' => ih (hstep s a s' hs hP.1 hs') (hP.2 s' hs')⟩

/-- Conditions that agree on every step agree on runs. -/
theorem allSteps_congr {P Q : σ → α → Prop} (h : ∀ s a, P s a ↔ Q s a) (s : σ) (as : List α) :
    AllSteps step P s as ↔ AllSteps step Q s as :=
  ⟨allSteps_of_invariant (fun _ _ _ _ _ _ => trivial) (fun s a _ => (h s a).mp) trivial,
    allSteps_of_invariant (fun _ _ _ _ _ _ => trivial) (fun s a _ => (h s a).mpr) trivial⟩

/-! ## Effect traces -/

section Effects

variable {ε : Type*} (apply : σ → ε → σ)

/-- {lit}`P` holds before, between and after the effects. -/
def Throughout (P : σ → Prop) : σ → List ε → Prop
  | s, [] => P s
  | s, e :: es => P s ∧ Throughout P (apply s e) es

variable {apply}

theorem throughout_append {P : σ → Prop} {s : σ} {es es' : List ε} :
    Throughout apply P s (es ++ es') ↔
      Throughout apply P s es ∧ Throughout apply P (es.foldl apply s) es' := by
  induction es generalizing s with
  | nil =>
      refine (and_iff_right_of_imp fun h => ?_).symm
      cases es' with
      | nil => exact h
      | cons e es' => exact h.1
  | cons e es ih =>
      rw [List.cons_append, Throughout, Throughout, ih, List.foldl_cons, and_assoc]

/-- {lit}`P` holds throughout a trace when it holds after each of its prefixes. -/
theorem throughout_iff_forall_front {P : σ → Prop} {s : σ} {es : List ε} :
    Throughout apply P s es ↔ ∀ pre, pre <+: es → P (pre.foldl apply s) := by
  induction es generalizing s with
  | nil =>
      simp only [Throughout, List.prefix_nil, forall_eq, List.foldl_nil]
  | cons e es ih =>
      rw [Throughout, ih]
      constructor
      · rintro ⟨hs, hrest⟩ pre hpre
        cases pre with
        | nil => exact hs
        | cons e' pre =>
            rcases List.cons_prefix_cons.mp hpre with ⟨rfl, htail⟩
            exact hrest pre htail
      · intro h
        exact ⟨h [] List.nil_prefix, fun pre hpre =>
          h (e :: pre) (List.cons_prefix_cons.mpr ⟨rfl, hpre⟩)⟩

end Effects

end Execution

end Foundation
