import Mathlib.Tactic.Common

/-!
# Routines that may refuse or fault

A routine hands back a value, refuses its input, or makes an access that it must
not make.  Routines are composed one after another; a refusal or a fault ends the
composition.

Main results:

- Theorem {lit}`Satisfies.bind`: what holds of a composition follows from what
  holds of its first part and, for every value that may come out of it, of the
  second part.
-/

namespace Foundation

/-- How a routine ends. -/
inductive Outcome (ε α : Type*) where
  | ok (a : α)
  | refused
  | fault (e : ε)
deriving DecidableEq

namespace Outcome

variable {ε : Type*} {α β : Type _}

instance : Monad (Outcome ε) where
  pure a := .ok a
  bind x f :=
    match x with
    | .ok a => f a
    | .refused => .refused
    | .fault e => .fault e

@[simp] theorem pure_eq (a : α) : (pure a : Outcome ε α) = .ok a :=
  rfl

@[simp] theorem ok_bind (a : α) (f : α → Outcome ε β) : (ok a >>= f) = f a :=
  rfl

@[simp] theorem refused_bind (f : α → Outcome ε β) : (refused >>= f) = refused :=
  rfl

@[simp] theorem fault_bind (e : ε) (f : α → Outcome ε β) : (fault e >>= f) = fault e :=
  rfl

/-- The routine makes no invalid access, and what it hands back meets {lit}`P`. -/
def Satisfies (x : Outcome ε α) (P : α → Prop) : Prop :=
  match x with
  | ok a => P a
  | refused => True
  | fault _ => False

@[simp] theorem satisfies_ok (a : α) (P : α → Prop) :
    (ok a : Outcome ε α).Satisfies P ↔ P a :=
  Iff.rfl

@[simp] theorem satisfies_refused (P : α → Prop) :
    (refused : Outcome ε α).Satisfies P :=
  trivial

/-- One routine after another. -/
theorem Satisfies.bind {x : Outcome ε α} {f : α → Outcome ε β} {P : α → Prop} {Q : β → Prop}
    (hx : x.Satisfies P) (hf : ∀ a, P a → (f a).Satisfies Q) : (x >>= f).Satisfies Q := by
  cases x with
  | ok a => exact hf a hx
  | refused => trivial
  | fault e => exact hx.elim

theorem Satisfies.mono {x : Outcome ε α} {P Q : α → Prop} (hx : x.Satisfies P)
    (h : ∀ a, P a → Q a) : x.Satisfies Q := by
  cases x with
  | ok a => exact h a hx
  | refused => trivial
  | fault e => exact hx

/-- A routine without invalid accesses does not fault. -/
theorem Satisfies.ne_fault {x : Outcome ε α} {P : α → Prop} (hx : x.Satisfies P) (e : ε) :
    x ≠ fault e := by
  rintro rfl
  exact hx

end Outcome

end Foundation
