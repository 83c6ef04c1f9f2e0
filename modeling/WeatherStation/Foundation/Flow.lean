import Mathlib.Data.List.SplitBy
import Mathlib.Data.Set.Lattice
import Mathlib.Order.CompletePartialOrder
import Mathlib.Tactic.Common

/-!
# Boxes set line by line

Boxes of one common height that are set from left to right and from the top of a
page to its bottom.  A list of boxes that starts new pages is split where it does
so; within a page each box stands in reading order behind all earlier ones, and
boxes in reading order do not overlap.

Main results:

- Theorem {lit}`disjoint_area_of_precedes`: boxes in reading order share no point.
- Theorem {lit}`pairwise_of_mem_splitBy`: a transitive relation that holds from each
  element to the next one, except where a list is split, holds throughout each part.
-/

namespace Foundation

namespace Flow

/-! ## Boxes in reading order -/

/-- A box of a line, by its upper left corner and its width. -/
structure Box where
  x : Nat
  y : Nat
  width : Nat
deriving DecidableEq

namespace Box

variable (line : Nat)

/-- The points of a box in a line of the given height. -/
def area (b : Box) : Set (Nat × Nat) :=
  {p | b.x ≤ p.1 ∧ p.1 < b.x + b.width ∧ b.y ≤ p.2 ∧ p.2 < b.y + line}

/-- Reading order: to the right on the same line, or on a later line. -/
def Precedes (b c : Box) : Prop :=
  b.y + line ≤ c.y ∨ b.y = c.y ∧ b.x + b.width ≤ c.x

variable {line}

/-- Boxes in reading order share no point. -/
theorem disjoint_area_of_precedes {b c : Box} (h : b.Precedes line c) :
    Disjoint (b.area line) (c.area line) := by
  rw [Set.disjoint_left]
  intro p hb hc
  rcases hb with ⟨-, hbx, -, hby⟩
  rcases hc with ⟨hcx, -, hcy, -⟩
  rcases h with hline | ⟨-, hcol⟩ <;> omega

/-- Reading order is transitive. -/
theorem Precedes.trans {b c d : Box} (hbc : b.Precedes line c) (hcd : c.Precedes line d) :
    b.Precedes line d := by
  rcases hbc with hbc | ⟨hbcy, hbcx⟩ <;> rcases hcd with hcd | ⟨hcdy, hcdx⟩
  · exact .inl (by omega)
  · exact .inl (by omega)
  · exact .inl (by omega)
  · exact .inr ⟨hbcy.trans hcdy, by omega⟩

end Box

/-! ## Lists split into pages -/

/-- A transitive relation that holds from each element to the next one, except where
a list is split, holds throughout each part. -/
theorem pairwise_of_mem_splitBy {α : Type*} {r : α → α → Bool} {S T : α → α → Prop}
    [IsTrans α T] {l m : List α} (hl : l.IsChain S) (hST : ∀ a b, S a b → r a b → T a b)
    (hm : m ∈ l.splitBy r) : m.Pairwise T := by
  have hpart : m.IsChain S := by
    refine hl.infix ?_
    have hinfix := List.infix_of_mem_flatten hm
    rwa [List.flatten_splitBy] at hinfix
  have hjoined : m.IsChain fun a b => r a b := List.isChain_of_mem_splitBy hm
  rw [← List.isChain_iff_pairwise]
  rw [List.isChain_iff_forall_rel_of_append_cons_cons] at hpart hjoined ⊢
  intro a b front back hsplit
  exact hST a b (hpart hsplit) (hjoined hsplit)

end Flow

end Foundation
