import Mathlib.Data.List.Basic
import Mathlib.Tactic.Common

/-!
# Streams delivered in segments

What a peer sends arrives in segments that the receiver does not choose: a read of
{lit}`len` elements delivers at least one and at most {lit}`len` of them, or it times
out, or it finds that the stream has ended.

Main results:

- Theorem {lit}`recv_of_quiet`: without time-outs a read delivers a nonempty front part
  of what is left.
-/

namespace Foundation

/-- How much the next read delivers at most, or that it times out. -/
inductive Delivery where
  | upTo (n : Nat)
  | timeout
deriving DecidableEq

/-- What is left of a stream, and the deliveries of the next reads.  Behind the last of
them a read delivers all that it asks for and that is left. -/
structure Wire (α : Type*) where
  stream : List α
  deliveries : List Delivery

/-- The result of a read. -/
inductive RecvResult (α : Type*) where
  | data (front : List α)
  | timeout
  | closed

namespace Wire

variable {α : Type*}

/-- The elements that a read of {lit}`len` delivers. -/
def front (w : Wire α) (len : Nat) : List α :=
  match w.deliveries with
  | .upTo n :: _ => w.stream.take (min len (max n 1))
  | _ => w.stream.take len

/-- A read of at most {lit}`len` elements. -/
def recv (w : Wire α) (len : Nat) : RecvResult α × Wire α :=
  if w.deliveries.head? = some .timeout then (.timeout, { w with deliveries := w.deliveries.tail })
  else if w.stream.isEmpty then (.closed, { w with deliveries := w.deliveries.tail })
  else
    (.data (w.front len),
      { stream := w.stream.drop (w.front len).length, deliveries := w.deliveries.tail })

/-- No read times out. -/
def Quiet (w : Wire α) : Prop :=
  .timeout ∉ w.deliveries

/-- The elements of a delivery are a front part of the stream, at most as long as was
asked for. -/
theorem front_spec (w : Wire α) (len : Nat) :
    (w.front len).length ≤ len ∧ w.front len ++ w.stream.drop (w.front len).length = w.stream := by
  have htake (n : Nat) : w.stream.take n ++ w.stream.drop (w.stream.take n).length = w.stream := by
    rw [List.length_take]
    rcases Nat.le_total n w.stream.length with h | h
    · rw [Nat.min_eq_left h, List.take_append_drop]
    · rw [Nat.min_eq_right h, List.take_of_length_le h, List.drop_length, List.append_nil]
  unfold front
  split
  · exact ⟨Nat.le_trans (List.length_take_le _ _) (Nat.min_le_left _ _), htake _⟩
  · exact ⟨List.length_take_le _ _, htake _⟩

/-- A read delivers no more than is asked for. -/
theorem length_le_of_recv {w w' : Wire α} {len : Nat} {front : List α}
    (h : w.recv len = (.data front, w')) : front.length ≤ len := by
  unfold recv at h
  split_ifs at h
  · cases h
  · cases h
  · cases h
    exact (w.front_spec len).1

theorem front_ne_nil {w : Wire α} {len : Nat} (hstream : w.stream ≠ []) (hlen : 0 < len) :
    w.front len ≠ [] := by
  have hpos := List.length_pos_of_ne_nil hstream
  unfold front
  split <;>
    (rw [Ne, List.take_eq_nil_iff, not_or]; exact ⟨by omega, hstream⟩)

theorem Quiet.tail {w : Wire α} (h : w.Quiet) {stream : List α} :
    Quiet { stream := stream, deliveries := w.deliveries.tail } := by
  intro hmem
  exact h (List.mem_of_mem_tail hmem)

/-- Without time-outs, a read of a stream that has not ended delivers a nonempty front
part of it. -/
theorem recv_of_quiet {w : Wire α} (hquiet : w.Quiet) (hstream : w.stream ≠ []) {len : Nat}
    (hlen : 0 < len) :
    ∃ front rest w', w.recv len = (.data front, w') ∧ front ≠ [] ∧ front.length ≤ len ∧
      w.stream = front ++ rest ∧ w'.stream = rest ∧ w'.Quiet := by
  have hhead : w.deliveries.head? ≠ some .timeout := by
    intro hhead
    exact hquiet (List.mem_of_head? hhead)
  have hspec := w.front_spec len
  refine ⟨w.front len, w.stream.drop (w.front len).length, _, ?_, front_ne_nil hstream hlen,
    hspec.1, hspec.2.symm, rfl, hquiet.tail⟩
  rw [recv, if_neg hhead, if_neg (by simpa using hstream)]

/-- So a read of one element delivers the next one. -/
theorem recv_one {w : Wire α} (hquiet : w.Quiet) {a : α} {rest : List α}
    (hstream : w.stream = a :: rest) :
    ∃ w', w.recv 1 = (.data [a], w') ∧ w'.stream = rest ∧ w'.Quiet := by
  obtain ⟨front, rest', w', hrecv, hne, hlen, hsplit, hrest, hquiet'⟩ :=
    recv_of_quiet hquiet (by rw [hstream]; exact List.cons_ne_nil a rest) Nat.one_pos
  rw [hstream] at hsplit
  cases front with
  | nil => exact absurd rfl hne
  | cons b front =>
      obtain rfl : front = [] := by
        rw [List.length_cons] at hlen
        exact List.length_eq_zero_iff.mp (by omega)
      rw [List.singleton_append, List.cons.injEq] at hsplit
      rw [← hsplit.1] at hrecv
      exact ⟨w', hrecv, hrest.trans hsplit.2.symm, hquiet'⟩

end Wire

end Foundation
