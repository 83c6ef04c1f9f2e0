import WeatherStation.Foundation.Memory

/-!
# NOR flash

Programming clears bits and sets none; erasing sets all bits of a range.  What a memory
holds from an address on is given as a list of bytes, which can be split.

Main results:

- Theorem {lit}`holds_append`: a text is held part by part.
- Theorem {lit}`Holds.program_erased`: erased bytes take what is programmed.
- Theorem {lit}`Holds.program_of_disjoint`: other bytes are kept.
- Theorem {lit}`word_of_holds`: a 32-bit number is read back.
-/

namespace Foundation

namespace Memory

/-- The memory holds the bytes {lit}`bs` from address {lit}`off` on. -/
def Holds (m : Memory) (off : Nat) (bs : List UInt8) : Prop :=
  m.read off bs.length = bs

/-- Program the bytes {lit}`bs` from address {lit}`off` on. -/
def program (m : Memory) (off : Nat) (bs : List UInt8) : Memory :=
  fun a => if off ≤ a ∧ a < off + bs.length then m a &&& bs.getD (a - off) 0xFF else m a

/-- Erase {lit}`n` bytes from address {lit}`off` on. -/
def erase (m : Memory) (off n : Nat) : Memory :=
  m.fill off 0xFF n

variable {m : Memory} {off : Nat} {bs cs : List UInt8}

@[simp] theorem holds_nil (m : Memory) (off : Nat) : m.Holds off [] :=
  rfl

/-- A text is held part by part. -/
theorem holds_append : m.Holds off (bs ++ cs) ↔ m.Holds off bs ∧ m.Holds (off + bs.length) cs := by
  unfold Holds
  rw [List.length_append, read_add]
  constructor
  · intro h
    exact List.append_inj h (by simp)
  · rintro ⟨hbs, hcs⟩
    rw [hbs, hcs]

theorem holds_cons {b : UInt8} : m.Holds off (b :: bs) ↔ m off = b ∧ m.Holds (off + 1) bs := by
  have hone : m.Holds off [b] ↔ m off = b := by
    unfold Holds read
    simp
  rw [← List.singleton_append, holds_append, hone]
  rfl

/-- A read of what is held. -/
theorem Holds.read_eq (h : m.Holds off bs) {n : Nat} (hn : bs.length = n) : m.read off n = bs := by
  rw [← hn]
  exact h

/-- Two memories that agree on a range hold the same there. -/
theorem Holds.congr {m' : Memory} (h : m.Holds off bs)
    (hagree : ∀ a, off ≤ a → a < off + bs.length → m' a = m a) : m'.Holds off bs := by
  rw [Holds, read_congr hagree]
  exact h

theorem program_of_not_mem (m : Memory) {a : Nat} (h : ¬(off ≤ a ∧ a < off + bs.length)) :
    m.program off bs a = m a := by
  simp only [program, if_neg h]

theorem program_of_mem (m : Memory) {a : Nat} (h : off ≤ a ∧ a < off + bs.length) :
    m.program off bs a = m a &&& bs.getD (a - off) 0xFF := by
  simp only [program, if_pos h]

@[simp] theorem program_nil (m : Memory) (off : Nat) : m.program off [] = m := by
  ext a : 1
  exact program_of_not_mem m (by rw [List.length_nil]; omega)

/-- What is held apart from the programmed range is kept. -/
theorem Holds.program_of_disjoint (h : m.Holds off bs) {a : Nat}
    (hapart : off + bs.length ≤ a ∨ a + cs.length ≤ off) : (m.program a cs).Holds off bs := by
  apply h.congr
  intro b hb hb'
  exact program_of_not_mem m (by omega)

theorem and_ones (b : UInt8) : 0xFF &&& b = b := by
  apply UInt8.toNat.inj
  have hb := b.toNat_lt
  rw [UInt8.toNat_and]
  change (2 ^ 8 - 1) &&& b.toNat = b.toNat
  rw [Nat.and_comm, Nat.and_two_pow_sub_one_eq_mod]
  exact Nat.mod_eq_of_lt hb

/-- Erased bytes take what is programmed. -/
theorem Holds.program_erased (h : m.Holds off (List.replicate bs.length 0xFF)) :
    (m.program off bs).Holds off bs := by
  induction bs generalizing m off with
  | nil => exact holds_nil _ _
  | cons b bs ih =>
      rw [List.length_cons, List.replicate_succ, holds_cons] at h
      have hbyte : (m.program off (b :: bs)) off = b := by
        rw [program_of_mem m (by rw [List.length_cons]; omega), h.1, Nat.sub_self]
        exact and_ones b
      have hrest : (m.program (off + 1) bs).Holds (off + 1) bs := ih h.2
      rw [holds_cons]
      refine ⟨hbyte, hrest.congr ?_⟩
      intro a ha ha'
      rw [program_of_mem m (by rw [List.length_cons]; omega), program_of_mem m (by omega),
        show a - off = (a - (off + 1)) + 1 by omega, List.getD_cons_succ]

/-- An erased range holds ones. -/
theorem holds_erase (m : Memory) (off n : Nat) :
    (m.erase off n).Holds off (List.replicate n 0xFF) := by
  rw [Holds, List.length_replicate]
  exact read_fill_self m off n 0xFF

/-! ## Numbers -/

/-- The four bytes of a {lit}`uint32_t`, least significant first. -/
def wordBytes (n : Nat) : List UInt8 :=
  [UInt8.ofNat n, UInt8.ofNat (n / 256), UInt8.ofNat (n / 65536), UInt8.ofNat (n / 16777216)]

/-- The {lit}`uint32_t` at an address. -/
def word (m : Memory) (off : Nat) : Nat :=
  (m off).toNat + 256 * (m (off + 1)).toNat + 65536 * (m (off + 2)).toNat +
    16777216 * (m (off + 3)).toNat

@[simp] theorem length_wordBytes (n : Nat) : (wordBytes n).length = 4 :=
  rfl

theorem word_congr {m' : Memory} (h : ∀ a, off ≤ a → a < off + 4 → m' a = m a) :
    m'.word off = m.word off := by
  unfold word
  rw [h off (by omega) (by omega), h (off + 1) (by omega) (by omega),
    h (off + 2) (by omega) (by omega), h (off + 3) (by omega) (by omega)]

/-- A number is read back. -/
theorem word_of_holds {n : Nat} (h : m.Holds off (wordBytes n)) (hn : n < 4294967296) :
    m.word off = n := by
  simp only [wordBytes, holds_cons] at h
  obtain ⟨h0, h1, h2, h3, -⟩ := h
  unfold word
  rw [h0, h1, h2, h3]
  simp only [UInt8.toNat_ofNat']
  omega

/-- An erased number has all its bits set. -/
theorem word_of_erased (h : ∀ a, off ≤ a → a < off + 4 → m a = 0xFF) :
    m.word off = 4294967295 := by
  unfold word
  rw [h off (by omega) (by omega), h (off + 1) (by omega) (by omega),
    h (off + 2) (by omega) (by omega), h (off + 3) (by omega) (by omega)]
  rfl

theorem holds_replicate_iff {b : UInt8} {n : Nat} :
    m.Holds off (List.replicate n b) ↔ ∀ a, off ≤ a → a < off + n → m a = b := by
  induction n generalizing off with
  | zero => simp only [List.replicate_zero, holds_nil, true_iff]; intro a ha ha'; omega
  | succ n ih =>
      rw [List.replicate_succ, holds_cons, ih]
      constructor
      · rintro ⟨hfirst, hrest⟩ a ha ha'
        rcases Nat.eq_or_lt_of_le ha with rfl | hlt
        · exact hfirst
        · exact hrest a hlt (by omega)
      · intro h
        refine ⟨h off le_rfl (by omega), ?_⟩
        intro a ha ha'
        exact h a (by omega) (by omega)

end Memory

end Foundation
