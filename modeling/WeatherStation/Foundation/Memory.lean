import Mathlib.Data.List.Basic
import Mathlib.Data.List.Induction
import Mathlib.Data.List.TakeWhile
import Mathlib.Tactic.Common

/-!
# Byte memories and C strings

A flat byte memory with the block operations of the C library, the C strings
that can be stored in it, and the little-endian representation of a 32-bit
signed integer.  Nothing here depends on a particular program.

Main results:

- Theorem {lit}`read_write_fill`: a short string copied over a cleared block
  leaves the string followed by zero bytes.
- Theorem {lit}`read_storeAll`: a block that is stored byte by byte is read back.
- Theorem {lit}`readInt32_write_int32Bytes`: storing and loading a 32-bit
  integer is the identity on its range.
-/

namespace Foundation

/-! ## C strings -/

/-- A NUL-terminated string, given by the bytes before its terminator. -/
structure CStr where
  bytes : List UInt8
  zero_notMem : 0 ∉ bytes
deriving DecidableEq

namespace CStr

/-- The string that starts at the first byte of {lit}`bs`. -/
def ofBytes (bs : List UInt8) : CStr where
  bytes := bs.takeWhile (· ≠ 0)
  zero_notMem h := by simpa using List.mem_takeWhile_imp h

/-- A string literal of ASCII characters. -/
def ofChars (cs : List Char) : CStr :=
  ofBytes (cs.map fun c => UInt8.ofNat c.toNat)

/-- C {lit}`strlen`. -/
def strlen (s : CStr) : Nat :=
  s.bytes.length

theorem ne_zero_of_mem (s : CStr) {b : UInt8} (hb : b ∈ s.bytes) : b ≠ 0 := by
  rintro rfl
  exact s.zero_notMem hb

end CStr

/-! ## Flat byte memory -/

/-- A byte memory addressed by natural numbers. -/
abbrev Memory := Nat → UInt8

namespace Memory

/-- C {lit}`memcpy`: store the bytes of {lit}`bs` from address {lit}`off` on. -/
def write (m : Memory) (off : Nat) (bs : List UInt8) : Memory :=
  fun a => if off ≤ a ∧ a < off + bs.length then bs.getD (a - off) 0 else m a

/-- C {lit}`memset`: store {lit}`n` copies of {lit}`b` from address {lit}`off` on. -/
def fill (m : Memory) (off : Nat) (b : UInt8) (n : Nat) : Memory :=
  fun a => if off ≤ a ∧ a < off + n then b else m a

/-- The {lit}`n` bytes from address {lit}`off` on. -/
def read (m : Memory) (off n : Nat) : List UInt8 :=
  (List.range n).map fun i => m (off + i)

@[simp] theorem length_read (m : Memory) (off n : Nat) : (m.read off n).length = n := by
  simp [read]

theorem write_of_not_mem (m : Memory) {off a : Nat} {bs : List UInt8}
    (h : ¬(off ≤ a ∧ a < off + bs.length)) : m.write off bs a = m a := by
  simp only [write, if_neg h]

theorem write_of_mem (m : Memory) {off a : Nat} {bs : List UInt8}
    (h : off ≤ a ∧ a < off + bs.length) : m.write off bs a = bs.getD (a - off) 0 := by
  simp only [write, if_pos h]

theorem fill_of_not_mem (m : Memory) {off a n : Nat} {b : UInt8}
    (h : ¬(off ≤ a ∧ a < off + n)) : m.fill off b n a = m a := by
  simp only [fill, if_neg h]

theorem fill_of_mem (m : Memory) {off a n : Nat} {b : UInt8}
    (h : off ≤ a ∧ a < off + n) : m.fill off b n a = b := by
  simp only [fill, if_pos h]

@[simp] theorem write_nil (m : Memory) (off : Nat) : m.write off [] = m := by
  ext a : 1
  exact write_of_not_mem m (by simp only [List.length_nil]; omega)

/-- A block is its first part followed by its second part. -/
theorem read_add (m : Memory) (off n k : Nat) :
    m.read off (n + k) = m.read off n ++ m.read (off + n) k := by
  simp only [read, List.range_add, List.map_append, List.map_map]
  congr 1
  refine List.map_congr_left fun i _ => ?_
  simp only [Function.comp_apply, Nat.add_assoc]

/-- A block holds the given bytes when each address holds its byte. -/
theorem read_eq_iff {m : Memory} {off : Nat} {bs : List UInt8} :
    m.read off bs.length = bs ↔ ∀ i (hi : i < bs.length), m (off + i) = bs[i] := by
  rw [List.ext_getElem_iff]
  simp only [length_read, true_and]
  constructor
  · intro h i hi
    simpa [read] using h i hi hi
  · intro h i hi _
    simpa [read] using h i hi

/-- Two memories that agree on a block read the same bytes from it. -/
theorem read_congr {m m' : Memory} {off n : Nat}
    (h : ∀ a, off ≤ a → a < off + n → m a = m' a) : m.read off n = m'.read off n := by
  apply List.map_congr_left
  intro i hi
  exact h (off + i) (by omega) (by have := List.mem_range.mp hi; omega)

/-- Reading a freshly filled block gives the fill byte throughout. -/
theorem read_fill_self (m : Memory) (off n : Nat) (b : UInt8) :
    (m.fill off b n).read off n = List.replicate n b := by
  apply List.ext_getElem
  · simp
  · intro i hi hi'
    have hin : i < n := by simpa using hi
    simp only [read, List.getElem_map, List.getElem_range, List.getElem_replicate]
    exact fill_of_mem m ⟨by omega, by omega⟩

/-- Writing a prefix of a block replaces that prefix and keeps the rest. -/
theorem read_write_front (m : Memory) (off : Nat) {n : Nat} {bs : List UInt8}
    (h : bs.length ≤ n) :
    (m.write off bs).read off n = bs ++ (m.read off n).drop bs.length := by
  apply List.ext_getElem
  · simp only [length_read, List.length_append, List.length_drop]
    omega
  · intro i hi hi'
    have hin : i < n := by simpa using hi
    simp only [read, List.getElem_map, List.getElem_range]
    by_cases hlt : i < bs.length
    · rw [write_of_mem m ⟨by omega, by omega⟩, List.getElem_append_left hlt]
      simp [hlt]
    · rw [write_of_not_mem m (by omega), List.getElem_append_right (by omega)]
      simp only [List.getElem_drop, List.getElem_map, List.getElem_range]
      congr 2
      omega

/-- A block written behind a block that starts the memory extends it. -/
theorem read_write_back (m : Memory) (off : Nat) (bs : List UInt8) :
    (m.write off bs).read 0 (off + bs.length) = m.read 0 off ++ bs := by
  rw [read_add, Nat.zero_add, read_write_front m off le_rfl, List.drop_of_length_le (by simp),
    List.append_nil]
  congr 1
  exact read_congr fun a _ ha => write_of_not_mem m (by omega)

/-- A string of at most {lit}`n` bytes copied over a cleared block of
{lit}`n` bytes is followed by zero bytes. -/
theorem read_write_fill (m : Memory) (off : Nat) {n : Nat} {bs : List UInt8}
    (h : bs.length ≤ n) :
    ((m.fill off 0 n).write off bs).read off n = bs ++ List.replicate (n - bs.length) 0 := by
  rw [read_write_front _ _ h, read_fill_self, List.drop_replicate]

/-- Single bytes stored one after another, each at its own address. -/
def storeAll (m : Memory) (stores : List (Nat × UInt8)) : Memory :=
  stores.foldl (fun m store => Function.update m store.1 store.2) m

/-- Bytes that are stored at the addresses of a block in order are read from it. -/
theorem read_storeAll (m : Memory) {n : Nat} {stores : List (Nat × UInt8)}
    (h : stores.map Prod.fst = List.range n) :
    (m.storeAll stores).read 0 n = stores.map Prod.snd := by
  induction stores using List.reverseRecOn generalizing n with
  | nil =>
      have hn : n = 0 := by simpa using congrArg List.length h.symm
      rw [hn]
      rfl
  | append_singleton stores store ih =>
      cases n with
      | zero => simp at h
      | succ n =>
          rw [List.map_append, List.range_succ] at h
          rcases List.append_inj' h rfl with ⟨hfront, hlast⟩
          have haddr : store.1 = n := by simpa using hlast
          rw [read_add, List.map_append, storeAll, List.foldl_append]
          congr 1
          · rw [← ih hfront]
            refine read_congr fun a _ ha => ?_
            exact Function.update_of_ne (by omega) _ _
          · simp [read, haddr]

end Memory

/-- The bytes that a file delivers for a read of {lit}`n` bytes at {lit}`pos`. -/
def readFile (file : List UInt8) (pos n : Nat) : List UInt8 :=
  (file.drop pos).take n

namespace Memory

/-! ## Little-endian 32-bit integers -/

/-- The four bytes of a 32-bit {lit}`int`, least significant first. -/
def int32Bytes (v : Int) : List UInt8 :=
  let n := (v % 4294967296).toNat
  [UInt8.ofNat n, UInt8.ofNat (n / 256), UInt8.ofNat (n / 65536), UInt8.ofNat (n / 16777216)]

/-- Load a 32-bit {lit}`int` from address {lit}`off`. -/
def readInt32 (m : Memory) (off : Nat) : Int :=
  ((m off).toNat + 256 * (m (off + 1)).toNat + 65536 * (m (off + 2)).toNat +
    16777216 * (m (off + 3)).toNat : Int).bmod 4294967296

@[simp] theorem length_int32Bytes (v : Int) : (int32Bytes v).length = 4 :=
  rfl

/-- Loading depends only on the four bytes of the integer. -/
theorem readInt32_congr {m m' : Memory} {off : Nat}
    (h : ∀ a, off ≤ a → a < off + 4 → m a = m' a) : m.readInt32 off = m'.readInt32 off := by
  unfold readInt32
  rw [h off (by omega) (by omega), h (off + 1) (by omega) (by omega),
    h (off + 2) (by omega) (by omega), h (off + 3) (by omega) (by omega)]

/-- A stored 32-bit integer is read back unchanged. -/
theorem readInt32_write_int32Bytes (m : Memory) (off : Nat) {v : Int}
    (hlo : -2147483648 ≤ v) (hhi : v ≤ 2147483647) :
    (m.write off (int32Bytes v)).readInt32 off = v := by
  have h (i : Nat) (hi : i < 4) :
      m.write off (int32Bytes v) (off + i) = (int32Bytes v).getD i 0 := by
    rw [write_of_mem m ⟨by omega, by rw [length_int32Bytes]; omega⟩]
    congr 1
    omega
  have h0 := h 0 (by omega)
  rw [Nat.add_zero] at h0
  unfold readInt32
  rw [h0, h 1 (by omega), h 2 (by omega), h 3 (by omega)]
  simp only [int32Bytes, List.getD_cons_zero, List.getD_cons_succ, UInt8.toNat_ofNat']
  rw [Int.bmod_def]
  omega

end Memory

end Foundation
