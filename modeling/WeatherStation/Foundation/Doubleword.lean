import Mathlib.Algebra.Order.Ring.Nat
import Mathlib.Tactic.Ring
import WeatherStation.Foundation.Memory

/-!
# Packing bytes into a doubleword

A driver that hands data to hardware in words of 64 bits collects the bytes of a
buffer with shifts and ors.  This module fixes that packing and shows what the
word leaves in a little-endian memory.

Main results:

- Theorem {lit}`toNat_packBytes`: packing is the positional value of the bytes.
- Theorem {lit}`byteAt_packBytes`: every byte of the word is the buffer's byte.
- Theorem {lit}`loadDword_storeDword`: a doubleword that is stored is read back.
-/

namespace Foundation

/-- The first {lit}`n` bytes of a buffer or-ed into a doubleword, each shifted to
its place. -/
def packBytes (buf : Nat → UInt8) : Nat → UInt64
  | 0 => 0
  | n + 1 => packBytes buf n ||| ((buf n).toUInt64 <<< UInt64.ofNat (8 * n))

/-- The byte that a little-endian memory holds {lit}`j` addresses behind the start
of a doubleword. -/
def byteAt (d : UInt64) (j : Nat) : UInt8 :=
  UInt8.ofNat (d.toNat / 2 ^ (8 * j))

/-- One more byte adds its positional value. -/
theorem toNat_packBytes_succ (buf : Nat → UInt8) {n : Nat} (hn : n < 8)
    (hlt : (packBytes buf n).toNat < 2 ^ (8 * n)) :
    (packBytes buf (n + 1)).toNat = 2 ^ (8 * n) * (buf n).toNat + (packBytes buf n).toNat := by
  have hshift : (UInt64.ofNat (8 * n)).toNat % 64 = 8 * n := by
    rw [UInt64.toNat_ofNat']
    omega
  have hbyte : (buf n).toNat < 2 ^ 8 := (buf n).toNat_lt
  have hfit : (buf n).toNat * 2 ^ (8 * n) < 2 ^ 64 := by
    calc (buf n).toNat * 2 ^ (8 * n)
        < 2 ^ 8 * 2 ^ (8 * n) := Nat.mul_lt_mul_of_pos_right hbyte (Nat.two_pow_pos _)
      _ = 2 ^ (8 + 8 * n) := (pow_add 2 8 (8 * n)).symm
      _ ≤ 2 ^ 64 := Nat.pow_le_pow_right (by omega) (by omega)
  rw [packBytes, UInt64.toNat_or, UInt64.toNat_shiftLeft, UInt8.toNat_toUInt64, hshift,
    Nat.shiftLeft_eq, Nat.mod_eq_of_lt hfit, Nat.or_comm, Nat.mul_comm (buf n).toNat,
    ← Nat.two_pow_add_eq_or_of_lt hlt]

/-- The packed bytes take no more than their own bits. -/
theorem toNat_packBytes_lt (buf : Nat → UInt8) {n : Nat} (hn : n ≤ 8) :
    (packBytes buf n).toNat < 2 ^ (8 * n) := by
  induction n with
  | zero => exact Nat.one_pos
  | succ n ih =>
      have hlt := ih (Nat.le_of_succ_le hn)
      have hbyte : (buf n).toNat + 1 ≤ 2 ^ 8 := (buf n).toNat_lt
      rw [toNat_packBytes_succ buf hn hlt]
      calc 2 ^ (8 * n) * (buf n).toNat + (packBytes buf n).toNat
          < 2 ^ (8 * n) * ((buf n).toNat + 1) := by rw [Nat.mul_succ]; omega
        _ ≤ 2 ^ (8 * n) * 2 ^ 8 := Nat.mul_le_mul_left _ hbyte
        _ = 2 ^ (8 * (n + 1)) := by rw [← pow_add]; ring_nf

/-- Packing is the positional value of the bytes. -/
theorem toNat_packBytes (buf : Nat → UInt8) {n : Nat} (hn : n < 8) :
    (packBytes buf (n + 1)).toNat = 2 ^ (8 * n) * (buf n).toNat + (packBytes buf n).toNat :=
  toNat_packBytes_succ buf hn (toNat_packBytes_lt buf hn.le)

/-- Every byte of the packed word is the buffer's byte. -/
theorem byteAt_packBytes (buf : Nat → UInt8) {n j : Nat} (hn : n ≤ 8) (hj : j < n) :
    byteAt (packBytes buf n) j = buf j := by
  have hdigit : (packBytes buf n).toNat / 2 ^ (8 * j) % 2 ^ 8 = (buf j).toNat := by
    induction n with
    | zero => exact absurd hj (Nat.not_lt_zero j)
    | succ n ih =>
        rw [toNat_packBytes buf hn]
        rcases Nat.lt_succ_iff_lt_or_eq.mp hj with hlt | rfl
        · -- A later byte lies above the eight bits in question.
          have hsplit : 2 ^ (8 * n) = 2 ^ (8 * j) * (2 ^ 8 * 2 ^ (8 * (n - j - 1))) := by
            rw [← pow_add, ← pow_add]
            congr 1
            omega
          rw [hsplit, Nat.mul_assoc, Nat.mul_add_div (Nat.two_pow_pos _), Nat.mul_assoc (2 ^ 8),
            Nat.mul_add_mod]
          exact ih (Nat.le_of_succ_le hn) hlt
        · rw [Nat.mul_add_div (Nat.two_pow_pos _),
            Nat.div_eq_of_lt (toNat_packBytes_lt buf (Nat.le_of_succ_le hn)), Nat.add_zero]
          exact Nat.mod_eq_of_lt (buf j).toNat_lt
  apply UInt8.toNat_inj.mp
  rw [byteAt, UInt8.toNat_ofNat', hdigit]

/-- The bytes that were not packed are zero. -/
theorem byteAt_packBytes_of_le (buf : Nat → UInt8) {n j : Nat} (hn : n ≤ 8) (hj : n ≤ j) :
    byteAt (packBytes buf n) j = 0 := by
  have hlt : (packBytes buf n).toNat < 2 ^ (8 * j) :=
    (toNat_packBytes_lt buf hn).trans_le (Nat.pow_le_pow_right (by omega) (by omega))
  rw [byteAt, Nat.div_eq_of_lt hlt]
  rfl

/-- Packing the bytes of a doubleword gives the doubleword again. -/
theorem packBytes_byteAt (d : UInt64) : packBytes (byteAt d) 8 = d := by
  have hfront (n : Nat) (hn : n ≤ 8) :
      (packBytes (byteAt d) n).toNat = d.toNat % 2 ^ (8 * n) := by
    induction n with
    | zero => exact (Nat.mod_one _).symm
    | succ n ih =>
        rw [toNat_packBytes _ hn, ih (Nat.le_of_succ_le hn), byteAt, UInt8.toNat_ofNat',
          Nat.mul_succ, pow_add, Nat.mod_mul, Nat.add_comm]
  apply UInt64.toNat_inj.mp
  rw [hfront 8 le_rfl]
  exact Nat.mod_eq_of_lt d.toNat_lt

/-! ## Doublewords in memory -/

/-- Store a doubleword, least significant byte first. -/
def storeDword (m : Memory) (addr : Nat) (d : UInt64) : Memory :=
  m.write addr ((List.range 8).map (byteAt d))

/-- The doubleword at an address. -/
def loadDword (m : Memory) (addr : Nat) : UInt64 :=
  packBytes (fun j => m (addr + j)) 8

theorem storeDword_of_mem (m : Memory) {addr a : Nat} (d : UInt64)
    (h : addr ≤ a ∧ a < addr + 8) : storeDword m addr d a = byteAt d (a - addr) := by
  have hlt : a - addr < 8 := by omega
  rw [storeDword, Memory.write_of_mem m (by simpa using h)]
  simp [hlt]

theorem storeDword_of_not_mem (m : Memory) {addr a : Nat} (d : UInt64)
    (h : ¬(addr ≤ a ∧ a < addr + 8)) : storeDword m addr d a = m a :=
  Memory.write_of_not_mem m (by simpa using h)

/-- A doubleword that is stored is read back. -/
theorem loadDword_storeDword (m : Memory) (addr : Nat) (d : UInt64) :
    loadDword (storeDword m addr d) addr = d := by
  have hbytes (n : Nat) (hn : n ≤ 8) :
      packBytes (fun j => storeDword m addr d (addr + j)) n = packBytes (byteAt d) n := by
    induction n with
    | zero => rfl
    | succ n ih =>
        rw [packBytes, packBytes, ih (Nat.le_of_succ_le hn),
          storeDword_of_mem m d ⟨Nat.le_add_right addr n, by omega⟩, Nat.add_sub_cancel_left]
  rw [loadDword, hbytes 8 le_rfl, packBytes_byteAt]

end Foundation
