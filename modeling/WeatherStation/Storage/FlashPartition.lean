import WeatherStation.Storage.FlashStore

/-!
# Partitions of the on-chip flash

A partition is a range of a device.  Its calls add its offset to the address and compare the end of
a request with its length in 32-bit arithmetic.  A request that ends in its partition stays there,
whatever the driver calls come back with: it changes nothing in another partition.

Main results:

- Theorem {lit}`run_eq_access`: a call of a partition is an access to its device.
- Theorem {lit}`touches_inside`: such an access touches its partition only.
- Theorem {lit}`read_other_partition`: no sequence of calls of one partition changes what is read
  from another one.
- Theorem {lit}`read_bootloader`: the two partitions of the table.
-/

open Foundation

namespace WeatherStation

namespace Flash

/-! ## Partitions -/

/-- The entry {lit}`"bootloader"` of {lit}`FAL_PART_TABLE`. -/
def bootloader : Partition :=
  ⟨Device.stm32l4_onchip_flash.name, 0, 64 * 1024⟩

/-- The entry {lit}`"app"` of {lit}`FAL_PART_TABLE`. -/
def app : Partition :=
  ⟨Device.stm32l4_onchip_flash.name, 64 * 1024, 448 * 1024⟩

/-- A partition of the on-chip flash that consists of whole pages. -/
structure Partition.OnChipPages (part : Partition) : Prop where
  device : falFlashDeviceFind part.flash_name = some .stm32l4_onchip_flash
  start : part.offset.toNat % 2048 = 0
  pages : part.len.toNat % 2048 = 0
  fits : part.offset.toNat + part.len.toNat ≤ 512 * 1024

theorem onChipPages_bootloader : bootloader.OnChipPages where
  device := by decide
  start := rfl
  pages := rfl
  fits := by decide

theorem onChipPages_app : app.OnChipPages where
  device := by decide
  start := rfl
  pages := rfl
  fits := by decide

/-- A call of a partition for a range that ends in it; a write starts with a doubleword. -/
structure PartitionCall (part : Partition) where
  o : Outcomes
  addr : UInt32
  rq : Request
  inside : addr.toNat + rq.size.toNat ≤ part.len.toNat
  aligned : ∀ buf size, rq = .write buf size → addr.toNat % 8 = 0

namespace PartitionCall

variable {part : Partition}

/-- The run of the call. -/
def run (q : PartitionCall part) : Run :=
  falPartition q.o part q.addr q.rq

/-- The offset of a range in a partition is not reduced. -/
theorem toNat_offset (hpart : part.OnChipPages) (q : PartitionCall part) :
    (part.offset + q.addr).toNat = part.offset.toNat + q.addr.toNat := by
  have hfits := hpart.fits
  have hinside := q.inside
  rw [UInt32.toNat_add]
  omega

section Access

variable (hpart : part.OnChipPages) (q : PartitionCall part)

/-- The access to the device. -/
def access : OnChip.Access where
  o := q.o
  offset := part.offset + q.addr
  rq := q.rq
  fits := by
    have hfits := hpart.fits
    have hinside := q.inside
    have hoffset := q.toNat_offset hpart
    omega

/-- A call of a partition is an access to its device. -/
theorem run_eq_access : q.run = (q.access hpart).run := by
  have hinside := q.inside
  have hlt := part.len.toNat_lt
  have hlen : ¬part.len < q.addr + q.rq.size := by
    rw [UInt32.not_lt, UInt32.le_iff_toNat_le, UInt32.toNat_add]
    omega
  rw [run, falPartition, if_neg hlen, hpart.device]
  rfl

/-- The access touches the partition only. -/
theorem touches_inside {w : Nat} (h : (q.access hpart).Touches w) :
    part.offset.toNat ≤ w ∧ w < part.offset.toNat + part.len.toNat := by
  have hoffset := q.toNat_offset hpart
  have hstart := hpart.start
  have hpages := hpart.pages
  obtain ⟨o, addr, rq, inside, aligned⟩ := q
  cases rq with
  | read size => exact h.elim
  | write buf size =>
      have haligned := aligned buf size rfl
      have hinside : addr.toNat + size.toNat ≤ part.len.toNat := inside
      have htouch : (part.offset + addr).toNat ≤ w ∧
          w < (part.offset + addr).toNat + OnChip.roundUp size.toNat := h
      unfold OnChip.roundUp at htouch
      dsimp only at hoffset
      omega
  | erase size =>
      have hinside : addr.toNat + size.toNat ≤ part.len.toNat := inside
      have htouch : (part.offset + addr).toNat / 2048 ≤ w / 2048 ∧
          w / 2048 < (part.offset + addr).toNat / 2048 + OnChip.pageCount size := h
      have hcount := OnChip.pageCount_bounds size
      dsimp only at hoffset
      omega

end Access

end PartitionCall

/-! ## Other partitions -/

section Other

variable {part other : Partition}

/-- Calls of a partition keep the content of another one, whatever their outcomes are. -/
theorem other_partition_kept (hpart : part.OnChipPages)
    (hapart : other.offset.toNat + other.len.toNat ≤ part.offset.toNat ∨
      part.offset.toNat + part.len.toNat ≤ other.offset.toNat)
    {qs : List (PartitionCall part)} {m m' : Memory}
    (h : Leads m (qs.flatMap fun q => q.run.calls) m') {w : Nat} (hw : w < 524288)
    (hother : other.offset.toNat ≤ w ∧ w < other.offset.toNat + other.len.toNat) :
    m' (OnChip.FLASH_START_ADRESS.toNat + w) = m (OnChip.FLASH_START_ADRESS.toNat + w) := by
  induction qs generalizing m with
  | nil => exact congrFun (show m' = m from h) _
  | cons q qs ih =>
      rw [List.flatMap_cons, leads_append, q.run_eq_access hpart] at h
      obtain ⟨m₁, hfirst, hrest⟩ := h
      have hno : ¬(q.access hpart).Touches w := fun htouch => by
        have hinside := q.touches_inside hpart htouch
        omega
      exact (ih hrest).trans ((q.access hpart).kept_of_not_touches hw hfirst hno)

/-- No sequence of calls of one partition changes what is read from another one. -/
theorem read_other_partition (hpart : part.OnChipPages) (hother : other.OnChipPages)
    (hapart : other.offset.toNat + other.len.toNat ≤ part.offset.toNat ∨
      part.offset.toNat + part.len.toNat ≤ other.offset.toNat)
    {qs : List (PartitionCall part)} {m m' : Memory}
    (h : Leads m (qs.flatMap fun q => q.run.calls) m') (o : Outcomes) {addr size : UInt32}
    (hinside : addr.toNat + size.toNat ≤ other.len.toNat) (out : Nat → UInt8) :
    loads m' (falPartitionRead o other addr size).calls out =
      loads m (falPartitionRead o other addr size).calls out := by
  let q : PartitionCall other := ⟨o, addr, .read size, hinside, fun _ _ h => by contradiction⟩
  have hfits := hother.fits
  have hoffset : (other.offset + addr).toNat = other.offset.toNat + addr.toNat :=
    q.toNat_offset hother
  have hread : (falPartitionRead o other addr size).calls =
      OnChip.readLoop 0 (OnChip.address (other.offset + addr)) size.toNat := by
    have hrange : ¬OnChip.OutOfRange (other.offset + addr) size :=
      OnChip.not_outOfRange (q.access hother).fits
    show q.run.calls = _
    rw [q.run_eq_access hother]
    show (OnChip.read (other.offset + addr) size).calls = _
    rw [OnChip.read, if_neg hrange]
  have hstart : OnChip.FLASH_START_ADRESS.toNat = 134217728 := rfl
  have haddr : (OnChip.address (other.offset + addr)).toNat =
      OnChip.FLASH_START_ADRESS.toNat + (other.offset.toNat + addr.toNat) := by
    rw [OnChip.toNat_address (by omega), hoffset]
  rw [hread]
  funext j
  rw [OnChip.loads_readLoop _ _ _ _ _ (by omega), OnChip.loads_readLoop _ _ _ _ _ (by omega)]
  by_cases hj : 0 ≤ j ∧ j < 0 + size.toNat
  · rw [if_pos hj, if_pos hj, haddr, Nat.add_assoc _ _ (j - 0)]
    exact other_partition_kept hpart hapart h (by omega) (by omega)
  · rw [if_neg hj, if_neg hj]

/-- No sequence of calls of {lit}`"app"` changes what is read from {lit}`"bootloader"`. -/
theorem read_bootloader {qs : List (PartitionCall app)} {m m' : Memory}
    (h : Leads m (qs.flatMap fun q => q.run.calls) m') (o : Outcomes) {addr size : UInt32}
    (hinside : addr.toNat + size.toNat ≤ bootloader.len.toNat) (out : Nat → UInt8) :
    loads m' (falPartitionRead o bootloader addr size).calls out =
      loads m (falPartitionRead o bootloader addr size).calls out :=
  read_other_partition onChipPages_app onChipPages_bootloader (.inl (by decide)) h o hinside out

/-- The sum in the check of {lit}`"app"` is 0 here, and the pages lie in {lit}`"bootloader"`. -/
example : (falPartitionErase (OnChip.working (fun _ => 0) 0) app 0xFFFFF000 4096).calls =
    [.unlock .ok, .erase .bank1 30 2 .ok, .lock] := rfl

end Other

end Flash

end WeatherStation
