import WeatherStation.Foundation.Doubleword
import WeatherStation.Foundation.Memory

/-!
# The flash ports

Reading, writing and erasing flash in three layers: the operations of the on-chip
port and of the SFUD port, the calls of the FAL partitions above them, and the
port of the EasyFlash library on top.  The functions are translated with the
outcome of every driver call as an input; a run is the value returned, together
with the driver calls made and what each of them came back with.

A {lit}`long` offset is given by its 32 bits, since it is used only after it has
been converted to an unsigned number.

Main results:

- Theorem {lit}`ret_falPartition`: a partition call returns the size as an
  {lit}`int`, or -1.
-/

open Foundation

namespace WeatherStation

namespace Flash

/-! ## Driver calls -/

/-- {lit}`HAL_StatusTypeDef` -/
inductive HalStatus where
  | ok
  | error
  | busy
  | timeout
deriving DecidableEq

/-- {lit}`sfud_err` -/
inductive SfudErr where
  | success
  | notFound
  | write
  | read
  | timeout
  | addrOutOfBound
deriving DecidableEq

/-- The banks of the on-chip flash. -/
inductive Bank where
  | bank1
  | bank2
deriving DecidableEq

/-- The outcomes of the driver calls that one operation may make.  The {lit}`k`-th
doubleword has its own status and its own value when it is read back, and the
{lit}`k`-th call that erases has its own status. -/
structure Outcomes where
  unlock : HalStatus
  program : Nat → HalStatus
  readBack : Nat → UInt64
  erase : Nat → HalStatus
  sfud : SfudErr

/-- A driver call and its outcome. -/
inductive Call where
  /-- {lit}`HAL_FLASH_Unlock` -/
  | unlock (status : HalStatus)
  /-- {lit}`HAL_FLASH_Lock`, which cannot fail -/
  | lock
  /-- {lit}`buf[i] = *(uint8_t *) addr` -/
  | load (i : Nat) (addr : UInt32)
  /-- {lit}`HAL_FLASH_Program` of a doubleword, and what is read back after it -/
  | program (addr : UInt32) (data : UInt64) (status : HalStatus) (readBack : UInt64)
  /-- {lit}`HAL_FLASHEx_Erase` -/
  | erase (banks : Bank) (page nbPages : Nat) (status : HalStatus)
  /-- {lit}`sfud_read` -/
  | sfudRead (addr size : UInt32) (err : SfudErr)
  /-- {lit}`sfud_write` -/
  | sfudWrite (addr size : UInt32) (buf : Nat → UInt8) (err : SfudErr)
  /-- {lit}`sfud_erase` -/
  | sfudErase (addr size : UInt32) (err : SfudErr)

/-- What a function returned and the calls it made. -/
structure Run where
  ret : Int
  calls : List Call

/-- A {lit}`size_t` returned as an {lit}`int`. -/
def asInt (n : UInt32) : Int :=
  if n.toNat < 2147483648 then n.toNat else n.toNat - 4294967296

theorem asInt_eq_iff (n : UInt32) : asInt n = n.toNat ↔ n.toNat < 2147483648 := by
  unfold asInt
  split_ifs with h
  · simp [h]
  · simp only [h, iff_false]
    omega

theorem eq_zero_iff_toNat (n : UInt32) : n = 0 ↔ n.toNat = 0 := by
  rw [← UInt32.toNat_inj]
  rfl

/-- A request carries the size of its range, and a write the bytes to be stored. -/
inductive Request where
  | read (size : UInt32)
  | write (buf : Nat → UInt8) (size : UInt32)
  | erase (size : UInt32)

/-- The size of the requested range. -/
def Request.size : Request → UInt32
  | .read size | .write _ size | .erase size => size

/-! ## The on-chip port -/

namespace OnChip

/-- {lit}`FLASH_START_ADRESS`, which is also the address of the device. -/
def FLASH_START_ADRESS : UInt32 := 0x08000000

/-- {lit}`FLASH_END_ADDRESS` -/
def FLASH_END_ADDRESS : UInt32 := 0x08080000

/-- The first address of the second bank. -/
def bank2Address : UInt32 := 0x08040000

/-- {lit}`FLASH_PAGE_SIZE` -/
def FLASH_PAGE_SIZE : Nat := 2048

/-- The address of an offset on the device. -/
def address (offset : UInt32) : UInt32 :=
  FLASH_START_ADRESS + offset

/-- The range check of the three operations, in 32-bit arithmetic. -/
def OutOfRange (offset size : UInt32) : Prop :=
  FLASH_END_ADDRESS < address offset + size

instance (offset size : UInt32) : Decidable (OutOfRange offset size) :=
  inferInstanceAs (Decidable (_ < _))

/-- The address of an offset in the flash is not reduced. -/
theorem toNat_address {offset : UInt32} (h : offset.toNat ≤ 512 * 1024) :
    (address offset).toNat = FLASH_START_ADRESS.toNat + offset.toNat := by
  have hstart : FLASH_START_ADRESS.toNat = 134217728 := rfl
  rw [address, UInt32.toNat_add]
  omega

/-- The range check does not turn down a range in the flash. -/
theorem not_outOfRange {offset size : UInt32} (h : offset.toNat + size.toNat ≤ 512 * 1024) :
    ¬OutOfRange offset size := by
  have hstart : FLASH_START_ADRESS.toNat = 134217728 := rfl
  have hend : FLASH_END_ADDRESS.toNat = 134742016 := rfl
  rw [OutOfRange, UInt32.not_lt, UInt32.le_iff_toNat_le, UInt32.toNat_add,
    toNat_address (by omega)]
  omega

/-- The loop of {lit}`read`, from the index {lit}`i` on with {lit}`n` bytes to go. -/
def readLoop (i : Nat) (addr : UInt32) : Nat → List Call
  | 0 => []
  | n + 1 => .load i addr :: readLoop (i + 1) (addr + 1) n

/-- {lit}`read` -/
def read (offset size : UInt32) : Run :=
  if OutOfRange offset size then ⟨-1, []⟩
  else ⟨asInt size, readLoop 0 (address offset) size.toNat⟩

/-- The number of bytes that the next doubleword takes from the buffer. -/
def chunkLength (size i : Nat) : Nat :=
  if size - i < 8 then size - i else 8

theorem chunkLength_bounds {size i : Nat} (h : i < size) :
    0 < chunkLength size i ∧ chunkLength size i ≤ 8 ∧ i + chunkLength size i ≤ size := by
  unfold chunkLength
  split_ifs <;> omega

/-- The loop of {lit}`write`: the calls and the final {lit}`status`.  The next
doubleword is the {lit}`k`-th one and takes the bytes from {lit}`i` on. -/
def writeLoop (o : Outcomes) (buf : Nat → UInt8) (size k i : Nat) (addr : UInt32) :
    List Call × Int :=
  if i < size then
    let n := chunkLength size i
    let write_data := packBytes (fun j => buf (i + j)) n
    let call := Call.program addr write_data (o.program k) (o.readBack k)
    if o.program k = .ok then
      if o.readBack k ≠ write_data then ([call], -1)
      else
        let rest := writeLoop o buf size (k + 1) (i + n) (addr + 8)
        (call :: rest.1, rest.2)
    else ([call], -1)
  else ([], 0)
termination_by size - i
decreasing_by
  have hchunk := chunkLength_bounds ‹i < size›
  omega

/-- {lit}`write` -/
def write (o : Outcomes) (offset : UInt32) (buf : Nat → UInt8) (size : UInt32) : Run :=
  if OutOfRange offset size then ⟨-1, []⟩
  -- The flash is already unlocked when an empty request is turned down.
  else if size < 1 then ⟨-1, [.unlock o.unlock]⟩
  else
    let loop := writeLoop o buf size.toNat 0 0 (address offset)
    ⟨if loop.2 ≠ 0 then loop.2 else asInt size, .unlock o.unlock :: loop.1 ++ [.lock]⟩

/-- The number of the page in which an address lies; pages of the second bank
are numbered from 256. -/
def pageOf (addr : UInt32) : Nat :=
  let page := (addr - FLASH_START_ADRESS).toNat / FLASH_PAGE_SIZE
  if addr < bank2Address then page else page + 128

/-- The bank that {lit}`erase` chooses for an address. -/
def bankOf (addr : UInt32) : Bank :=
  if addr < bank2Address then .bank1 else .bank2

/-- The number of pages for a size. -/
def pageCount (size : UInt32) : Nat :=
  if size.toNat % FLASH_PAGE_SIZE = 0 then size.toNat / FLASH_PAGE_SIZE
  else size.toNat / FLASH_PAGE_SIZE + 1

/-- The calls that {lit}`erase` makes for {lit}`n` pages from {lit}`page` on.  A
range outside the pages of the flash makes none. -/
def eraseCalls (o : Outcomes) (banks : Bank) (page n : Nat) : List Call :=
  if page < 128 ∧ 128 < n + page then
    if 256 < n + page then []
    else
      .erase banks page (128 - page) (o.erase 0) ::
        if o.erase 0 ≠ .ok then []
        else [.erase .bank2 256 (n - (128 - page)) (o.erase 1)]
  else if page < 128 ∧ n + page ≤ 128 then [.erase .bank1 page n (o.erase 0)]
  else if 256 ≤ page ∧ n + page ≤ 384 then [.erase .bank2 page n (o.erase 0)]
  else []

/-- {lit}`erase`, which returns the size whatever its {lit}`status` is. -/
def erase (o : Outcomes) (offset size : UInt32) : Run :=
  if OutOfRange offset size then ⟨-1, []⟩
  else
    let addr := address offset
    ⟨asInt size,
      .unlock o.unlock :: eraseCalls o (bankOf addr) (pageOf addr) (pageCount size) ++ [.lock]⟩

end OnChip

/-! ## The SFUD port -/

namespace Nor

/-- The address of the device. -/
def startAddress : UInt32 := 0

/-- The address of an offset on the device. -/
def address (offset : UInt32) : UInt32 :=
  startAddress + offset

/-- {lit}`read`, which ignores the result of {lit}`sfud_read`. -/
def read (o : Outcomes) (offset size : UInt32) : Run :=
  ⟨asInt size, [.sfudRead (address offset) size o.sfud]⟩

/-- {lit}`write` -/
def write (o : Outcomes) (offset : UInt32) (buf : Nat → UInt8) (size : UInt32) : Run :=
  ⟨if o.sfud ≠ .success then -1 else asInt size, [.sfudWrite (address offset) size buf o.sfud]⟩

/-- {lit}`erase` -/
def erase (o : Outcomes) (offset size : UInt32) : Run :=
  ⟨if o.sfud ≠ .success then -1 else asInt size, [.sfudErase (address offset) size o.sfud]⟩

end Nor

/-! ## Devices and partitions -/

/-- The devices of {lit}`FAL_FLASH_DEV_TABLE`. -/
inductive Device where
  | stm32l4_onchip_flash
  | nor_flash0
deriving DecidableEq

namespace Device

/-- The name of a device. -/
def name : Device → CStr
  | stm32l4_onchip_flash =>
      CStr.ofChars ['o', 'n', 'c', 'h', 'i', 'p', '_', 'f', 'l', 'a', 's', 'h']
  | nor_flash0 => CStr.ofChars ['n', 'o', 'r', '_', 'f', 'l', 'a', 's', 'h']

/-- The start address of a device. -/
def addr : Device → UInt32
  | stm32l4_onchip_flash => OnChip.FLASH_START_ADRESS
  | nor_flash0 => Nor.startAddress

/-- The operations {lit}`ops` of a device. -/
def ops (o : Outcomes) (offset : UInt32) : Device → Request → Run
  | stm32l4_onchip_flash, .read size => OnChip.read offset size
  | stm32l4_onchip_flash, .write buf size => OnChip.write o offset buf size
  | stm32l4_onchip_flash, .erase size => OnChip.erase o offset size
  | nor_flash0, .read size => Nor.read o offset size
  | nor_flash0, .write buf size => Nor.write o offset buf size
  | nor_flash0, .erase size => Nor.erase o offset size

end Device

/-- {lit}`FAL_DEV_NAME_MAX` -/
def FAL_DEV_NAME_MAX : Nat := 24

/-- {lit}`fal_flash_device_find`, with {lit}`strncmp` on strings that hold no zero
byte. -/
def falFlashDeviceFind (name : CStr) : Option Device :=
  [Device.stm32l4_onchip_flash, Device.nor_flash0].find? fun d =>
    name.bytes.take FAL_DEV_NAME_MAX = d.name.bytes.take FAL_DEV_NAME_MAX

/-- What the calls use of {lit}`struct fal_partition`. -/
structure Partition where
  flash_name : CStr
  offset : UInt32
  len : UInt32

/-- What {lit}`fal_partition_read`, {lit}`fal_partition_write` and
{lit}`fal_partition_erase` share: they differ in the operation of the device only. -/
def falPartition (o : Outcomes) (part : Partition) (addr : UInt32) (rq : Request) : Run :=
  if part.len < addr + rq.size then ⟨-1, []⟩
  else
    match falFlashDeviceFind part.flash_name with
    | none => ⟨-1, []⟩
    | some flash_dev => flash_dev.ops o (part.offset + addr) rq

/-- {lit}`fal_partition_read` -/
def falPartitionRead (o : Outcomes) (part : Partition) (addr size : UInt32) : Run :=
  falPartition o part addr (.read size)

/-- {lit}`fal_partition_write` -/
def falPartitionWrite (o : Outcomes) (part : Partition) (addr : UInt32) (buf : Nat → UInt8)
    (size : UInt32) : Run :=
  falPartition o part addr (.write buf size)

/-- {lit}`fal_partition_erase` -/
def falPartitionErase (o : Outcomes) (part : Partition) (addr size : UInt32) : Run :=
  falPartition o part addr (.erase size)

/-! ## The EasyFlash port -/

/-- The results of the port. -/
inductive EfErrCode where
  | noErr
  | eraseErr
  | readErr
  | writeErr
deriving DecidableEq

/-- {lit}`EF_ERASE_MIN_SIZE` -/
def EF_ERASE_MIN_SIZE : UInt32 := 4096

/-- {lit}`ef_port_read`, which ignores the result of {lit}`fal_partition_read`. -/
def efPortRead (o : Outcomes) (part : Partition) (addr size : UInt32) : EfErrCode × List Call :=
  (.noErr, (falPartitionRead o part addr size).calls)

/-- {lit}`ef_port_erase`; a failed assertion never returns. -/
def efPortErase (o : Outcomes) (part : Partition) (addr size : UInt32) :
    Option (EfErrCode × List Call) :=
  if addr % EF_ERASE_MIN_SIZE = 0 then
    let run := falPartitionErase o part addr size
    some (if run.ret < 0 then .eraseErr else .noErr, run.calls)
  else none

/-- {lit}`ef_port_write` -/
def efPortWrite (o : Outcomes) (part : Partition) (addr : UInt32) (buf : Nat → UInt8)
    (size : UInt32) : EfErrCode × List Call :=
  let run := falPartitionWrite o part addr buf size
  (if run.ret < 0 then .writeErr else .noErr, run.calls)

/-! ## Returned values -/

/-- The status of {lit}`write` is 0 or -1. -/
theorem OnChip.writeLoop_status (o : Outcomes) (buf : Nat → UInt8) (size k i : Nat)
    (addr : UInt32) :
    (writeLoop o buf size k i addr).2 = 0 ∨ (writeLoop o buf size k i addr).2 = -1 := by
  fun_induction writeLoop o buf size k i addr with
  | case1 => exact .inr rfl
  | case2 _ _ _ _ _ _ _ _ _ _ ih => exact ih
  | case3 => exact .inr rfl
  | case4 => exact .inl rfl

/-- An operation of a device returns the size as an {lit}`int`, or -1. -/
theorem Device.ret_ops (d : Device) (o : Outcomes) (offset : UInt32) (rq : Request) :
    (d.ops o offset rq).ret = asInt rq.size ∨ (d.ops o offset rq).ret = -1 := by
  cases d with
  | stm32l4_onchip_flash =>
      cases rq with
      | read size =>
          simp only [ops, OnChip.read]
          split_ifs
          · exact .inr rfl
          · exact .inl rfl
      | write buf size =>
          simp only [ops, OnChip.write]
          split_ifs with hrange hempty hstatus
          · exact .inr rfl
          · exact .inr rfl
          · exact .inr ((OnChip.writeLoop_status ..).resolve_left hstatus)
          · exact .inl rfl
      | erase size =>
          simp only [ops, OnChip.erase]
          split_ifs
          · exact .inr rfl
          · exact .inl rfl
  | nor_flash0 =>
      cases rq with
      | read size => exact .inl rfl
      | write buf size =>
          simp only [ops, Nor.write]
          split_ifs
          · exact .inr rfl
          · exact .inl rfl
      | erase size =>
          simp only [ops, Nor.erase]
          split_ifs
          · exact .inr rfl
          · exact .inl rfl

/-- A partition call returns the size as an {lit}`int`, or -1. -/
theorem ret_falPartition (o : Outcomes) (part : Partition) (addr : UInt32) (rq : Request) :
    (falPartition o part addr rq).ret = asInt rq.size ∨
      (falPartition o part addr rq).ret = -1 := by
  unfold falPartition
  split_ifs
  · exact .inr rfl
  · cases falFlashDeviceFind part.flash_name with
    | none => exact .inr rfl
    | some d => exact d.ret_ops o _ rq

/-- A partition call that returns no error returns the size. -/
theorem falPartition_ret_nonneg_iff (o : Outcomes) (part : Partition) (addr : UInt32)
    (rq : Request) :
    ¬(falPartition o part addr rq).ret < 0 ↔
      (falPartition o part addr rq).ret = rq.size.toNat := by
  have hlt := rq.size.toNat_lt
  rcases ret_falPartition o part addr rq with h | h
  · rw [h, asInt_eq_iff]
    unfold asInt
    split_ifs <;> omega
  · rw [h]
    omega

end Flash

end WeatherStation
