import WeatherStation.Storage.FlashPort

/-!
# What a flash operation reports

An operation is truthful when it reports success only after every driver call it
made succeeded and every byte of the requested range was processed, and when the
on-chip flash is locked at its end.  This module determines, for the nine
operations of the three layers, the inputs and outcomes for which they are.

Main results:

- Theorem {lit}`device_truthful_iff`: the condition for each operation of the two
  devices.
- Theorem {lit}`truthful_iff`: the condition for every operation of the port.
-/

open Foundation

namespace WeatherStation

namespace Flash

/-! ## Success and range of the calls -/

/-- The call returned the status of success. -/
def Call.Succeeded : Call → Prop
  | .unlock status => status = .ok
  | .lock => True
  | .load _ _ => True
  | .program _ _ status _ => status = .ok
  | .erase _ _ _ status => status = .ok
  | .sfudRead _ _ err => err = .success
  | .sfudWrite _ _ _ err => err = .success
  | .sfudErase _ _ err => err = .success

/-- The lock bit of the on-chip flash after a call. -/
def Call.locked (locked : Bool) : Call → Bool
  | .unlock status => if status = .ok then false else locked
  | .lock => true
  | _ => locked

/-- The lock bit after several calls. -/
def lockedAfter (locked : Bool) (calls : List Call) : Bool :=
  calls.foldl Call.locked locked

/-- The first address of a bank. -/
def Bank.start : Bank → UInt32
  | .bank1 => OnChip.FLASH_START_ADRESS
  | .bank2 => OnChip.bank2Address

/-- The addresses that {lit}`FLASH_PageErase` clears: it selects the bank and, in
it, the page given by the low byte of the page number. -/
def Bank.Page (b : Bank) (page : Nat) (a : UInt32) : Prop :=
  b.start.toNat + OnChip.FLASH_PAGE_SIZE * (page % 256) ≤ a.toNat ∧
    a.toNat < b.start.toNat + OnChip.FLASH_PAGE_SIZE * (page % 256) + OnChip.FLASH_PAGE_SIZE

/-- The call did what the request asks for the byte with index {lit}`i`, which has
the address {lit}`a` on the device: it was loaded, stored and verified, or erased. -/
def Call.Processes (d : Device) (rq : Request) (i : Nat) (a : UInt32) (c : Call) : Prop :=
  c.Succeeded ∧
    match d, rq, c with
    | .stm32l4_onchip_flash, .read _, .load i' a' => i' = i ∧ a' = a
    | .stm32l4_onchip_flash, .write buf _, .program a' data _ readBack =>
        readBack = data ∧ ∃ j < 8, a = a' + UInt32.ofNat j ∧ byteAt readBack j = buf i
    | .stm32l4_onchip_flash, .erase _, .erase banks page nbPages _ =>
        ∃ p, page ≤ p ∧ p < page + nbPages ∧ banks.Page p a
    | .nor_flash0, .read _, .sfudRead a' n _ => i < n.toNat ∧ a = a' + UInt32.ofNat i
    | .nor_flash0, .write buf _, .sfudWrite a' n buf' _ =>
        i < n.toNat ∧ a = a' + UInt32.ofNat i ∧ buf' i = buf i
    | .nor_flash0, .erase _, .sfudErase a' n _ => i < n.toNat ∧ a = a' + UInt32.ofNat i
    | _, _, _ => False

/-- Every call succeeded and every byte of the request was processed on the target,
which is missing when no device was found. -/
def Done (calls : List Call) (rq : Request) (target : Option (Device × UInt32)) : Prop :=
  (∀ c ∈ calls, c.Succeeded) ∧
    ∀ i < rq.size.toNat, ∃ d base, target = some (d, base) ∧
      ∃ c ∈ calls, c.Processes d rq i (base + UInt32.ofNat i)

/-! ## Operations and the law -/

/-- The device and first address that a partition call aims at. -/
def Partition.target (part : Partition) (addr : UInt32) : Option (Device × UInt32) :=
  (falFlashDeviceFind part.flash_name).map fun d => (d, d.addr + (part.offset + addr))

/-- An operation of one of the three layers. -/
inductive Operation where
  | device (d : Device) (offset : UInt32) (rq : Request)
  | partition (part : Partition) (addr : UInt32) (rq : Request)
  | efPort (part : Partition) (addr : UInt32) (rq : Request)

namespace Operation

/-- What is requested. -/
def request : Operation → Request
  | device _ _ rq | partition _ _ rq | efPort _ _ rq => rq

/-- The device and the address of the first byte of the request. -/
def target : Operation → Option (Device × UInt32)
  | device d offset _ => some (d, d.addr + offset)
  | partition part addr _ | efPort part addr _ => part.target addr

/-- The driver calls made. -/
def calls (o : Outcomes) : Operation → List Call
  | device d offset rq => (d.ops o offset rq).calls
  | partition part addr rq => (falPartition o part addr rq).calls
  | efPort part addr (.read size) => (efPortRead o part addr size).2
  | efPort part addr (.write buf size) => (efPortWrite o part addr buf size).2
  | efPort part addr (.erase size) => ((efPortErase o part addr size).map Prod.snd).getD []

/-- The operation returns its value of success: the size, or no error. -/
def ReportsSuccess (o : Outcomes) : Operation → Prop
  | device d offset rq => (d.ops o offset rq).ret = rq.size.toNat
  | partition part addr rq => (falPartition o part addr rq).ret = rq.size.toNat
  | efPort part addr (.read size) => (efPortRead o part addr size).1 = .noErr
  | efPort part addr (.write buf size) => (efPortWrite o part addr buf size).1 = .noErr
  | efPort part addr (.erase size) =>
      (efPortErase o part addr size).map Prod.fst = some .noErr

/-- Success is reported only when the request is done, and a flash that was locked
is locked again. -/
def Truthful (o : Outcomes) (op : Operation) : Prop :=
  (op.ReportsSuccess o → Done (op.calls o) op.request op.target) ∧
    lockedAfter true (op.calls o) = true

end Operation

/-! ## The conditions -/

namespace OnChip

/-- The {lit}`k`-th doubleword of a write is programmed and reads back as it was
packed. -/
def Stored (o : Outcomes) (buf : Nat → UInt8) (size k i : Nat) : Prop :=
  o.program k = .ok ∧
    o.readBack k = packBytes (fun j => buf (i + j)) (chunkLength size i)

/-- A write is truthful when the range check turns it down.  Otherwise an empty one
is, if the flash could not be unlocked, and a nonempty one is, if the flash was
unlocked, the size is no {lit}`int`, or some doubleword was not stored. -/
def WriteSound (o : Outcomes) (offset : UInt32) (buf : Nat → UInt8) (size : UInt32) : Prop :=
  OutOfRange offset size ∨
    if size = 0 then o.unlock ≠ .ok
    else o.unlock = .ok ∨ 2147483648 ≤ size.toNat ∨
      ∃ k, 8 * k < size.toNat ∧ ¬Stored o buf size.toNat k (8 * k)

/-- The offset lies on the device, or is its end. -/
def OnDevice (offset : UInt32) : Prop :=
  FLASH_START_ADRESS ≤ address offset ∧ address offset ≤ FLASH_END_ADDRESS

/-- The pages of a range go on into the second bank. -/
def CrossesBanks (offset size : UInt32) : Prop :=
  pageOf (address offset) < 128 ∧ 128 < pageCount size + pageOf (address offset)

/-- An erase is truthful when the range check turns it down or the size is no
{lit}`int`.  Otherwise the flash must have been unlocked, and either the offset is on
the device, both banks are erased as far as they are needed and the page count
reaches the end of the range, or the range is empty. -/
def EraseSound (o : Outcomes) (offset size : UInt32) : Prop :=
  OutOfRange offset size ∨ 2147483648 ≤ size.toNat ∨
    o.unlock = .ok ∧
      ((OnDevice offset ∧ o.erase 0 = .ok ∧ (CrossesBanks offset size → o.erase 1 = .ok) ∧
          (size = 0 ∨
            offset.toNat % FLASH_PAGE_SIZE + size.toNat ≤ FLASH_PAGE_SIZE * pageCount size)) ∨
        ¬OnDevice offset ∧ size = 0)

end OnChip

/-- The condition for an operation of a device. -/
def Device.Sound (o : Outcomes) (offset : UInt32) : Device → Request → Prop
  | .stm32l4_onchip_flash, .read _ => True
  | .stm32l4_onchip_flash, .write buf size => OnChip.WriteSound o offset buf size
  | .stm32l4_onchip_flash, .erase size => OnChip.EraseSound o offset size
  | .nor_flash0, .read size => o.sfud = .success ∨ 2147483648 ≤ size.toNat
  | .nor_flash0, .write _ _ => True
  | .nor_flash0, .erase _ => True

/-- A partition call turns the request down, or the operation of its device at the
offset of the partition meets its condition. -/
def Partition.Sound (o : Outcomes) (part : Partition) (addr : UInt32) (rq : Request) : Prop :=
  part.len < addr + rq.size ∨
    ∀ d, falFlashDeviceFind part.flash_name = some d → d.Sound o (part.offset + addr) rq

/-- The read of the port, which never reports an error, must succeed, or be one of
nothing that reaches no driver. -/
def Partition.ReadSound (o : Outcomes) (part : Partition) (addr size : UInt32) : Prop :=
  match falFlashDeviceFind part.flash_name with
  | some .stm32l4_onchip_flash =>
      size = 0 ∨ ¬part.len < addr + size ∧ ¬OnChip.OutOfRange (part.offset + addr) size
  | some .nor_flash0 =>
      if part.len < addr + size then size = 0 else o.sfud = .success
  | none => size = 0

/-- The condition for every operation. -/
def Operation.Sound (o : Outcomes) : Operation → Prop
  | device d offset rq => d.Sound o offset rq
  | partition part addr rq => part.Sound o addr rq
  | efPort part addr (.read size) => part.ReadSound o addr size
  | efPort part addr (.write buf size) => part.Sound o addr (.write buf size)
  | efPort part addr (.erase size) =>
      addr % EF_ERASE_MIN_SIZE ≠ 0 ∨ part.Sound o addr (.erase size)

/-- What holds below a bound holds or the bound is reached. -/
theorem lt_imp_iff_or_le {n k : Nat} {p : Prop} : (n < k → p) ↔ p ∨ k ≤ n := by
  rw [← Nat.not_lt, or_comm, ← imp_iff_not_or]

/-! ## The lock bit -/

theorem lockedAfter_append (locked : Bool) (calls calls' : List Call) :
    lockedAfter locked (calls ++ calls') = lockedAfter (lockedAfter locked calls) calls' :=
  List.foldl_append

/-- Calls that end with locking leave the flash locked. -/
@[simp] theorem lockedAfter_lock (locked : Bool) (calls : List Call) :
    lockedAfter locked (calls ++ [.lock]) = true := by
  rw [lockedAfter_append]
  rfl

/-- Loading bytes does not touch the lock. -/
theorem OnChip.lockedAfter_readLoop (locked : Bool) (i : Nat) (addr : UInt32) (n : Nat) :
    lockedAfter locked (readLoop i addr n) = locked := by
  induction n generalizing i addr with
  | zero => rfl
  | succ n ih => exact ih (i + 1) (addr + 1)

/-! ## Reading -/

namespace OnChip

/-- The loop of {lit}`read` makes calls that succeed and load every byte. -/
theorem done_readLoop (size : UInt32) (i : Nat) (addr : UInt32) (n : Nat) :
    (∀ c ∈ readLoop i addr n, c.Succeeded) ∧
      ∀ p < n, ∃ c ∈ readLoop i addr n,
        c.Processes .stm32l4_onchip_flash (.read size) (i + p) (addr + UInt32.ofNat p) := by
  induction n generalizing i addr with
  | zero => exact ⟨by simp [readLoop], fun p hp => absurd hp (Nat.not_lt_zero p)⟩
  | succ n ih =>
      rcases ih (i + 1) (addr + 1) with ⟨hok, hrange⟩
      rw [readLoop]
      refine ⟨?_, fun p hp => ?_⟩
      · rw [List.forall_mem_cons]
        exact ⟨trivial, hok⟩
      · cases p with
        | zero => exact ⟨_, List.mem_cons_self, trivial, rfl, by simp⟩
        | succ p =>
            rcases hrange p (Nat.lt_of_succ_lt_succ hp) with ⟨c, hc, hproc⟩
            refine ⟨c, List.mem_cons_of_mem _ hc, ?_⟩
            have haddr : addr + UInt32.ofNat (p + 1) = addr + 1 + UInt32.ofNat p := by
              rw [UInt32.ofNat_add, UInt32.add_comm (UInt32.ofNat p), ← UInt32.add_assoc]
              rfl
            rw [haddr, Nat.add_comm p 1, ← Nat.add_assoc]
            exact hproc

/-- A read that passes the range check is done. -/
theorem done_read {offset size : UInt32} (h : ¬OutOfRange offset size) :
    Done (read offset size).calls (.read size)
      (some (.stm32l4_onchip_flash, address offset)) := by
  rw [read, if_neg h]
  rcases done_readLoop size 0 (address offset) size.toNat with ⟨hok, hrange⟩
  refine ⟨hok, fun i hi => ⟨_, _, rfl, ?_⟩⟩
  rcases hrange i hi with ⟨c, hc, hproc⟩
  rw [Nat.zero_add] at hproc
  exact ⟨c, hc, hproc⟩

/-- Reading leaves the lock alone. -/
theorem lockedAfter_read (offset size : UInt32) :
    lockedAfter true (read offset size).calls = true := by
  unfold read
  split_ifs
  · rfl
  · exact lockedAfter_readLoop true 0 _ _

end OnChip

/-! ## Writing -/

namespace OnChip

variable {o : Outcomes} {buf : Nat → UInt8}

/-- The status of {lit}`write` stays 0 exactly when every doubleword is stored. -/
theorem writeLoop_status_eq_zero_iff (size k i : Nat) (addr : UInt32) :
    (writeLoop o buf size k i addr).2 = 0 ↔
      ∀ j, i + 8 * j < size → Stored o buf size (k + j) (i + 8 * j) := by
  fun_induction writeLoop o buf size k i addr with
  | case1 k i addr hi n write_data call hok hdiff =>
      refine ⟨fun h => absurd h (by decide : (-1 : Int) ≠ 0), fun h => ?_⟩
      exact absurd (h 0 hi).2 hdiff
  | case2 k i addr hi n write_data call hok hsame rest ih =>
      have hstored : Stored o buf size k i := ⟨hok, not_not.mp hsame⟩
      rw [ih]
      constructor
      · intro h j hj
        cases j with
        | zero => exact hstored
        | succ j =>
            -- There is a later doubleword, so this one took all eight bytes.
            have hn : n = 8 := if_neg (by omega)
            have hnext := h j (by omega)
            rw [hn, show k + 1 + j = k + (j + 1) by omega,
              show i + 8 + 8 * j = i + 8 * (j + 1) by omega] at hnext
            exact hnext
      · intro h j hj
        have hn : n = 8 := by
          by_contra hne
          have hlast : n = size - i := by
            rcases Nat.lt_or_ge (size - i) 8 with hlt | hge
            · exact if_pos hlt
            · exact absurd (if_neg (Nat.not_lt.mpr hge)) hne
          omega
        have hnext := h (j + 1) (by omega)
        rw [hn, show k + 1 + j = k + (j + 1) by omega,
          show i + 8 + 8 * j = i + 8 * (j + 1) by omega]
        exact hnext
  | case3 k i addr hi n write_data call hfail =>
      refine ⟨fun h => absurd h (by decide : (-1 : Int) ≠ 0), fun h => ?_⟩
      exact absurd (h 0 hi).1 hfail
  | case4 k i addr hi =>
      exact ⟨fun _ j hj => absurd hj (by omega), fun _ => rfl⟩

/-- With the status 0 every call succeeded and every byte was stored. -/
theorem done_writeLoop (sz : UInt32) {size k i : Nat} {addr : UInt32}
    (h : (writeLoop o buf size k i addr).2 = 0) :
    (∀ c ∈ (writeLoop o buf size k i addr).1, c.Succeeded) ∧
      ∀ p, i ≤ p → p < size → ∃ c ∈ (writeLoop o buf size k i addr).1,
        c.Processes .stm32l4_onchip_flash (.write buf sz) p (addr + UInt32.ofNat (p - i)) := by
  fun_induction writeLoop o buf size k i addr with
  | case1 => exact absurd h (by decide : (-1 : Int) ≠ 0)
  | case2 k i addr hi n write_data call hok hsame rest ih =>
      rcases ih h with ⟨hall, hrange⟩
      refine ⟨?_, fun p hip hp => ?_⟩
      · rw [List.forall_mem_cons]
        exact ⟨hok, hall⟩
      · have hbounds := chunkLength_bounds hi
        rcases Nat.lt_or_ge p (i + n) with hlt | hge
        · refine ⟨call, List.mem_cons_self, hok, not_not.mp hsame, p - i, ?_, rfl, ?_⟩
          · omega
          · rw [not_not.mp hsame, byteAt_packBytes _ hbounds.2.1 (by omega),
              Nat.add_sub_cancel' hip]
        · rcases hrange p hge hp with ⟨c, hc, hproc⟩
          refine ⟨c, List.mem_cons_of_mem _ hc, ?_⟩
          have hn : n = 8 := if_neg fun hlt => by
            have hlast : n = size - i := if_pos hlt
            omega
          have haddr : addr + UInt32.ofNat (p - i) = addr + 8 + UInt32.ofNat (p - (i + n)) := by
            rw [show p - i = 8 + (p - (i + n)) by omega, UInt32.ofNat_add, ← UInt32.add_assoc]
            rfl
          rw [haddr]
          exact hproc
  | case3 => exact absurd h (by decide : (-1 : Int) ≠ 0)
  | case4 k i addr hi => exact ⟨by simp, fun p hip hp => absurd hp (by omega)⟩

/-- From the beginning the status stays 0 exactly when no doubleword fails. -/
theorem writeLoop_start_status_iff (size : Nat) (addr : UInt32) :
    (writeLoop o buf size 0 0 addr).2 = 0 ↔
      ¬∃ k, 8 * k < size ∧ ¬Stored o buf size k (8 * k) := by
  rw [writeLoop_status_eq_zero_iff]
  simp only [Nat.zero_add, not_exists, not_and, not_not]

/-- Calls between the unlocking and the locking: these two process no byte themselves. -/
theorem done_unlocked_iff {status : HalStatus} {calls : List Call} {rq : Request} {a : UInt32} :
    Done (.unlock status :: calls ++ [.lock]) rq (some (.stm32l4_onchip_flash, a)) ↔
      status = .ok ∧ (∀ c ∈ calls, c.Succeeded) ∧
        ∀ i < rq.size.toNat, ∃ c ∈ calls,
          c.Processes .stm32l4_onchip_flash rq i (a + UInt32.ofNat i) := by
  have hnone {c : Call} (hc : c = .unlock status ∨ c = .lock) (i : Nat) (b : UInt32) :
      ¬c.Processes .stm32l4_onchip_flash rq i b := by
    rcases hc with rfl | rfl <;> cases rq <;> exact fun h => h.2
  constructor
  · rintro ⟨hok, hbytes⟩
    refine ⟨hok (.unlock status) (by simp), fun c hc => hok c (by simp [hc]), fun i hi => ?_⟩
    obtain ⟨d, base, htarget, c, hc, hproc⟩ := hbytes i hi
    obtain ⟨rfl, rfl⟩ := Prod.mk.inj (Option.some.inj htarget)
    rcases List.mem_append.mp hc with hc | hc
    · rcases List.mem_cons.mp hc with hfirst | hc
      · exact absurd hproc (hnone (.inl hfirst) _ _)
      · exact ⟨c, hc, hproc⟩
    · exact absurd hproc (hnone (.inr (List.mem_singleton.mp hc)) _ _)
  · rintro ⟨hunlock, hok, hbytes⟩
    refine ⟨?_, fun i hi => ⟨_, _, rfl, ?_⟩⟩
    · simp only [List.cons_append, List.forall_mem_cons, List.forall_mem_append]
      exact ⟨hunlock, hok, by simp [Call.Succeeded]⟩
    · obtain ⟨c, hc, hproc⟩ := hbytes i hi
      exact ⟨c, by simp [hc], hproc⟩

/-- With the status 0 a write is done exactly when the flash was unlocked. -/
theorem done_writeCalls_iff {offset size : UInt32}
    (hstatus : (writeLoop o buf size.toNat 0 0 (address offset)).2 = 0) :
    Done (.unlock o.unlock :: (writeLoop o buf size.toNat 0 0 (address offset)).1 ++ [.lock])
      (.write buf size) (some (.stm32l4_onchip_flash, address offset)) ↔ o.unlock = .ok := by
  rcases done_writeLoop size hstatus with ⟨hok, hbytes⟩
  rw [done_unlocked_iff]
  exact and_iff_left ⟨hok, fun i hi => hbytes i (Nat.zero_le i) hi⟩

/-- A write is truthful exactly under its condition. -/
theorem write_truthful_iff (o : Outcomes) (offset : UInt32) (buf : Nat → UInt8) (size : UInt32) :
    ((write o offset buf size).ret = size.toNat →
        Done (write o offset buf size).calls (.write buf size)
          (some (.stm32l4_onchip_flash, address offset))) ∧
      lockedAfter true (write o offset buf size).calls = true ↔
    WriteSound o offset buf size := by
  have hneg : (-1 : Int) ≠ size.toNat := by omega
  by_cases hrange : OutOfRange offset size
  · rw [write, if_pos hrange]
    exact ⟨fun _ => .inl hrange, fun _ => ⟨fun h => absurd h hneg, rfl⟩⟩
  by_cases hempty : size = 0
  · -- The early return keeps the flash as the unlocking left it.
    subst hempty
    rw [write, if_neg hrange, if_pos (by decide), WriteSound, if_pos rfl, or_iff_right hrange]
    have hlock : lockedAfter true [Call.unlock o.unlock] = true ↔ o.unlock ≠ .ok := by
      simp [lockedAfter, Call.locked]
    rw [hlock, and_iff_right fun h => absurd h hneg]
  have hsize : ¬size < 1 := by
    rw [UInt32.lt_iff_toNat_lt]
    exact fun hlt => hempty ((eq_zero_iff_toNat size).mpr (Nat.lt_one_iff.mp hlt))
  rw [write, if_neg hrange, if_neg hsize, WriteSound, if_neg hempty, or_iff_right hrange,
    and_iff_left (lockedAfter_lock _ _)]
  dsimp only
  by_cases hstatus : (writeLoop o buf size.toNat 0 0 (address offset)).2 = 0
  · rw [if_neg (not_not.mpr hstatus), asInt_eq_iff, done_writeCalls_iff hstatus,
      or_iff_left ((writeLoop_start_status_iff _ _).mp hstatus), lt_imp_iff_or_le]
  · rw [if_pos hstatus, (writeLoop_status o buf _ 0 0 _).resolve_left hstatus]
    have hfailed := not_not.mp ((writeLoop_start_status_iff _ _).not.mp hstatus)
    exact ⟨fun _ => .inr (.inr hfailed), fun _ h => absurd h hneg⟩

end OnChip

/-! ## Erasing -/

namespace OnChip

/-- Addresses on the device are not reduced. -/
theorem toNat_add_ofNat {base : UInt32} {w i : Nat}
    (hbase : base.toNat = FLASH_START_ADRESS.toNat + w) (hi : w + i ≤ 524288) :
    (base + UInt32.ofNat i).toNat = FLASH_START_ADRESS.toNat + w + i := by
  have hstart : FLASH_START_ADRESS.toNat = 134217728 := rfl
  rw [UInt32.toNat_add, UInt32.toNat_ofNat']
  omega

/-- An address on the device lies in one page of one bank. -/
theorem page_iff {a : UInt32} {w p : Nat} (ha : a.toNat = FLASH_START_ADRESS.toNat + w) :
    (p < 256 → (Bank.bank1.Page p a ↔ p = w / 2048)) ∧
    (256 ≤ p → p < 512 → (Bank.bank2.Page p a ↔ p = w / 2048 + 128)) := by
  have hstart : FLASH_START_ADRESS.toNat = 134217728 := rfl
  have hbank2 : bank2Address.toNat = 134479872 := rfl
  unfold Bank.Page FLASH_PAGE_SIZE
  simp only [Bank.start]
  constructor
  · intro hp
    omega
  · intro hp hp'
    omega

/-- Of pages in a row, of which only {lit}`page` has the address. -/
theorem exists_page_iff {bank : Bank} {a : UInt32} {first count page : Nat}
    (hpage : ∀ p, first ≤ p → p < first + count → (bank.Page p a ↔ p = page)) :
    (∃ p, first ≤ p ∧ p < first + count ∧ bank.Page p a) ↔
      first ≤ page ∧ page < first + count := by
  constructor
  · rintro ⟨p, hp, hp', hin⟩
    obtain rfl := (hpage p hp hp').mp hin
    exact ⟨hp, hp'⟩
  · intro hrange
    exact ⟨page, hrange.1, hrange.2, (hpage page hrange.1 hrange.2).mpr rfl⟩

/-- An address on the device lies in some pages of the first bank. -/
theorem exists_page_bank1_iff {a : UInt32} {w first count : Nat}
    (ha : a.toNat = FLASH_START_ADRESS.toNat + w) (hcount : first + count ≤ 256) :
    (∃ p, first ≤ p ∧ p < first + count ∧ Bank.bank1.Page p a) ↔
      first ≤ w / 2048 ∧ w / 2048 < first + count :=
  exists_page_iff fun _ _ hlt => (page_iff ha).1 (hlt.trans_le hcount)

/-- An address on the device lies in some pages of the second bank, which the driver numbers
from 256. -/
theorem exists_page_bank2_iff {a : UInt32} {w first count : Nat}
    (ha : a.toNat = FLASH_START_ADRESS.toNat + w) (hfirst : 256 ≤ first)
    (hcount : first + count ≤ 512) :
    (∃ p, first ≤ p ∧ p < first + count ∧ Bank.bank2.Page p a) ↔
      first ≤ w / 2048 + 128 ∧ w / 2048 + 128 < first + count :=
  exists_page_iff fun _ hle hlt => (page_iff ha).2 (hfirst.trans hle) (hlt.trans_le hcount)

/-- For an offset on the device, the page number and the bank by the distance from the
start. -/
theorem pageOf_bankOf {a : UInt32} {w : Nat} (ha : a.toNat = FLASH_START_ADRESS.toNat + w)
    (hw : w ≤ 524288) :
    pageOf a = (if w / 2048 < 128 then w / 2048 else w / 2048 + 128) ∧
      bankOf a = (if w / 2048 < 128 then .bank1 else .bank2) := by
  have hstart : FLASH_START_ADRESS.toNat = 134217728 := rfl
  have hbank2 : bank2Address.toNat = 134479872 := rfl
  have hsub : (a - FLASH_START_ADRESS).toNat = w := by
    rw [UInt32.toNat_sub]
    omega
  have hbank : a < bank2Address ↔ w / 2048 < 128 := by
    rw [UInt32.lt_iff_toNat_lt]
    omega
  unfold pageOf bankOf FLASH_PAGE_SIZE
  simp only [hsub, hbank, and_self]

section OnDevice

variable {o : Outcomes} {base : UInt32} {w n : Nat}

/-- On the device, the calls are one erase in the bank of the offset, or one in each
bank when the pages cross over. -/
theorem eraseCalls_onDevice (hbase : base.toNat = FLASH_START_ADRESS.toNat + w)
    (hw : w ≤ 524288) (hn : w / 2048 + n ≤ 256) :
    eraseCalls o (bankOf base) (pageOf base) n =
      if w / 2048 < 128 then
        if 128 < n + w / 2048 then
          .erase .bank1 (w / 2048) (128 - w / 2048) (o.erase 0) ::
            if o.erase 0 ≠ .ok then []
            else [.erase .bank2 256 (n - (128 - w / 2048)) (o.erase 1)]
        else [.erase .bank1 (w / 2048) n (o.erase 0)]
      else [.erase .bank2 (w / 2048 + 128) n (o.erase 0)] := by
  rcases pageOf_bankOf hbase hw with ⟨hpage, hbank⟩
  rw [hpage, hbank, eraseCalls]
  by_cases hfirst : w / 2048 < 128
  · simp only [hfirst, if_true, true_and]
    by_cases hcross : 128 < n + w / 2048
    · rw [if_pos hcross, if_neg (by omega), if_pos hcross]
    · rw [if_neg hcross, if_pos (by omega), if_neg hcross]
  · simp only [hfirst, if_false]
    rw [if_neg (by omega), if_neg (by omega), if_pos (by omega)]

/-- On the device, all calls succeed exactly when each bank is erased as far as it is
needed. -/
theorem eraseCalls_succeeded_iff (hbase : base.toNat = FLASH_START_ADRESS.toNat + w)
    (hw : w ≤ 524288) (hn : w / 2048 + n ≤ 256) :
    (∀ c ∈ eraseCalls o (bankOf base) (pageOf base) n, c.Succeeded) ↔
      o.erase 0 = .ok ∧ (w / 2048 < 128 ∧ 128 < n + w / 2048 → o.erase 1 = .ok) := by
  rw [eraseCalls_onDevice hbase hw hn]
  by_cases hfirst : w / 2048 < 128
  · by_cases hcross : 128 < n + w / 2048
    · by_cases hok : o.erase 0 = .ok
      · simp [hfirst, hcross, hok, Call.Succeeded]
      · simp [hfirst, hcross, hok, Call.Succeeded]
    · simp [hfirst, hcross, Call.Succeeded]
  · simp [hfirst, Call.Succeeded]

/-- On the device, calls that succeed erase the addresses of their {lit}`n` pages. -/
theorem eraseCalls_processes_iff (hbase : base.toNat = FLASH_START_ADRESS.toNat + w)
    (hw : w ≤ 524288) (hn : w / 2048 + n ≤ 256)
    (hok : ∀ c ∈ eraseCalls o (bankOf base) (pageOf base) n, c.Succeeded)
    (size : UInt32) (i : Nat) {a : UInt32} {v : Nat}
    (ha : a.toNat = FLASH_START_ADRESS.toNat + v) (hv : v < 524288) :
    (∃ c ∈ eraseCalls o (bankOf base) (pageOf base) n,
        c.Processes .stm32l4_onchip_flash (.erase size) i a) ↔
      w / 2048 ≤ v / 2048 ∧ v / 2048 < w / 2048 + n := by
  have hstatus := (eraseCalls_succeeded_iff hbase hw hn).mp hok
  rw [eraseCalls_onDevice hbase hw hn]
  by_cases hfirst : w / 2048 < 128
  · by_cases hcross : 128 < n + w / 2048
    · have hok1 := hstatus.2 ⟨hfirst, hcross⟩
      simp only [hfirst, hcross, if_true, hstatus.1, hok1, ne_eq, not_true_eq_false, if_false,
        List.exists_mem_cons_iff, List.not_mem_nil, false_and, exists_false, or_false,
        Call.Processes, Call.Succeeded, true_and]
      rw [exists_page_bank1_iff ha (by omega), exists_page_bank2_iff ha (by omega) (by omega)]
      omega
    · simp only [hfirst, hcross, if_true, if_false, hstatus.1, List.exists_mem_cons_iff,
        List.not_mem_nil, false_and, exists_false, or_false, Call.Processes, Call.Succeeded,
        true_and]
      exact exists_page_bank1_iff ha (by omega)
  · simp only [hfirst, if_false, hstatus.1, List.exists_mem_cons_iff, List.not_mem_nil,
      false_and, exists_false, or_false, Call.Processes, Call.Succeeded, true_and]
    rw [exists_page_bank2_iff ha (by omega) (by omega)]
    omega

end OnDevice

/-- A range that passes the check from an offset that is not on the device has pages
that no branch erases. -/
theorem eraseCalls_eq_nil (o : Outcomes) {offset size : UInt32}
    (hrange : ¬OutOfRange offset size) (hsize : size.toNat < 2147483648)
    (hoff : ¬OnDevice offset) :
    eraseCalls o (bankOf (address offset)) (pageOf (address offset)) (pageCount size) = [] := by
  have hstart : FLASH_START_ADRESS.toNat = 134217728 := rfl
  have hend : FLASH_END_ADDRESS.toNat = 134742016 := rfl
  have hbank2 : bank2Address.toNat = 134479872 := rfl
  have hlt := (address offset).toNat_lt
  rw [OutOfRange, UInt32.not_lt, UInt32.le_iff_toNat_le, UInt32.toNat_add] at hrange
  rw [OnDevice, UInt32.le_iff_toNat_le, UInt32.le_iff_toNat_le] at hoff
  have hpage : 385 ≤ pageOf (address offset) := by
    unfold pageOf FLASH_PAGE_SIZE
    rw [UInt32.toNat_sub]
    simp only [UInt32.lt_iff_toNat_lt]
    split_ifs <;> omega
  rw [eraseCalls, if_neg (by omega), if_neg (by omega), if_neg (by omega)]

/-- The number of pages is the size divided by the page size, rounded up. -/
theorem pageCount_bounds (size : UInt32) :
    size.toNat ≤ 2048 * pageCount size ∧ 2048 * pageCount size < size.toNat + 2048 := by
  unfold pageCount FLASH_PAGE_SIZE
  split_ifs <;> omega

/-- A range that passes the check from an offset on the device lies on the device. -/
theorem exists_onDevice {offset size : UInt32} (hrange : ¬OutOfRange offset size)
    (hsize : size.toNat < 2147483648) (hoff : OnDevice offset) :
    ∃ w, (address offset).toNat = FLASH_START_ADRESS.toNat + w ∧
      offset.toNat % 2048 = w % 2048 ∧ w + size.toNat ≤ 524288 := by
  have hstart : FLASH_START_ADRESS.toNat = 134217728 := rfl
  have hend : FLASH_END_ADDRESS.toNat = 134742016 := rfl
  have haddr : (address offset).toNat = (134217728 + offset.toNat) % 4294967296 :=
    UInt32.toNat_add FLASH_START_ADRESS offset
  rw [OutOfRange, UInt32.not_lt, UInt32.le_iff_toNat_le, UInt32.toNat_add] at hrange
  rw [OnDevice, UInt32.le_iff_toNat_le, UInt32.le_iff_toNat_le] at hoff
  exact ⟨(address offset).toNat - 134217728, by omega, by omega, by omega⟩

/-- The erases from an offset on the device are done exactly when each bank is erased as
far as it is needed and the pages reach the end of the range. -/
theorem done_eraseCalls_iff (o : Outcomes) {offset size : UInt32}
    (hrange : ¬OutOfRange offset size) (hsize : size.toNat < 2147483648)
    (hoff : OnDevice offset) :
    ((∀ c ∈ eraseCalls o (bankOf (address offset)) (pageOf (address offset)) (pageCount size),
        c.Succeeded) ∧
      ∀ i < size.toNat, ∃ c ∈ eraseCalls o (bankOf (address offset)) (pageOf (address offset))
        (pageCount size), c.Processes .stm32l4_onchip_flash (.erase size) i
          (address offset + UInt32.ofNat i)) ↔
    o.erase 0 = .ok ∧ (CrossesBanks offset size → o.erase 1 = .ok) ∧
      (size = 0 ∨
        offset.toNat % FLASH_PAGE_SIZE + size.toNat ≤ FLASH_PAGE_SIZE * pageCount size) := by
  rcases exists_onDevice hrange hsize hoff with ⟨w, hbase, hmod, hwsize⟩
  have hcount := pageCount_bounds size
  have hw : w ≤ 524288 := by omega
  have hn : w / 2048 + pageCount size ≤ 256 := by omega
  have hcross : CrossesBanks offset size ↔
      w / 2048 < 128 ∧ 128 < pageCount size + w / 2048 := by
    rw [CrossesBanks, (pageOf_bankOf hbase hw).1]
    split_ifs <;> omega
  rw [← and_assoc, hcross, ← eraseCalls_succeeded_iff hbase hw hn]
  refine and_congr_right fun hok => ?_
  have hbyte (i : Nat) (hi : i < size.toNat) :
      (∃ c ∈ eraseCalls o (bankOf (address offset)) (pageOf (address offset))
          (pageCount size), c.Processes .stm32l4_onchip_flash (.erase size) i
            (address offset + UInt32.ofNat i)) ↔
        (w + i) / 2048 < w / 2048 + pageCount size := by
    have haddr : (address offset + UInt32.ofNat i).toNat = FLASH_START_ADRESS.toNat + (w + i) := by
      rw [toNat_add_ofNat hbase (by omega), Nat.add_assoc]
    rw [eraseCalls_processes_iff hbase hw hn hok size i haddr (by omega)]
    exact and_iff_right (Nat.div_le_div_right (Nat.le_add_right w i))
  refine (forall₂_congr hbyte).trans ?_
  rw [FLASH_PAGE_SIZE, hmod, eq_zero_iff_toNat]
  constructor
  · -- The last byte of the range decides.
    intro hall
    by_contra hno
    have hlast := hall (size.toNat - 1) (by omega)
    omega
  · intro hcond i hi
    omega

/-- An erase is truthful exactly under its condition. -/
theorem erase_truthful_iff (o : Outcomes) (offset size : UInt32) :
    ((erase o offset size).ret = size.toNat →
        Done (erase o offset size).calls (.erase size)
          (some (.stm32l4_onchip_flash, address offset))) ∧
      lockedAfter true (erase o offset size).calls = true ↔
    EraseSound o offset size := by
  by_cases hrange : OutOfRange offset size
  · rw [erase, if_pos hrange]
    have hneg : (-1 : Int) ≠ size.toNat := by omega
    exact ⟨fun _ => .inl hrange, fun _ => ⟨fun h => absurd h hneg, rfl⟩⟩
  rw [erase, if_neg hrange, EraseSound, or_iff_right hrange]
  dsimp only
  rw [and_iff_left (lockedAfter_lock _ _), asInt_eq_iff]
  rcases Nat.lt_or_ge size.toNat 2147483648 with hsize | hsize
  swap
  · exact ⟨fun _ => .inl hsize, fun _ hlt => absurd hlt (Nat.not_lt.mpr hsize)⟩
  rw [or_iff_right (Nat.not_le.mpr hsize), forall_prop_of_true hsize]
  -- The calls are the unlocking, the erases and the locking.
  rw [done_unlocked_iff]
  refine and_congr_right fun _ => ?_
  by_cases hoff : OnDevice offset
  · rw [or_iff_left fun h => h.1 hoff, and_iff_right hoff]
    exact done_eraseCalls_iff o hrange hsize hoff
  · rw [or_iff_right fun h => hoff h.1, and_iff_right hoff, eraseCalls_eq_nil o hrange hsize hoff,
      eq_zero_iff_toNat]
    simp only [List.not_mem_nil, false_and, exists_false, imp_false, not_lt, IsEmpty.forall_iff,
      implies_true, true_and]
    exact ⟨fun h => Nat.le_zero.mp (h 0), fun h i => h ▸ Nat.zero_le i⟩

end OnChip

/-! ## The SFUD port -/

namespace Nor

/-- The one call of an operation does the request exactly when it succeeds. -/
theorem done_iff {call : Call} {rq : Request} {offset : UInt32} {err : SfudErr}
    (hcall : call.Succeeded ↔ err = .success)
    (hproc : ∀ i < rq.size.toNat, err = .success →
      call.Processes .nor_flash0 rq i (Device.addr .nor_flash0 + offset + UInt32.ofNat i)) :
    Done [call] rq (some (.nor_flash0, Device.addr .nor_flash0 + offset)) ↔ err = .success := by
  constructor
  · intro h
    exact hcall.mp (h.1 call (List.mem_singleton_self call))
  · intro herr
    refine ⟨?_, fun i hi => ⟨_, _, rfl, call, List.mem_singleton_self call, hproc i hi herr⟩⟩
    simpa using hcall.mpr herr

theorem done_read_iff (o : Outcomes) (offset size : UInt32) :
    Done (read o offset size).calls (.read size)
      (some (.nor_flash0, Device.addr .nor_flash0 + offset)) ↔ o.sfud = .success :=
  done_iff Iff.rfl fun _ hi herr => ⟨herr, hi, rfl⟩

theorem done_write_iff (o : Outcomes) (offset : UInt32) (buf : Nat → UInt8) (size : UInt32) :
    Done (write o offset buf size).calls (.write buf size)
      (some (.nor_flash0, Device.addr .nor_flash0 + offset)) ↔ o.sfud = .success :=
  done_iff Iff.rfl fun _ hi herr => ⟨herr, hi, rfl, rfl⟩

theorem done_erase_iff (o : Outcomes) (offset size : UInt32) :
    Done (erase o offset size).calls (.erase size)
      (some (.nor_flash0, Device.addr .nor_flash0 + offset)) ↔ o.sfud = .success :=
  done_iff Iff.rfl fun _ hi herr => ⟨herr, hi, rfl⟩

/-- An operation that returns -1 after a failure reports success only with one. -/
theorem success_of_ret {err : SfudErr} {size : UInt32}
    (h : (if err ≠ .success then -1 else asInt size) = (size.toNat : Int)) : err = .success := by
  by_contra hne
  rw [if_pos hne] at h
  omega

end Nor

/-! ## The layers -/

/-- An operation of a device is truthful exactly under its condition. -/
theorem device_truthful_iff (o : Outcomes) (d : Device) (offset : UInt32) (rq : Request) :
    ((d.ops o offset rq).ret = rq.size.toNat →
        Done (d.ops o offset rq).calls rq (some (d, d.addr + offset))) ∧
      lockedAfter true (d.ops o offset rq).calls = true ↔
    d.Sound o offset rq := by
  cases d with
  | stm32l4_onchip_flash =>
      cases rq with
      | read size =>
          refine ⟨fun _ => trivial, fun _ => ⟨fun hret => ?_, OnChip.lockedAfter_read offset size⟩⟩
          refine OnChip.done_read fun hrange => ?_
          simp only [Device.ops, OnChip.read, if_pos hrange] at hret
          omega
      | write buf size => exact OnChip.write_truthful_iff o offset buf size
      | erase size => exact OnChip.erase_truthful_iff o offset size
  | nor_flash0 =>
      cases rq with
      | read size =>
          have hlock : lockedAfter true (Nor.read o offset size).calls = true := rfl
          simp only [Device.ops, Device.Sound, Request.size]
          rw [Nor.done_read_iff, and_iff_left hlock]
          simp only [Nor.read]
          rw [asInt_eq_iff, lt_imp_iff_or_le]
      | write buf size =>
          refine ⟨fun _ => trivial, fun _ => ⟨fun hret => ?_, rfl⟩⟩
          exact (Nor.done_write_iff o offset buf size).mpr (Nor.success_of_ret hret)
      | erase size =>
          refine ⟨fun _ => trivial, fun _ => ⟨fun hret => ?_, rfl⟩⟩
          exact (Nor.done_erase_iff o offset size).mpr (Nor.success_of_ret hret)

/-- A partition call is truthful exactly under its condition. -/
theorem partition_truthful_iff (o : Outcomes) (part : Partition) (addr : UInt32) (rq : Request) :
    ((falPartition o part addr rq).ret = rq.size.toNat →
        Done (falPartition o part addr rq).calls rq (part.target addr)) ∧
      lockedAfter true (falPartition o part addr rq).calls = true ↔
    part.Sound o addr rq := by
  have hneg : (-1 : Int) ≠ rq.size.toNat := by omega
  unfold falPartition Partition.Sound Partition.target
  by_cases hlen : part.len < addr + rq.size
  · rw [if_pos hlen]
    exact ⟨fun _ => .inl hlen, fun _ => ⟨fun h => absurd h hneg, rfl⟩⟩
  rw [if_neg hlen, or_iff_right hlen]
  cases hfind : falFlashDeviceFind part.flash_name with
  | none => exact ⟨fun _ d hd => by simp at hd, fun _ => ⟨fun h => absurd h hneg, rfl⟩⟩
  | some d =>
      simp only [Option.map_some, Option.some.injEq, forall_eq']
      exact device_truthful_iff o d (part.offset + addr) rq

/-- The read of the port is truthful exactly under its condition. -/
theorem efPortRead_truthful_iff (o : Outcomes) (part : Partition) (addr size : UInt32) :
    Done (falPartition o part addr (.read size)).calls (.read size) (part.target addr) ∧
      lockedAfter true (falPartition o part addr (.read size)).calls = true ↔
    part.ReadSound o addr size := by
  have hempty (target : Option (Device × UInt32)) :
      Done [] (.read size) target ↔ size = 0 := by
    rw [eq_zero_iff_toNat]
    constructor
    · intro h
      by_contra hne
      rcases h.2 0 (Nat.pos_of_ne_zero hne) with ⟨_, _, _, c, hc, _⟩
      exact absurd hc List.not_mem_nil
    · intro h
      exact ⟨by simp, fun i hi => absurd hi (by simp [Request.size, h])⟩
  have hnil : lockedAfter true [] = true := rfl
  unfold falPartition Partition.ReadSound Partition.target
  by_cases hlen : part.len < addr + size
  · simp only [Request.size, hlen, if_true, hempty, hnil, and_true]
    cases falFlashDeviceFind part.flash_name with
    | none => rfl
    | some d => cases d <;> simp
  simp only [Request.size, hlen, if_false]
  cases falFlashDeviceFind part.flash_name with
  | none => simp only [hempty, hnil, and_true]
  | some d =>
      cases d with
      | stm32l4_onchip_flash =>
          simp only [Device.ops, OnChip.lockedAfter_read, and_true, not_false_eq_true, true_and,
            Option.map_some]
          by_cases hrange : OnChip.OutOfRange (part.offset + addr) size
          · rw [OnChip.read, if_pos hrange, hempty]
            simp [hrange]
          · exact ⟨fun _ => .inr hrange, fun _ => OnChip.done_read hrange⟩
      | nor_flash0 =>
          have hlock : lockedAfter true (Nor.read o (part.offset + addr) size).calls = true := rfl
          simp only [Device.ops, Option.map_some]
          rw [Nor.done_read_iff, and_iff_left hlock]

/-- An operation of any layer is truthful exactly under its condition. -/
theorem truthful_iff (o : Outcomes) (op : Operation) : op.Truthful o ↔ op.Sound o := by
  cases op with
  | device d offset rq => exact device_truthful_iff o d offset rq
  | partition part addr rq => exact partition_truthful_iff o part addr rq
  | efPort part addr rq =>
      cases rq with
      | read size =>
          rw [Operation.Sound, ← efPortRead_truthful_iff]
          exact and_congr_left fun _ => ⟨fun h => h rfl, fun h _ => h⟩
      | write buf size =>
          rw [Operation.Sound, ← partition_truthful_iff, ← falPartition_ret_nonneg_iff]
          refine and_congr_left fun _ => imp_congr_left ?_
          simp only [Operation.ReportsSuccess, efPortWrite, falPartitionWrite]
          split_ifs with h <;> simp [h]
      | erase size =>
          by_cases halign : addr % EF_ERASE_MIN_SIZE = 0
          · rw [Operation.Sound, or_iff_right (not_not.mpr halign), ← partition_truthful_iff,
              ← falPartition_ret_nonneg_iff]
            simp only [Operation.Truthful, Operation.ReportsSuccess, Operation.calls, efPortErase,
              falPartitionErase, halign, if_true, Option.map_some, Option.getD_some,
              Option.some.injEq]
            refine and_congr_left fun _ => imp_congr_left ?_
            split_ifs with h <;> simp [h]
          · simp only [Operation.Truthful, Operation.ReportsSuccess, Operation.calls, efPortErase,
              halign, if_false, Option.map_none, Option.getD_none, Operation.Sound]
            simp [lockedAfter, halign]

/-! ## A failed erase -/

/-- Outcomes in which everything succeeds but erasing. -/
def eraseFails : Outcomes where
  unlock := .ok
  program _ := .ok
  readBack _ := 0
  erase _ := .error
  sfud := .success

/-- Erasing a page of the on-chip flash reports the size although the driver failed. -/
theorem failed_erase_reported : ¬∀ (o : Outcomes) (op : Operation), op.Truthful o := by
  intro h
  have htrue := (h eraseFails (.device .stm32l4_onchip_flash 0 (.erase 2048))).1
  have hreport : Operation.ReportsSuccess eraseFails
      (.device .stm32l4_onchip_flash 0 (.erase 2048)) :=
    (by decide : (OnChip.erase eraseFails 0 2048).ret = 2048)
  have hcalls : Operation.calls eraseFails (.device .stm32l4_onchip_flash 0 (.erase 2048)) =
      [.unlock .ok, .erase .bank1 0 1 .error, .lock] := rfl
  have hstatus := (htrue hreport).1 (.erase .bank1 0 1 .error) (by rw [hcalls]; simp)
  exact absurd hstatus (by simp [Call.Succeeded])

end Flash

end WeatherStation
