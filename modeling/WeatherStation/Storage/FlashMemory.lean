import WeatherStation.Storage.FlashReport

/-!
# What the flash holds

The driver calls of the on-chip port act on the content of the flash: a doubleword that was
programmed holds its eight bytes, and is programmed only where it is erased.  The last doubleword
of a write is filled up with zeros.

Main results:

- Theorem {lit}`written_of_leads`: what a write leaves in the flash.
- Theorem {lit}`exists_leads_write`: into an erased range every buffer can be written.
- Theorem {lit}`write_read_identity`: what is written is read back.
- Theorem {lit}`write_frame_iff`: the writes that leave the flash behind their range alone.
-/

open Foundation

namespace WeatherStation

namespace Flash

/-! ## Calls and the content of the flash -/

/-- The {lit}`n` bytes from an address on are erased. -/
def Erased (m : Memory) (addr n : Nat) : Prop :=
  ∀ a, addr ≤ a → a < addr + n → m a = 0xFF

/-- The flash accepts a doubleword at an address: it is aligned and in the flash, and it is
erased or becomes zero. -/
structure Programmable (m : Memory) (addr : UInt32) (data : UInt64) : Prop where
  aligned : addr.toNat % 8 = 0
  start : OnChip.FLASH_START_ADRESS.toNat ≤ addr.toNat
  fits : addr.toNat + 8 ≤ OnChip.FLASH_END_ADDRESS.toNat
  erased : Erased m addr.toNat 8 ∨ data = 0

/-- A call that came back with its outcome can have changed the content of the flash from
{lit}`m` to {lit}`m'`.  A failed call may leave anything where it was at work. -/
def Call.Leads (m m' : Memory) : Call → Prop
  | .program addr data status readBack =>
      if status = .ok then
        Programmable m addr data ∧ m' = storeDword m addr.toNat data ∧
          readBack = loadDword m' addr.toNat
      else ∀ a, ¬(addr.toNat ≤ a ∧ a < addr.toNat + 8) → m' a = m a
  | .erase banks page nbPages status =>
      ∀ a : UInt32,
        ((∃ p, page ≤ p ∧ p < page + nbPages ∧ banks.Page p a) → status = .ok →
          m' a.toNat = 0xFF) ∧
        (¬(∃ p, page ≤ p ∧ p < page + nbPages ∧ banks.Page p a) → m' a.toNat = m a.toNat)
  | _ => m' = m

/-- Calls one after another. -/
def Leads (m : Memory) : List Call → Memory → Prop
  | [], m' => m' = m
  | c :: calls, m' => ∃ m₁, c.Leads m m₁ ∧ Leads m₁ calls m'

/-- What the loads of {lit}`read` put into the buffer of the caller. -/
def loads (m : Memory) : List Call → (Nat → UInt8) → Nat → UInt8
  | [], buf => buf
  | .load i addr :: calls, buf => loads m calls (Function.update buf i (m addr.toNat))
  | _ :: calls, buf => loads m calls buf

/-- A doubleword that is programmed does not end behind the last address. -/
theorem Programmable.toNat_next {m : Memory} {addr : UInt32} {data : UInt64}
    (h : Programmable m addr data) : (addr + 8).toNat = addr.toNat + 8 := by
  have hfits := h.fits
  have hend : OnChip.FLASH_END_ADDRESS.toNat = 134742016 := rfl
  rw [UInt32.toNat_add]
  show (addr.toNat + 8) % 4294967296 = _
  omega

/-- A doubleword that was programmed is stored, and reads back as it is. -/
theorem leads_program_iff {m m' : Memory} {addr : UInt32} {data readBack : UInt64}
    {status : HalStatus} (h : status = .ok) :
    (Call.program addr data status readBack).Leads m m' ↔
      Programmable m addr data ∧ m' = storeDword m addr.toNat data ∧ readBack = data := by
  rw [Call.Leads, if_pos h]
  refine and_congr_right fun _ => and_congr_right fun hm => ?_
  rw [hm, loadDword_storeDword]

theorem leads_append {m m' : Memory} {calls calls' : List Call} :
    Leads m (calls ++ calls') m' ↔ ∃ m₁, Leads m calls m₁ ∧ Leads m₁ calls' m' := by
  induction calls generalizing m with
  | nil => simp [Leads]
  | cons c calls ih =>
      simp only [List.cons_append, Leads, ih]
      constructor
      · rintro ⟨m₁, hc, m₂, hcalls, hrest⟩
        exact ⟨m₂, ⟨m₁, hc, hcalls⟩, hrest⟩
      · rintro ⟨m₂, ⟨m₁, hc, hcalls⟩, hrest⟩
        exact ⟨m₁, hc, m₂, hcalls, hrest⟩

/-- Unlocking and locking leave the content alone. -/
theorem leads_unlocked_iff {m m' : Memory} {status : HalStatus} {calls : List Call} :
    Leads m (.unlock status :: calls ++ [.lock]) m' ↔ Leads m calls m' := by
  rw [List.cons_append, Leads]
  simp only [Call.Leads, exists_eq_left, leads_append, Leads]
  constructor
  · intro h
    simpa using h
  · intro hcalls
    simpa using hcalls

namespace OnChip

/-- A number of bytes filled up to whole doublewords. -/
def roundUp (n : Nat) : Nat :=
  8 * ((n + 7) / 8)

/-- The content after the bytes of a buffer from {lit}`i` to {lit}`size` were written at an
address, and zeros behind them up to the end of the last doubleword. -/
def written (m : Memory) (buf : Nat → UInt8) (size i addr : Nat) : Memory := fun a =>
  if addr ≤ a ∧ a < addr + (size - i) then buf (i + (a - addr))
  else if addr + (size - i) ≤ a ∧ a < addr + roundUp (size - i) then 0
  else m a

/-! ## The loop of a write -/

section Loop

variable {o : Outcomes} {buf : Nat → UInt8}

/-- A doubleword takes eight bytes, or all that are left. -/
theorem chunkLength_cases (size i : Nat) :
    chunkLength size i = 8 ∨ chunkLength size i = size - i ∧ size - i < 8 := by
  unfold chunkLength
  split_ifs with hshort
  · exact .inr ⟨rfl, hshort⟩
  · exact .inl rfl

theorem written_of_le (m : Memory) {size i : Nat} (h : size ≤ i) (addr : Nat) :
    written m buf size i addr = m := by
  have hzero : size - i = 0 := Nat.sub_eq_zero_of_le h
  funext a
  rw [written, hzero, roundUp, if_neg (by omega), if_neg (by omega)]

/-- The first doubleword of a write and the rest of it. -/
theorem written_storeDword (m : Memory) {size i : Nat} (hi : i < size) (addr : Nat) :
    written (storeDword m addr (packBytes (fun j => buf (i + j)) (chunkLength size i))) buf size
        (i + chunkLength size i) (addr + 8) =
      written m buf size i addr := by
  have hbounds := chunkLength_bounds hi
  have hn := chunkLength_cases size i
  generalize chunkLength size i = n at hbounds hn
  funext a
  by_cases hin : addr ≤ a ∧ a < addr + 8
  · have hleft : written (storeDword m addr (packBytes (fun j => buf (i + j)) n)) buf size (i + n)
        (addr + 8) a = byteAt (packBytes (fun j => buf (i + j)) n) (a - addr) := by
      rw [written, if_neg (by omega), if_neg (by omega), storeDword_of_mem m _ hin]
    rw [hleft, written]
    by_cases hbyte : a - addr < n
    · rw [byteAt_packBytes _ hbounds.2.1 hbyte, if_pos (by omega)]
    · rw [byteAt_packBytes_of_le _ hbounds.2.1 (by omega), if_neg (by omega),
        if_pos (by rw [roundUp]; omega)]
  · -- Behind the first doubleword both sides are the rest of the write.
    have hbody : (addr + 8 ≤ a ∧ a < addr + 8 + (size - (i + n))) ↔
        (addr ≤ a ∧ a < addr + (size - i)) := by omega
    have htail : (addr + 8 + (size - (i + n)) ≤ a ∧ a < addr + 8 + roundUp (size - (i + n))) ↔
        (addr + (size - i) ≤ a ∧ a < addr + roundUp (size - i)) := by
      unfold roundUp
      omega
    simp only [written, hbody, htail]
    split_ifs with hmem
    · congr 1
      omega
    · rfl
    · exact storeDword_of_not_mem m _ hin

/-- The last doubleword of a write and the ones before it fill the rounded length. -/
theorem roundUp_chunk {size i : Nat} (hi : i < size) :
    roundUp (size - i) = 8 + roundUp (size - (i + chunkLength size i)) := by
  have hbounds := chunkLength_bounds hi
  have hn := chunkLength_cases size i
  unfold roundUp
  omega

/-- With the status 0 a loop leaves its bytes in the flash. -/
theorem written_of_leads (size k i : Nat) (addr : UInt32) (m : Memory) {m' : Memory}
    (hstatus : (writeLoop o buf size k i addr).2 = 0)
    (h : Leads m (writeLoop o buf size k i addr).1 m') :
    m' = written m buf size i addr.toNat := by
  fun_induction writeLoop o buf size k i addr generalizing m with
  | case1 k i addr hi n write_data call hprogram hdiff =>
      exact absurd hstatus (by decide : (-1 : Int) ≠ 0)
  | case2 k i addr hi n write_data call hprogram hsame rest ih =>
      obtain ⟨m₁, hcall, hrest⟩ := h
      obtain ⟨hpossible, rfl, -⟩ := (leads_program_iff hprogram).mp hcall
      rw [ih _ hstatus hrest, hpossible.toNat_next]
      exact written_storeDword m hi addr.toNat
  | case3 k i addr hi n write_data call hfail =>
      exact absurd hstatus (by decide : (-1 : Int) ≠ 0)
  | case4 k i addr hi =>
      have hm : m' = m := h
      rw [hm, written_of_le m (Nat.not_lt.mp hi)]

/-- A loop whose doublewords are all programmed has the status 0, since they read back as they
are. -/
theorem status_of_leads (hok : ∀ k, o.program k = .ok) (size k i : Nat) (addr : UInt32)
    (m : Memory) {m' : Memory} (h : Leads m (writeLoop o buf size k i addr).1 m') :
    (writeLoop o buf size k i addr).2 = 0 := by
  fun_induction writeLoop o buf size k i addr generalizing m with
  | case1 k i addr hi n write_data call hprogram hdiff =>
      obtain ⟨m₁, hcall, -⟩ := h
      exact absurd ((leads_program_iff hprogram).mp hcall).2.2 hdiff
  | case2 k i addr hi n write_data call hprogram hsame rest ih =>
      obtain ⟨m₁, -, hrest⟩ := h
      exact ih m₁ hrest
  | case3 k i addr hi n write_data call hfail => exact absurd (hok k) hfail
  | case4 k i addr hi => rfl

/-- The outcomes of a chip that programs every doubleword of a write. -/
def working (buf : Nat → UInt8) (size : Nat) : Outcomes where
  unlock := .ok
  program _ := .ok
  readBack k := packBytes (fun j => buf (8 * k + j)) (chunkLength size (8 * k))
  erase _ := .ok
  sfud := .success

/-- In an erased range every doubleword of a write can be programmed. -/
theorem exists_leads_writeLoop (buf : Nat → UInt8) (size k i : Nat) (addr : UInt32) (m : Memory)
    (hi : i < size → i = 8 * k) (haligned : addr.toNat % 8 = 0)
    (hstart : FLASH_START_ADRESS.toNat ≤ addr.toNat)
    (hend : addr.toNat + roundUp (size - i) ≤ FLASH_END_ADDRESS.toNat)
    (herased : Erased m addr.toNat (roundUp (size - i))) :
    ∃ m', Leads m (writeLoop (working buf size) buf size k i addr).1 m' := by
  fun_induction writeLoop (working buf size) buf size k i addr generalizing m with
  | case1 k i addr hlt n write_data call hprogram hdiff =>
      obtain rfl := hi hlt
      exact absurd rfl hdiff
  | case2 k i addr hlt n write_data call hprogram hsame rest ih =>
      have hfirst : 8 ≤ roundUp (size - i) := by
        unfold roundUp
        omega
      have hcall : call.Leads m (storeDword m addr.toNat write_data) := by
        refine (leads_program_iff hprogram).mpr
          ⟨⟨haligned, hstart, by omega, .inl ?_⟩, rfl, not_not.mp hsame⟩
        exact fun a ha ha' => herased a ha (by omega)
      have hn : n = 8 ∨ n = size - i ∧ size - i < 8 := chunkLength_cases size i
      have hrest : roundUp (size - i) = 8 + roundUp (size - (i + n)) := roundUp_chunk hlt
      have hnext := ((leads_program_iff rfl).mp hcall).1.toNat_next
      obtain ⟨m', hm'⟩ := ih (storeDword m addr.toNat write_data) (by
          intro hmore
          have := hi hlt
          omega) (by omega) (by omega) (by omega) (by
          rw [hnext]
          intro a ha ha'
          rw [storeDword_of_not_mem _ _ (by omega)]
          exact herased a (by omega) (by omega))
      exact ⟨m', _, hcall, hm'⟩
  | case3 k i addr hlt n write_data call hfail => exact absurd rfl hfail
  | case4 k i addr hle => exact ⟨m, rfl⟩

/-- A first doubleword that is programmed lies in the flash. -/
theorem start_of_leads (hok : ∀ k, o.program k = .ok) {size k i : Nat} (hi : i < size)
    {addr : UInt32} {m m' : Memory} (h : Leads m (writeLoop o buf size k i addr).1 m') :
    FLASH_START_ADRESS.toNat ≤ addr.toNat ∧ addr.toNat < FLASH_END_ADDRESS.toNat := by
  have hcall {calls : List Call} {data readBack : UInt64}
      (h : Leads m (.program addr data (o.program k) readBack :: calls) m') :
      FLASH_START_ADRESS.toNat ≤ addr.toNat ∧ addr.toNat < FLASH_END_ADDRESS.toNat := by
    obtain ⟨m₁, hcall, -⟩ := h
    have hpossible := ((leads_program_iff (hok k)).mp hcall).1
    exact ⟨hpossible.start, by have := hpossible.fits; omega⟩
  rw [writeLoop, if_pos hi, if_pos (hok k)] at h
  dsimp only at h
  split_ifs at h
  · exact hcall h
  · exact hcall h

end Loop

/-! ## Writing -/

section Write

variable {o : Outcomes} {offset size : UInt32} {buf : Nat → UInt8} {m m' : Memory}

/-- The address of an offset in the flash. -/
def flashAddress (offset : UInt32) : Nat :=
  FLASH_START_ADRESS.toNat + offset.toNat

/-- A write that passes the range check and programs its doublewords returns its size and
leaves the buffer in the flash. -/
theorem leads_write (hrange : ¬OutOfRange offset size) (hsize : 0 < size.toNat)
    (hok : ∀ k, o.program k = .ok) (h : Leads m (write o offset buf size).calls m') :
    (write o offset buf size).ret = asInt size ∧
      (address offset).toNat = flashAddress offset ∧
      m' = written m buf size.toNat 0 (flashAddress offset) := by
  have hne : ¬size < 1 := by
    rw [UInt32.lt_iff_toNat_lt]
    exact Nat.not_lt.mpr hsize
  rw [write, if_neg hrange, if_neg hne] at h ⊢
  dsimp only at h ⊢
  rw [leads_unlocked_iff] at h
  have hstatus := status_of_leads hok _ _ _ _ _ h
  have hm := written_of_leads _ _ _ _ _ hstatus h
  have haddr : (address offset).toNat = flashAddress offset := by
    have hstart : FLASH_START_ADRESS.toNat = 134217728 := rfl
    have hend : FLASH_END_ADDRESS.toNat = 134742016 := rfl
    have hon := start_of_leads hok hsize h
    have hlt := offset.toNat_lt
    rw [address, UInt32.toNat_add] at hon ⊢
    rw [flashAddress]
    omega
  rw [if_neg (not_not.mpr hstatus), ← haddr]
  exact ⟨rfl, rfl, hm⟩

/-- Into an erased range of the flash every buffer can be written. -/
theorem exists_leads_write (offset size : UInt32) (halign : offset.toNat % 8 = 0)
    (hsize : 0 < size.toNat) (hend : offset.toNat + roundUp size.toNat ≤ 512 * 1024)
    (herased : Erased m (flashAddress offset) (roundUp size.toNat)) (buf : Nat → UInt8) :
    ∃ m', Leads m (write (working buf size.toNat) offset buf size).calls m' := by
  have hstart : FLASH_START_ADRESS.toNat = 134217728 := rfl
  have hflash : FLASH_END_ADDRESS.toNat = 134742016 := rfl
  have haddr : (address offset).toNat = flashAddress offset := toNat_address (by omega)
  have hfront : size.toNat ≤ roundUp size.toNat := by
    unfold roundUp
    omega
  have hrange : ¬OutOfRange offset size := not_outOfRange (by omega)
  have hne : ¬size < 1 := by
    rw [UInt32.lt_iff_toNat_lt]
    exact Nat.not_lt.mpr hsize
  have hlt : flashAddress offset = 134217728 + offset.toNat := rfl
  obtain ⟨m', hm'⟩ := exists_leads_writeLoop buf size.toNat 0 0 (address offset) m
    (fun _ => rfl) (by omega) (by omega) (by rw [Nat.sub_zero]; omega)
    (by rwa [Nat.sub_zero, haddr])
  refine ⟨m', ?_⟩
  rw [write, if_neg hrange, if_neg hne]
  exact leads_unlocked_iff.mpr hm'

end Write

/-! ## Reading -/

/-- The loads of {lit}`read` fill the buffer from {lit}`i` on. -/
theorem loads_readLoop (m : Memory) (out : Nat → UInt8) (i : Nat) (addr : UInt32) (n : Nat)
    (hfit : addr.toNat + n < 4294967296) (j : Nat) :
    loads m (readLoop i addr n) out j =
      if i ≤ j ∧ j < i + n then m (addr.toNat + (j - i)) else out j := by
  induction n generalizing i addr out with
  | zero => rw [readLoop, loads, if_neg (by omega)]
  | succ n ih =>
      have hnext : (addr + 1).toNat = addr.toNat + 1 := by
        rw [UInt32.toNat_add]
        show (addr.toNat + 1) % 4294967296 = _
        omega
      rw [readLoop, loads, ih _ _ _ (by omega), hnext]
      by_cases hj : j = i
      · subst hj
        rw [if_neg (by omega), if_pos (by omega), Function.update_self, Nat.sub_self, Nat.add_zero]
      · rw [Function.update_of_ne hj]
        by_cases hin : i ≤ j ∧ j < i + (n + 1)
        · rw [if_pos (by omega), if_pos hin]
          congr 1
          omega
        · rw [if_neg (by omega), if_neg hin]

/-! ## What a write guarantees -/

section Guarantees

variable {o : Outcomes} {offset size : UInt32} {buf : Nat → UInt8} {m m' : Memory}

/-- A write whose doublewords all fit the flash and are programmed returns its size, and a read
of the same range then returns the size and fills the first bytes of its buffer with those that
were written. -/
theorem write_read_identity (hsize : 0 < size.toNat)
    (hend : offset.toNat + roundUp size.toNat ≤ 512 * 1024) (hok : ∀ k, o.program k = .ok)
    (hleads : Leads m (write o offset buf size).calls m') (out : Nat → UInt8) :
    (write o offset buf size).ret = size.toNat ∧ (read offset size).ret = size.toNat ∧
      (∀ i < size.toNat, loads m' (read offset size).calls out i = buf i) ∧
      ∀ i, size.toNat ≤ i → loads m' (read offset size).calls out i = out i := by
  have hstart : FLASH_START_ADRESS.toNat = 134217728 := rfl
  have hfront : size.toNat ≤ roundUp size.toNat := by
    unfold roundUp
    omega
  have hrange : ¬OutOfRange offset size := not_outOfRange (by omega)
  rcases leads_write hrange hsize hok hleads with ⟨hret, haddr, rfl⟩
  have hsame : asInt size = size.toNat := (asInt_eq_iff size).mpr (by omega)
  have hlt : flashAddress offset = 134217728 + offset.toNat := rfl
  have hload (i : Nat) := loads_readLoop (written m buf size.toNat 0 (flashAddress offset)) out 0
    (address offset) size.toNat (by omega) i
  rw [read, if_neg hrange]
  refine ⟨hret.trans hsame, hsame, fun i hi => ?_, fun i hi => ?_⟩
  · rw [hload, if_pos (by omega), haddr, written, if_pos (by omega)]
    congr 1
    omega
  · rw [hload, if_neg (by omega)]

/-- Eleven bytes at offset 16 of an erased flash. -/
theorem write_read_identity_erased : ∃ m',
    Leads (fun _ => 0xFF) (write (working UInt8.ofNat 11) 16 UInt8.ofNat 11).calls m' ∧
      ∀ i < 11, loads m' (read 16 11).calls (fun _ => 0) i = UInt8.ofNat i := by
  obtain ⟨m', hm'⟩ := exists_leads_write (m := fun _ => 0xFF) 16 11 rfl
    (by decide) (by decide) (fun _ _ _ => rfl) UInt8.ofNat
  exact ⟨m', hm', (write_read_identity (by decide) (by decide) (fun _ => rfl) hm' _).2.2.1⟩

/-- The content of the flash outside of a range is kept. -/
def FrameKept (offset size : UInt32) (m m' : Memory) : Prop :=
  ∀ a, ¬(flashAddress offset ≤ a ∧ a < flashAddress offset + size.toNat) → m' a = m a

/-- A write whose doublewords are programmed keeps the content outside of its range exactly when
the range check turns it down, or the bytes behind the range in its last doubleword are zero
before.  In an erased range they are not, so there the size has to be a multiple of 8. -/
theorem write_frame_iff (hsize : 0 < size.toNat) (hok : ∀ k, o.program k = .ok)
    (hleads : Leads m (write o offset buf size).calls m') :
    (FrameKept offset size m m' ↔ OutOfRange offset size ∨
      ∀ a, flashAddress offset + size.toNat ≤ a →
        a < flashAddress offset + roundUp size.toNat → m a = 0) ∧
    (Erased m (flashAddress offset) (roundUp size.toNat) →
      (FrameKept offset size m m' ↔ OutOfRange offset size ∨ size.toNat % 8 = 0)) := by
  have hframe : FrameKept offset size m m' ↔ OutOfRange offset size ∨
      ∀ a, flashAddress offset + size.toNat ≤ a →
        a < flashAddress offset + roundUp size.toNat → m a = 0 := by
    by_cases hrange : OutOfRange offset size
    · refine iff_of_true (fun a _ => ?_) (.inl hrange)
      rw [write, if_pos hrange] at hleads
      exact congrFun (show m' = m from hleads) a
    · rw [or_iff_right hrange]
      rcases leads_write hrange hsize hok hleads with ⟨-, -, rfl⟩
      constructor
      · intro h a ha ha'
        have hkept := h a (by omega)
        rw [written, if_neg (by omega), if_pos ⟨ha, ha'⟩] at hkept
        exact hkept.symm
      · intro h a ha
        rw [written, Nat.sub_zero, if_neg ha]
        split_ifs with htail
        · exact (h a htail.1 htail.2).symm
        · rfl
  refine ⟨hframe, fun herased => ?_⟩
  rw [hframe]
  refine or_congr_right ⟨fun h => ?_, fun hwhole a ha ha' => ?_⟩
  · -- The first byte behind the range would be erased and zero.
    by_contra hpart
    have hzero := h (flashAddress offset + size.toNat) le_rfl (by rw [roundUp]; omega)
    rw [herased _ (by omega) (by rw [roundUp]; omega)] at hzero
    exact absurd hzero (by decide)
  · rw [roundUp] at ha'
    omega

/-- Eight bytes keep the rest of an erased flash erased. -/
theorem write_frame_iff_dword : ∃ m',
    Leads (fun _ => 0xFF) (write (working UInt8.ofNat 8) 16 UInt8.ofNat 8).calls m' ∧
      FrameKept 16 8 (fun _ => 0xFF) m' := by
  obtain ⟨m', hm'⟩ := exists_leads_write (m := fun _ => 0xFF) 16 8 rfl
    (by decide) (by decide) (fun _ _ _ => rfl) UInt8.ofNat
  exact ⟨m', hm', ((write_frame_iff (by decide) (fun _ => rfl) hm').2 fun _ _ _ => rfl).mpr
    (.inr rfl)⟩

/-- One byte in an erased flash, which leaves zeros behind it. -/
theorem write_clears_behind :
    ¬∀ (o : Outcomes) (offset size : UInt32) (buf : Nat → UInt8) (m m' : Memory),
      offset.toNat % 8 = 0 → 0 < size.toNat → (∀ k, o.program k = .ok) →
        Leads m (write o offset buf size).calls m' → FrameKept offset size m m' := by
  intro h
  obtain ⟨m', hm'⟩ := exists_leads_write (m := fun _ => 0xFF) 16 1 rfl
    (by decide) (by decide) (fun _ _ _ => rfl) UInt8.ofNat
  have hkept := h _ 16 1 _ _ _ rfl (by decide) (fun _ => rfl) hm' 134217745 (by decide)
  obtain ⟨-, -, rfl⟩ := leads_write (by decide) (by decide) (fun _ => rfl) hm'
  revert hkept
  decide

end Guarantees

end OnChip

end Flash

end WeatherStation
