import WeatherStation.Storage.FlashMemory

/-!
# The on-chip flash as a store

A caller of the port knows the byte at an offset after an erase or a write that came to its end,
and no longer after one that failed there.  Every access changes whole pages or whole doublewords,
whatever range it was asked for; what is known elsewhere stays known.

Main results:

- Theorem {lit}`holds_history`: after every sequence of accesses the flash holds what is known.
- Theorem {lit}`read_known`: a read returns the bytes that are known.
- Theorem {lit}`read_written`: a buffer is read back until an access touches its range.
- Theorem {lit}`exists_erase_write`: what was erased can be written.
-/

open Foundation

namespace WeatherStation

namespace Flash

/-! ## What a call touches -/

/-- The call can change the byte at an address: it programs the doubleword or erases the page. -/
def Call.Touches (a : UInt32) : Call → Prop
  | .program addr _ _ _ => addr.toNat ≤ a.toNat ∧ a.toNat < addr.toNat + 8
  | .erase banks page nbPages _ => ∃ p, page ≤ p ∧ p < page + nbPages ∧ banks.Page p a
  | _ => False

/-- A call erases and succeeds. -/
def Call.IsErase (c : Call) : Prop :=
  ∃ banks page nbPages, c = .erase banks page nbPages .ok

section Calls

variable {m m' : Memory} {a : UInt32}

/-- Whatever its outcome is, a call keeps the bytes that it does not touch. -/
theorem Call.leads_of_not_touches {c : Call} (h : c.Leads m m') (ha : ¬c.Touches a) :
    m' a.toNat = m a.toNat := by
  cases c with
  | program addr data status readBack =>
      by_cases hstatus : status = .ok
      · obtain ⟨-, rfl, -⟩ := (leads_program_iff hstatus).mp h
        exact storeDword_of_not_mem m data ha
      · rw [Call.Leads, if_neg hstatus] at h
        exact h a.toNat ha
  | erase banks page nbPages status => exact (h a).2 ha
  | unlock | lock | load | sfudRead | sfudWrite | sfudErase =>
      exact congrFun (show m' = m from h) _

/-- The same for calls one after another. -/
theorem leads_of_not_touches {calls : List Call} (h : Leads m calls m')
    (ha : ∀ c ∈ calls, ¬c.Touches a) : m' a.toNat = m a.toNat := by
  induction calls generalizing m with
  | nil => exact congrFun (show m' = m from h) _
  | cons c calls ih =>
      obtain ⟨m₁, hcall, hrest⟩ := h
      rw [List.forall_mem_cons] at ha
      exact (ih hrest ha.2).trans (Call.leads_of_not_touches hcall ha.1)

/-- Erases leave a byte erased that one of them touches, or that was erased before. -/
theorem leads_erases {calls : List Call} (h : Leads m calls m')
    (herase : ∀ c ∈ calls, c.IsErase) (ha : (∃ c ∈ calls, c.Touches a) ∨ m a.toNat = 0xFF) :
    m' a.toNat = 0xFF := by
  induction calls generalizing m with
  | nil =>
      rw [show m' = m from h]
      exact ha.resolve_left (by simp)
  | cons c calls ih =>
      obtain ⟨m₁, hcall, hrest⟩ := h
      rw [List.forall_mem_cons] at herase
      obtain ⟨⟨banks, page, nbPages, rfl⟩, herase⟩ := herase
      refine ih hrest herase ?_
      by_cases htouch : (Call.erase banks page nbPages .ok).Touches a
      · exact .inr ((hcall a).1 htouch rfl)
      · rw [(hcall a).2 htouch]
        rwa [List.exists_mem_cons_iff, or_iff_right htouch] at ha

/-- Erases are possible at any content of the flash. -/
theorem exists_leads_erases (m : Memory) {calls : List Call} (herase : ∀ c ∈ calls, c.IsErase) :
    ∃ m', Leads m calls m' := by
  classical
  induction calls generalizing m with
  | nil => exact ⟨m, rfl⟩
  | cons c calls ih =>
      rw [List.forall_mem_cons] at herase
      obtain ⟨⟨banks, page, nbPages, rfl⟩, herase⟩ := herase
      let c := Call.erase banks page nbPages .ok
      let m₁ : Memory := fun x => if ∃ a : UInt32, a.toNat = x ∧ c.Touches a then 0xFF else m x
      obtain ⟨m', hrest⟩ := ih m₁ herase
      refine ⟨m', m₁, fun a => ⟨fun htouch _ => if_pos ⟨a, rfl, htouch⟩, fun hno => ?_⟩, hrest⟩
      refine if_neg ?_
      rintro ⟨b, hb, htouch⟩
      rw [UInt32.toNat_inj] at hb
      exact hno (hb ▸ htouch)

/-- An erase that did what a request asks for a byte touches it. -/
theorem Call.touches_of_processes {c : Call} {size : UInt32} {i : Nat}
    (h : c.Processes .stm32l4_onchip_flash (.erase size) i a) : c.Touches a := by
  cases c with
  | erase banks page nbPages status => exact h.2
  | unlock | lock | load | program | sfudRead | sfudWrite | sfudErase => exact h.2.elim

/-- Only the calls between the unlocking and the locking touch anything. -/
theorem mem_of_touches {c : Call} {status : HalStatus} {calls : List Call}
    (hc : c ∈ .unlock status :: calls ++ [.lock]) (htouch : c.Touches a) : c ∈ calls := by
  rw [List.cons_append, List.mem_cons, List.mem_append, List.mem_singleton] at hc
  rcases hc with rfl | hc | rfl
  · exact htouch.elim
  · exact hc
  · exact htouch.elim

end Calls

namespace OnChip

/-! ## What the operations touch -/

/-- The loop of {lit}`read` only loads. -/
theorem not_touches_readLoop {i n : Nat} {addr a : UInt32} {c : Call}
    (hc : c ∈ readLoop i addr n) : ¬c.Touches a := by
  induction n generalizing i addr with
  | zero => exact absurd hc List.not_mem_nil
  | succ n ih =>
      rcases List.mem_cons.mp hc with rfl | hc
      · exact id
      · exact ih hc

/-- The loop of {lit}`write` touches the doublewords from its address on. -/
theorem touches_writeLoop {o : Outcomes} {buf : Nat → UInt8} (size k i : Nat) (addr : UInt32)
    {a : UInt32} {c : Call} (hfit : addr.toNat + roundUp (size - i) < 4294967296)
    (hc : c ∈ (writeLoop o buf size k i addr).1) (htouch : c.Touches a) :
    addr.toNat ≤ a.toNat ∧ a.toNat < addr.toNat + roundUp (size - i) := by
  have hfirst {i : Nat} {addr : UInt32} {data readBack : UInt64} {status : HalStatus}
      (hi : i < size) (hc : c = .program addr data status readBack) :
      addr.toNat ≤ a.toNat ∧ a.toNat < addr.toNat + roundUp (size - i) := by
    rw [hc] at htouch
    have hround := roundUp_chunk hi
    exact ⟨htouch.1, by have := htouch.2; omega⟩
  fun_induction writeLoop o buf size k i addr with
  | case1 k i addr hi n write_data call hprogram hdiff =>
      exact hfirst hi (List.mem_singleton.mp hc)
  | case2 k i addr hi n write_data call hprogram hsame rest ih =>
      rcases List.mem_cons.mp hc with hcall | hc
      · exact hfirst hi hcall
      · have hround : roundUp (size - i) = 8 + roundUp (size - (i + n)) := roundUp_chunk hi
        have hnext : (addr + 8).toNat = addr.toNat + 8 := by
          rw [UInt32.toNat_add]
          show (addr.toNat + 8) % 4294967296 = _
          omega
        have hrest := ih (by omega) hc
        omega
  | case3 k i addr hi n write_data call hfail => exact hfirst hi (List.mem_singleton.mp hc)
  | case4 k i addr hi => exact absurd hc List.not_mem_nil

/-- A write that reports its size leaves its buffer in the flash. -/
theorem written_of_ret {o : Outcomes} {offset size : UInt32} {buf : Nat → UInt8} {m m' : Memory}
    (hfits : offset.toNat + size.toNat ≤ 512 * 1024)
    (hret : (write o offset buf size).ret = size.toNat)
    (h : Leads m (write o offset buf size).calls m') :
    m' = written m buf size.toNat 0 (flashAddress offset) := by
  have haddr : (address offset).toNat = flashAddress offset := toNat_address (by omega)
  rw [write, if_neg (not_outOfRange hfits)] at hret h
  by_cases hempty : size < 1
  · rw [if_pos hempty] at hret
    exact absurd hret (by dsimp only; omega)
  · rw [if_neg hempty] at hret h
    dsimp only at hret
    have hstatus : (writeLoop o buf size.toNat 0 0 (address offset)).2 = 0 := by
      refine (writeLoop_status o buf size.toNat 0 0 (address offset)).resolve_right fun hfail => ?_
      rw [hfail, if_pos (by decide)] at hret
      omega
    rw [← haddr]
    exact written_of_leads _ _ _ _ _ hstatus (leads_unlocked_iff.mp h)

/-- The calls of an erase in the flash. -/
theorem calls_erase (o : Outcomes) {offset size : UInt32}
    (hfits : offset.toNat + size.toNat ≤ 512 * 1024) :
    (erase o offset size).calls = .unlock o.unlock ::
      eraseCalls o (bankOf (address offset)) (pageOf (address offset)) (pageCount size) ++
        [.lock] := by
  rw [erase, if_neg (not_outOfRange hfits)]

section Erase

variable {o : Outcomes} {base : UInt32} {w n : Nat}

/-- A call of {lit}`erase` between the unlocking and the locking that succeeds erases. -/
theorem isErase_of_mem {banks : Bank} {page : Nat} {c : Call}
    (hc : c ∈ eraseCalls o banks page n) (hok : c.Succeeded) : c.IsErase := by
  unfold eraseCalls at hc
  split_ifs at hc <;> simp only [List.mem_cons, List.not_mem_nil, or_false] at hc
  all_goals rcases hc with rfl | rfl <;> exact ⟨_, _, _, congrArg _ hok⟩

/-- On the device, the erases touch no other than their {lit}`n` pages. -/
theorem touches_eraseCalls (hbase : base.toNat = FLASH_START_ADRESS.toNat + w) (hw : w ≤ 524288)
    (hn : w / 2048 + n ≤ 256) {a : UInt32} {v : Nat} {c : Call}
    (hc : c ∈ eraseCalls o (bankOf base) (pageOf base) n)
    (ha : a.toNat = FLASH_START_ADRESS.toNat + v) (htouch : c.Touches a) :
    w / 2048 ≤ v / 2048 ∧ v / 2048 < w / 2048 + n := by
  have hone {count : Nat} {status : HalStatus} (hcount : w / 2048 + count ≤ 256)
      (hc : c = .erase .bank1 (w / 2048) count status) :
      w / 2048 ≤ v / 2048 ∧ v / 2048 < w / 2048 + count := by
    rw [hc] at htouch
    exact (exists_page_bank1_iff ha hcount).mp htouch
  have htwo {first count : Nat} {status : HalStatus} (hfirst : 128 ≤ first)
      (hcount : first + count ≤ 256) (hc : c = .erase .bank2 (first + 128) count status) :
      first ≤ v / 2048 ∧ v / 2048 < first + count := by
    rw [hc] at htouch
    have hpage := (exists_page_bank2_iff ha (by omega) (by omega)).mp htouch
    omega
  rw [eraseCalls_onDevice hbase hw hn] at hc
  split_ifs at hc with hfirst hcross hfail
  · have hpage := hone (by omega) (List.mem_singleton.mp hc)
    omega
  · rcases List.mem_cons.mp hc with hcall | hc
    · have hpage := hone (by omega) hcall
      omega
    · have hpage := htwo le_rfl (by omega) (List.mem_singleton.mp hc)
      omega
  · exact hone (by omega) (List.mem_singleton.mp hc)
  · exact htwo (by omega) hn (List.mem_singleton.mp hc)

end Erase

/-! ## Accesses -/

/-- Every offset in the flash has an address. -/
theorem exists_address {w : Nat} (hw : w < 524288) :
    ∃ a : UInt32, a.toNat = FLASH_START_ADRESS.toNat + w := by
  have hstart : FLASH_START_ADRESS.toNat = 134217728 := rfl
  have hsize : UInt32.size = 4294967296 := rfl
  exact ⟨UInt32.ofNat (FLASH_START_ADRESS.toNat + w), UInt32.toNat_ofNat_of_lt' (by omega)⟩

/-- A call of an operation of the port for a range in the flash. -/
structure Access where
  o : Outcomes
  offset : UInt32
  rq : Request
  fits : offset.toNat + rq.size.toNat ≤ 512 * 1024

namespace Access

/-- The run of the operation. -/
def run (x : Access) : Run :=
  Device.ops x.o x.offset .stm32l4_onchip_flash x.rq

/-- The offsets at which an access can change the flash: those of whole doublewords or pages. -/
def Touches (x : Access) (w : Nat) : Prop :=
  match x.rq with
  | .read _ => False
  | .write _ size => x.offset.toNat ≤ w ∧ w < x.offset.toNat + roundUp size.toNat
  | .erase size =>
      x.offset.toNat / 2048 ≤ w / 2048 ∧ w / 2048 < x.offset.toNat / 2048 + pageCount size

/-- The access came to its end: a write reports its size, and every call of an erase, which
reports its size in any case, succeeded. -/
def Completed (x : Access) : Prop :=
  match x.rq with
  | .read _ => True
  | .write _ size => x.run.ret = size.toNat
  | .erase _ => ∀ c ∈ x.run.calls, c.Succeeded

/-- The byte at an offset that a completed access touches. -/
def leaves (x : Access) (w : Nat) : UInt8 :=
  match x.rq with
  | .write buf size => if w < x.offset.toNat + size.toNat then buf (w - x.offset.toNat) else 0
  | _ => 0xFF

/-- The calls of an access touch the offsets that it touches. -/
theorem touches_of_mem (x : Access) {c : Call} (hc : c ∈ x.run.calls) {a : UInt32} {w : Nat}
    (ha : a.toNat = FLASH_START_ADRESS.toNat + w) (htouch : c.Touches a) : x.Touches w := by
  obtain ⟨o, offset, rq, fits⟩ := x
  have hstart : FLASH_START_ADRESS.toNat = 134217728 := rfl
  have haddr : (address offset).toNat = FLASH_START_ADRESS.toNat + offset.toNat :=
    toNat_address (by omega)
  have hrange : ¬OutOfRange offset rq.size := not_outOfRange fits
  cases rq with
  | read size =>
      simp only [run, Device.ops, read, if_neg (show ¬OutOfRange offset size from hrange)] at hc
      exact absurd htouch (not_touches_readLoop hc)
  | write buf size =>
      simp only [run, Device.ops, write, if_neg (show ¬OutOfRange offset size from hrange)] at hc
      by_cases hempty : size < 1
      · rw [if_pos hempty] at hc
        rw [List.mem_singleton.mp hc] at htouch
        exact htouch.elim
      · rw [if_neg hempty] at hc
        have hround : roundUp size.toNat < size.toNat + 8 := by
          unfold roundUp
          omega
        have hfit : offset.toNat + size.toNat ≤ 512 * 1024 := fits
        have hloop := touches_writeLoop size.toNat 0 0 (address offset)
          (by rw [Nat.sub_zero]; omega) (mem_of_touches hc htouch) htouch
        rw [Nat.sub_zero] at hloop
        show offset.toNat ≤ w ∧ w < offset.toNat + roundUp size.toNat
        omega
  | erase size =>
      have hcount := pageCount_bounds size
      have hfit : offset.toNat + size.toNat ≤ 512 * 1024 := fits
      rw [show run _ = OnChip.erase o offset size from rfl, calls_erase o hfit] at hc
      exact touches_eraseCalls haddr (by omega) (by omega) (mem_of_touches hc htouch) ha htouch

variable {m m' : Memory} {w : Nat}

/-- An access keeps the bytes that it does not touch, whether it is completed or not. -/
theorem kept_of_not_touches (x : Access) (hw : w < 524288) (h : Leads m x.run.calls m')
    (hno : ¬x.Touches w) :
    m' (FLASH_START_ADRESS.toNat + w) = m (FLASH_START_ADRESS.toNat + w) := by
  obtain ⟨a, ha⟩ := exists_address hw
  rw [← ha]
  exact Flash.leads_of_not_touches h fun c hc htouch => hno (x.touches_of_mem hc ha htouch)

/-- A completed access leaves its byte at an offset that it touches. -/
theorem leaves_of_completed (x : Access) (hw : w < 524288) (h : Leads m x.run.calls m')
    (hdone : x.Completed) (htouch : x.Touches w) :
    m' (FLASH_START_ADRESS.toNat + w) = x.leaves w := by
  obtain ⟨o, offset, rq, fits⟩ := x
  cases rq with
  | read size => exact htouch.elim
  | write buf size =>
      have hret : (OnChip.write o offset buf size).ret = size.toNat := hdone
      have hin : offset.toNat ≤ w ∧ w < offset.toNat + roundUp size.toNat := htouch
      have hfit : offset.toNat + size.toNat ≤ 512 * 1024 := fits
      rw [written_of_ret hfit hret h, written, flashAddress, Nat.sub_zero]
      show _ = if w < offset.toNat + size.toNat then buf (w - offset.toNat) else 0
      by_cases hbyte : w < offset.toNat + size.toNat
      · rw [if_pos (by omega), if_pos hbyte]
        congr 1
        omega
      · rw [if_neg (by omega), if_pos (by omega), if_neg hbyte]
  | erase size =>
      have hcalls : ∀ c ∈ (OnChip.erase o offset size).calls, c.Succeeded := hdone
      have hleads : Leads m (OnChip.erase o offset size).calls m' := h
      have hfit : offset.toNat + size.toNat ≤ 512 * 1024 := fits
      rw [calls_erase o hfit] at hcalls hleads
      rw [leads_unlocked_iff] at hleads
      have hok : ∀ c ∈ eraseCalls o (bankOf (address offset)) (pageOf (address offset))
          (pageCount size), c.Succeeded := fun c hc => hcalls c (by simp [hc])
      obtain ⟨a, ha⟩ := exists_address hw
      have hcount := pageCount_bounds size
      obtain ⟨c, hc, hproc⟩ := (eraseCalls_processes_iff (toNat_address (by omega)) (by omega)
        (by omega) hok size 0 ha hw).mpr htouch
      rw [← ha]
      exact leads_erases hleads (fun c hc => isErase_of_mem hc (hok c hc))
        (.inl ⟨c, hc, Call.touches_of_processes hproc⟩)

end Access

/-! ## What a caller knows -/

/-- The byte at each offset, where it is known. -/
abbrev View := Nat → Option UInt8

namespace View

open Classical in
/-- What is known after an access. -/
noncomputable def after (v : View) (x : Access) : View := fun w =>
  if x.Touches w then if x.Completed then some (x.leaves w) else none else v w

/-- The flash holds what is known. -/
def Holds (v : View) (m : Memory) : Prop :=
  ∀ w < 524288, ∀ b, v w = some b → m (FLASH_START_ADRESS.toNat + w) = b

variable {v : View} {m m' : Memory}

/-- An access leaves in the flash what is known after it. -/
theorem holds_after (x : Access) (hv : v.Holds m) (h : Leads m x.run.calls m') :
    (v.after x).Holds m' := by
  intro w hw b hb
  by_cases htouch : x.Touches w
  · by_cases hdone : x.Completed
    · rw [after, if_pos htouch, if_pos hdone] at hb
      rw [x.leaves_of_completed hw h hdone htouch]
      exact Option.some.inj hb
    · rw [after, if_pos htouch, if_neg hdone] at hb
      contradiction
  · rw [after, if_neg htouch] at hb
    rw [x.kept_of_not_touches hw h htouch]
    exact hv w hw b hb

/-- After every sequence of accesses the flash holds what is known. -/
theorem holds_history (xs : List Access) (hv : v.Holds m)
    (h : Leads m (xs.flatMap fun x => x.run.calls) m') : (xs.foldl after v).Holds m' := by
  induction xs generalizing v m with
  | nil =>
      rw [show m' = m from h]
      exact hv
  | cons x xs ih =>
      rw [List.flatMap_cons, leads_append] at h
      obtain ⟨m₁, hfirst, hrest⟩ := h
      exact ih (holds_after x hv hfirst) hrest

/-- What no access touches stays known. -/
theorem foldl_after_of_not_touches {xs : List Access} {w : Nat}
    (h : ∀ x ∈ xs, ¬x.Touches w) : xs.foldl after v w = v w := by
  induction xs generalizing v with
  | nil => rfl
  | cons x xs ih =>
      rw [List.forall_mem_cons] at h
      rw [List.foldl_cons, ih h.2, after, if_neg h.1]

/-- A read returns the bytes that are known. -/
theorem read_known {offset size : UInt32} (hfits : offset.toNat + size.toNat ≤ 512 * 1024)
    {buf : Nat → UInt8} (hv : v.Holds m)
    (hknown : ∀ i < size.toNat, v (offset.toNat + i) = some (buf i)) (out : Nat → UInt8) :
    (read offset size).ret = size.toNat ∧
      ∀ i < size.toNat, loads m (read offset size).calls out i = buf i := by
  have hstart : FLASH_START_ADRESS.toNat = 134217728 := rfl
  have haddr : (address offset).toNat = FLASH_START_ADRESS.toNat + offset.toNat :=
    toNat_address (by omega)
  rw [read, if_neg (not_outOfRange hfits)]
  refine ⟨(asInt_eq_iff size).mpr (by omega), fun i hi => ?_⟩
  dsimp only
  rw [loads_readLoop m out 0 (address offset) size.toNat (by omega), if_pos (by omega), haddr,
    Nat.sub_zero, Nat.add_assoc]
  exact hv _ (by omega) _ (hknown i hi)

end View

/-! ## Writing, reading and erasing -/

/-- A buffer whose write came to its end is read back until an access touches its range. -/
theorem read_written {o : Outcomes} {offset size : UInt32} {buf : Nat → UInt8}
    (hfits : offset.toNat + size.toNat ≤ 512 * 1024)
    (hdone : (write o offset buf size).ret = size.toNat) {xs : List Access}
    (hxs : ∀ x ∈ xs, ∀ i < size.toNat, ¬x.Touches (offset.toNat + i)) {m m' : Memory}
    (h : Leads m ((write o offset buf size).calls ++ xs.flatMap fun x => x.run.calls) m')
    (out : Nat → UInt8) :
    ∀ i < size.toNat, loads m' (read offset size).calls out i = buf i := by
  let x : Access := ⟨o, offset, .write buf size, hfits⟩
  have hv : View.Holds (fun _ => none) m := fun w _ b hb => by contradiction
  have hhistory := View.holds_history (x :: xs) hv h
  refine (View.read_known hfits hhistory (fun i hi => ?_) out).2
  have htouch : x.Touches (offset.toNat + i) := by
    show offset.toNat ≤ _ ∧ _ < offset.toNat + roundUp size.toNat
    unfold roundUp
    omega
  rw [List.foldl_cons, View.foldl_after_of_not_touches fun y hy => hxs y hy i hi, View.after,
    if_pos htouch, if_pos (show x.Completed from hdone)]
  show some (if _ < offset.toNat + size.toNat then buf (offset.toNat + i - offset.toNat) else 0) = _
  rw [if_pos (by omega), Nat.add_sub_cancel_left]

/-- An erase in the flash can be completed at any content. -/
theorem exists_leads_erase (m : Memory) {o : Outcomes} (hunlock : o.unlock = .ok)
    (hok : ∀ k, o.erase k = .ok) {offset size : UInt32}
    (hfits : offset.toNat + size.toNat ≤ 512 * 1024) :
    ∃ m', Leads m (erase o offset size).calls m' ∧
      ∀ c ∈ (erase o offset size).calls, c.Succeeded := by
  have haddr : (address offset).toNat = FLASH_START_ADRESS.toNat + offset.toNat :=
    toNat_address (by omega)
  have hcount := pageCount_bounds size
  have herase : ∀ c ∈ eraseCalls o (bankOf (address offset)) (pageOf (address offset))
      (pageCount size), c.Succeeded :=
    (eraseCalls_succeeded_iff haddr (by omega) (by omega)).mpr ⟨hok 0, fun _ => hok 1⟩
  obtain ⟨m', hm'⟩ := exists_leads_erases m fun c hc => isErase_of_mem hc (herase c hc)
  rw [calls_erase o hfits]
  refine ⟨m', leads_unlocked_iff.mpr hm', ?_⟩
  simp only [List.cons_append, List.forall_mem_cons, List.forall_mem_append]
  exact ⟨hunlock, herase, by simp [Call.Succeeded]⟩

/-- A buffer can be written at an aligned offset when an erase that was completed before has
touched all its doublewords. -/
theorem exists_erase_write (m : Memory) {offset size woffset wsize : UInt32}
    (hfits : offset.toNat + size.toNat ≤ 512 * 1024) (halign : woffset.toNat % 8 = 0)
    (hsize : 0 < wsize.toNat) (hfirst : offset.toNat / 2048 ≤ woffset.toNat / 2048)
    (hlast : (woffset.toNat + roundUp wsize.toNat - 1) / 2048 <
      offset.toNat / 2048 + pageCount size) (buf : Nat → UInt8) :
    ∃ m', Leads m ((erase (working buf wsize.toNat) offset size).calls ++
      (write (working buf wsize.toNat) woffset buf wsize).calls) m' := by
  let x : Access := ⟨working buf wsize.toNat, offset, .erase size, hfits⟩
  have hcount := pageCount_bounds size
  have hround : wsize.toNat ≤ roundUp wsize.toNat := by
    unfold roundUp
    omega
  obtain ⟨m₁, hleads, hdone⟩ :=
    exists_leads_erase m (o := working buf wsize.toNat) rfl (fun _ => rfl) hfits
  have herased : Erased m₁ (flashAddress woffset) (roundUp wsize.toNat) := by
    intro a ha ha'
    rw [flashAddress] at ha ha'
    have htouch : x.Touches (a - FLASH_START_ADRESS.toNat) := by
      show offset.toNat / 2048 ≤ _ ∧ _ < offset.toNat / 2048 + pageCount size
      omega
    have hbyte := x.leaves_of_completed (by omega) hleads hdone htouch
    rwa [Nat.add_sub_cancel' (by omega)] at hbyte
  obtain ⟨m', hm'⟩ := exists_leads_write woffset wsize halign hsize (by omega) herased buf
  exact ⟨m', leads_append.mpr ⟨m₁, hleads, hm'⟩⟩

end OnChip

end Flash

end WeatherStation
