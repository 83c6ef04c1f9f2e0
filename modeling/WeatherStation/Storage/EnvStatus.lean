import WeatherStation.Foundation.NorFlash

/-!
# Status tables

A status is kept as a table of bits of which each status clears one.  A table is never
erased while it is in use: writing a status programs a single bit, and the status that is
read is the one of the last bit that is clear.

Main results:

- Theorem {lit}`readStatus_writeStatus`: writing a status never lowers the one that is
  read.
- Theorem {lit}`readStatus_writes`: after any writes the highest status is read.
-/

open Foundation

namespace WeatherStation

namespace EasyFlash

/-- {lit}`STATUS_TABLE_SIZE`, for a write granularity of one bit. -/
def statusTableSize (status_number : Nat) : Nat :=
  (status_number + 7) / 8

/-- The mask of a position in a byte of the table. -/
def statusMask (n : Nat) : UInt8 :=
  0x80 >>> UInt8.ofNat (n % 8)

/-- {lit}`set_status`: the table and the index of the byte that is not all ones. -/
def setStatus (status_num status_index : Nat) : List UInt8 × Option Nat :=
  let status_table := List.replicate (statusTableSize status_num) 0xFF
  if status_index > 0 then
    let byte_index := (status_index - 1) / 8
    (status_table.modify byte_index (· &&& ~~~statusMask (status_index - 1)), some byte_index)
  else (status_table, none)

/-- The loop of {lit}`get_status`: the bits that are set behind the last clear one. -/
def getStatusLoop (status_table : List UInt8) : Nat → Nat → Nat
  | 0, i => i
  | n + 1, i =>
      if status_table.getD (n / 8) 0 &&& statusMask n = 0 then i
      else getStatusLoop status_table n (i + 1)

/-- {lit}`get_status` -/
def getStatus (status_table : List UInt8) (status_num : Nat) : Nat :=
  (status_num - 1) - getStatusLoop status_table (status_num - 1) 0

/-- {lit}`write_status`; the first status is all ones and is not written. -/
def writeStatus (m : Memory) (addr status_num status_index : Nat) : Memory :=
  match setStatus status_num status_index with
  | (_, none) => m
  | (status_table, some byte_index) =>
      m.program (addr + byte_index) [status_table.getD byte_index 0]

/-- {lit}`read_status` -/
def readStatus (m : Memory) (addr total_num : Nat) : Nat :=
  getStatus (m.read addr (statusTableSize total_num)) total_num

/-! ## Bits -/

/-- The bit of a status is clear. -/
def Cleared (status_table : List UInt8) (n : Nat) : Prop :=
  status_table.getD (n / 8) 0 &&& statusMask n = 0

instance (status_table : List UInt8) (n : Nat) : Decidable (Cleared status_table n) :=
  inferInstanceAs (Decidable (_ = _))

theorem getStatusLoop_add (status_table : List UInt8) (n i : Nat) :
    getStatusLoop status_table n i = i + getStatusLoop status_table n 0 := by
  induction n generalizing i with
  | zero => rfl
  | succ n ih =>
      rw [getStatusLoop, getStatusLoop]
      by_cases h : status_table.getD (n / 8) 0 &&& statusMask n = 0
      · rw [if_pos h, if_pos h, Nat.add_zero]
      · rw [if_neg h, if_neg h, ih (i + 1), ih (0 + 1)]
        omega

/-- The loop stops at the last clear bit. -/
theorem getStatusLoop_spec (status_table : List UInt8) (n : Nat) :
    getStatusLoop status_table n 0 ≤ n ∧
      (∀ j, n - getStatusLoop status_table n 0 ≤ j → j < n → ¬Cleared status_table j) ∧
      (getStatusLoop status_table n 0 < n →
        Cleared status_table (n - getStatusLoop status_table n 0 - 1)) := by
  induction n with
  | zero =>
      refine ⟨le_rfl, ?_, ?_⟩
      · intro j _ hj
        exact absurd hj (Nat.not_lt_zero j)
      · intro hlt
        exact absurd hlt (Nat.lt_irrefl 0)
  | succ n ih =>
      obtain ⟨hle, hset, hclear⟩ := ih
      rw [getStatusLoop]
      by_cases h : status_table.getD (n / 8) 0 &&& statusMask n = 0
      · rw [if_pos h]
        refine ⟨Nat.zero_le _, ?_, fun _ => h⟩
        intro j hj hj'
        omega
      · rw [if_neg h, getStatusLoop_add]
        refine ⟨by omega, ?_, ?_⟩
        · intro j hj hj'
          rcases Nat.lt_or_ge j n with hlt | hge
          · exact hset j (by omega) hlt
          · rw [show j = n by omega]
            exact h
        · intro hlt
          have hpos := hclear (by omega)
          rwa [show n + 1 - (0 + 1 + getStatusLoop status_table n 0) - 1 =
            n - getStatusLoop status_table n 0 - 1 by omega]

/-- The status that is read is the one of the last clear bit. -/
theorem getStatus_eq_iff {status_table : List UInt8} {status_num k : Nat} (hnum : 0 < status_num) :
    getStatus status_table status_num = k ↔
      k < status_num ∧ (∀ j, k ≤ j → j < status_num - 1 → ¬Cleared status_table j) ∧
        (k = 0 ∨ Cleared status_table (k - 1)) := by
  obtain ⟨hle, hset, hclear⟩ := getStatusLoop_spec status_table (status_num - 1)
  constructor
  · rintro rfl
    refine ⟨by unfold getStatus; omega, hset, ?_⟩
    rcases Nat.lt_or_ge (getStatusLoop status_table (status_num - 1) 0) (status_num - 1) with
      hlt | hge
    · exact .inr (hclear hlt)
    · exact .inl (by unfold getStatus; omega)
  · rintro ⟨hk, hset', hclear'⟩
    rcases Nat.lt_trichotomy (getStatus status_table status_num) k with hlt | heq | hgt
    · -- The bit of `k` is clear, so the loop did not pass it.
      rcases hclear' with rfl | hclear'
      · exact absurd hlt (Nat.not_lt_zero _)
      · exact absurd hclear' (hset (k - 1) (by unfold getStatus at hlt; omega) (by omega))
    · exact heq
    · unfold getStatus at hgt ⊢
      exact absurd (hclear (by omega)) (hset' _ (by omega) (by omega))

theorem statusMask_and (r r' : Fin 8) :
    ~~~((0x80 : UInt8) >>> UInt8.ofNat r) &&& ((0x80 : UInt8) >>> UInt8.ofNat r') =
      if r = r' then (0 : UInt8) else (0x80 : UInt8) >>> UInt8.ofNat r' := by
  revert r r'
  decide

/-- Clearing the bit of one position leaves the others of the byte. -/
theorem and_not_statusMask (b : UInt8) (n j : Nat) :
    b &&& ~~~statusMask n &&& statusMask j =
      if n % 8 = j % 8 then 0 else b &&& statusMask j := by
  have hand := statusMask_and ⟨n % 8, Nat.mod_lt n (by decide)⟩ ⟨j % 8, Nat.mod_lt j (by decide)⟩
  simp only [Fin.mk.injEq] at hand
  rw [UInt8.and_assoc, statusMask, statusMask, hand]
  split_ifs
  · exact UInt8.and_zero
  · rfl

/-! ## Writes -/

/-- What {lit}`write_status` does to a byte of the table. -/
theorem writeStatus_apply (m : Memory) {addr status_num status_index : Nat}
    (hindex : 0 < status_index) (hlt : status_index < status_num) (a : Nat) :
    writeStatus m addr status_num status_index a =
      if a = addr + (status_index - 1) / 8 then m a &&& ~~~statusMask (status_index - 1)
      else m a := by
  have hbyte : (status_index - 1) / 8 < statusTableSize status_num := by
    unfold statusTableSize
    omega
  have hvalue : ((List.replicate (statusTableSize status_num) (0xFF : UInt8)).modify
      ((status_index - 1) / 8) (· &&& ~~~statusMask (status_index - 1))).getD
        ((status_index - 1) / 8) 0 = ~~~statusMask (status_index - 1) := by
    rw [List.getD_eq_getElem?_getD, List.getElem?_modify_eq, List.getElem?_replicate, if_pos hbyte]
    exact Memory.and_ones _
  have hset : setStatus status_num status_index =
      ((List.replicate (statusTableSize status_num) 0xFF).modify ((status_index - 1) / 8)
        (· &&& ~~~statusMask (status_index - 1)), some ((status_index - 1) / 8)) := if_pos hindex
  rw [writeStatus, hset]
  dsimp only
  rw [hvalue]
  by_cases ha : a = addr + (status_index - 1) / 8
  · rw [if_pos ha, Memory.program_of_mem m (by rw [List.length_singleton]; omega), ha,
      Nat.sub_self]
    rfl
  · rw [if_neg ha, Memory.program_of_not_mem m (by rw [List.length_singleton]; omega)]

theorem cleared_read {m : Memory} {addr n j : Nat} (hj : j / 8 < n) :
    Cleared (m.read addr n) j ↔ m (addr + j / 8) &&& statusMask j = 0 := by
  unfold Cleared Memory.read
  rw [List.getD_eq_getElem?_getD, List.getElem?_map, List.getElem?_range hj]
  rfl

/-- Writing a status clears its bit only. -/
theorem cleared_writeStatus {m : Memory} {addr status_num status_index j : Nat}
    (hindex : 0 < status_index) (hlt : status_index < status_num) (hj : j < status_num) :
    Cleared ((writeStatus m addr status_num status_index).read addr
        (statusTableSize status_num)) j ↔
      j = status_index - 1 ∨ Cleared (m.read addr (statusTableSize status_num)) j := by
  have hbyte : j / 8 < statusTableSize status_num := by
    unfold statusTableSize
    omega
  rw [cleared_read hbyte, cleared_read hbyte, writeStatus_apply m hindex hlt]
  by_cases ha : addr + j / 8 = addr + (status_index - 1) / 8
  · rw [if_pos ha, and_not_statusMask]
    by_cases hmod : (status_index - 1) % 8 = j % 8
    · rw [if_pos hmod]
      exact iff_of_true rfl (.inl (by omega))
    · rw [if_neg hmod]
      refine ⟨.inr, ?_⟩
      rintro (rfl | h)
      · exact absurd rfl hmod
      · exact h
  · rw [if_neg ha]
    refine ⟨.inr, ?_⟩
    rintro (rfl | h)
    · exact absurd rfl ha
    · exact h

theorem writeStatus_zero (m : Memory) (addr status_num : Nat) :
    writeStatus m addr status_num 0 = m :=
  rfl

/-- Writing a status never lowers the one that is read. -/
theorem readStatus_writeStatus (m : Memory) {addr status_num status_index : Nat}
    (hlt : status_index < status_num) :
    readStatus (writeStatus m addr status_num status_index) addr status_num =
      max (readStatus m addr status_num) status_index := by
  have hnum : 0 < status_num := by omega
  generalize hr : readStatus m addr status_num = r
  obtain ⟨hread, hset, hclear⟩ := (getStatus_eq_iff hnum).mp hr
  rcases Nat.eq_zero_or_pos status_index with rfl | hindex
  · rw [writeStatus_zero, Nat.max_zero, hr]
  · have hle := Nat.le_max_left r status_index
    have hle' := Nat.le_max_right r status_index
    apply (getStatus_eq_iff hnum).mpr
    refine ⟨Nat.max_lt.mpr ⟨hread, hlt⟩, ?_, ?_⟩
    · intro j hj hj'
      rw [cleared_writeStatus hindex hlt (by omega), not_or]
      exact ⟨by omega, hset j (by omega) hj'⟩
    · have hmax : max r status_index < status_num := Nat.max_lt.mpr ⟨hread, hlt⟩
      rw [cleared_writeStatus hindex hlt (by omega)]
      rcases Nat.le_total r status_index with hle | hge
      · rw [Nat.max_eq_right hle]
        exact .inr (.inl rfl)
      · rw [Nat.max_eq_left hge]
        rcases hclear with hzero | hclear
        · exact .inl hzero
        · exact .inr (.inr hclear)

/-- Only the bytes of the table change. -/
theorem writeStatus_of_not_mem (m : Memory) {addr status_num status_index a : Nat}
    (hlt : status_index < status_num)
    (ha : ¬(addr ≤ a ∧ a < addr + statusTableSize status_num)) :
    writeStatus m addr status_num status_index a = m a := by
  rcases Nat.eq_zero_or_pos status_index with rfl | hindex
  · rw [writeStatus_zero]
  · have hbyte : (status_index - 1) / 8 < statusTableSize status_num := by
      unfold statusTableSize
      omega
    rw [writeStatus_apply m hindex hlt, if_neg (by omega)]

/-- Statuses written one after the other. -/
def writes (m : Memory) (addr status_num : Nat) (status_indices : List Nat) : Memory :=
  status_indices.foldl (fun m k => writeStatus m addr status_num k) m

/-- After any writes the highest status is read, in whatever order they were made, and
nothing but the table has changed: a status that was left is not entered again. -/
theorem readStatus_writes (m : Memory) {addr status_num : Nat} {status_indices : List Nat}
    (hlt : ∀ k ∈ status_indices, k < status_num) :
    readStatus (writes m addr status_num status_indices) addr status_num =
        status_indices.foldl max (readStatus m addr status_num) ∧
      ∀ a, ¬(addr ≤ a ∧ a < addr + statusTableSize status_num) →
        writes m addr status_num status_indices a = m a := by
  induction status_indices generalizing m with
  | nil => exact ⟨rfl, fun a _ => rfl⟩
  | cons k ks ih =>
      have hk := hlt k List.mem_cons_self
      obtain ⟨hread, hframe⟩ := ih (writeStatus m addr status_num k) fun k' hk' =>
        hlt k' (List.mem_cons_of_mem k hk')
      refine ⟨?_, ?_⟩
      · rw [readStatus_writeStatus m hk] at hread
        exact hread
      · intro a ha
        exact (hframe a ha).trans (writeStatus_of_not_mem m hk ha)

/-- The statuses of a variable that is written and deleted, on an erased table. -/
theorem readStatus_writes_deleted :
    readStatus (writes (fun _ => 0xFF) 16 6 [1, 2, 3, 4]) 16 6 = 4 := by
  have hall : ∀ k ∈ [1, 2, 3, 4], k < 6 := by decide
  have herased : readStatus (fun _ => 0xFF) 16 6 = 0 := by decide
  rw [(readStatus_writes (fun _ => 0xFF) hall).1, herased]
  rfl

end EasyFlash

end WeatherStation
