import WeatherStation.Storage.FlashReport

/-!
# The pages that are erased

{lit}`erase` starts with the page of its offset and takes as many pages as the size alone needs.
The pages are numbered through the 512 KiB of the flash here; the second bank begins with
page 128.

Main results:

- Theorem {lit}`mem_erasedPages_iff`: a range on the device erases the pages from the one of its
  offset on, in whichever bank they lie.
- Theorem {lit}`erase_exact_iff`: the ranges whose pages are erased exactly.
-/

namespace WeatherStation

namespace Flash

/-- The pages that a call of {lit}`HAL_FLASHEx_Erase` erases when it succeeds: each number is
taken modulo 256 in the bank. -/
def Call.erasedPages : Call → List (Bank × Nat)
  | .erase banks page nbPages .ok => (List.range nbPages).map fun i => (banks, (page + i) % 256)
  | _ => []

/-- The pages that a run erases. -/
def Run.erasedPages (run : Run) : List (Bank × Nat) :=
  run.calls.flatMap Call.erasedPages

namespace OnChip

/-- The bank and the number in it of a page of the flash. -/
def pagePlace (page : Nat) : Bank × Nat :=
  if page < 128 then (.bank1, page) else (.bank2, page - 128)

/-- The page has a byte of the range from {lit}`offset` to {lit}`offset + size`. -/
def PageIntersects (offset size page : Nat) : Prop :=
  ∃ i < size, (offset + i) / FLASH_PAGE_SIZE = page

/-- The pages that are erased are those that the range intersects. -/
def ErasesExactly (o : Outcomes) (offset size : UInt32) : Prop :=
  ∀ place, place ∈ (erase o offset size).erasedPages ↔
    ∃ page, PageIntersects offset.toNat size.toNat page ∧ pagePlace page = place

/-! ## The erased pages -/

theorem pagePlace_injective {page page' : Nat} (h : pagePlace page = pagePlace page') :
    page = page' := by
  unfold pagePlace at h
  split_ifs at h with hfirst hfirst'
  · exact (Prod.mk.inj h).2
  · exact absurd (Prod.mk.inj h).1 (by decide)
  · exact absurd (Prod.mk.inj h).1 (by decide)
  · have := (Prod.mk.inj h).2
    omega

/-- The pages of a range are those from its first to its last byte. -/
theorem pageIntersects_iff {offset size page : Nat} (hsize : 0 < size) :
    PageIntersects offset size page ↔
      offset / 2048 ≤ page ∧ page ≤ (offset + (size - 1)) / 2048 := by
  constructor
  · rintro ⟨i, hi, rfl⟩
    rw [FLASH_PAGE_SIZE]
    omega
  · rintro ⟨hfirst, hlast⟩
    by_cases hstart : page = offset / 2048
    · exact ⟨0, hsize, hstart.symm⟩
    · refine ⟨2048 * page - offset, by omega, ?_⟩
      rw [FLASH_PAGE_SIZE]
      omega

section OnDevice

variable {o : Outcomes} {base : UInt32} {w n : Nat}

/-- A call whose pages are numbered like those of the flash from {lit}`page` on. -/
theorem mem_map_iff_of_pagePlace {f : Nat → Bank × Nat} {page n : Nat}
    (hf : ∀ i, i < n → f i = pagePlace (page + i)) (place : Bank × Nat) :
    place ∈ (List.range n).map f ↔ ∃ p, page ≤ p ∧ p < page + n ∧ pagePlace p = place := by
  rw [List.mem_map]
  constructor
  · rintro ⟨i, hi, rfl⟩
    have hi := List.mem_range.mp hi
    exact ⟨page + i, Nat.le_add_right page i, Nat.add_lt_add_left hi page, (hf i hi).symm⟩
  · rintro ⟨p, hp, hp', rfl⟩
    have hi : p - page < n := by omega
    refine ⟨p - page, List.mem_range.mpr hi, ?_⟩
    rw [hf _ hi, Nat.add_sub_cancel' hp]

/-- A call for pages of the first bank. -/
theorem mem_erasedPages_bank1 {page n : Nat} (hpages : page + n ≤ 128) (place : Bank × Nat) :
    place ∈ (Call.erase .bank1 page n .ok).erasedPages ↔
      ∃ p, page ≤ p ∧ p < page + n ∧ pagePlace p = place := by
  refine mem_map_iff_of_pagePlace (fun i hi => ?_) place
  rw [pagePlace, if_pos (by omega), Nat.mod_eq_of_lt (by omega)]

/-- A call for pages of the second bank, which the driver numbers from 256. -/
theorem mem_erasedPages_bank2 {page n : Nat} (hpage : 128 ≤ page) (hpages : page + n ≤ 256)
    (place : Bank × Nat) :
    place ∈ (Call.erase .bank2 (page + 128) n .ok).erasedPages ↔
      ∃ p, page ≤ p ∧ p < page + n ∧ pagePlace p = place := by
  refine mem_map_iff_of_pagePlace (fun i hi => ?_) place
  rw [pagePlace, if_neg (by omega)]
  exact congrArg _ (by omega)

/-- On the device, erases that succeed erase {lit}`n` pages from the one of the offset on. -/
theorem mem_erasedPages_iff (hbase : base.toNat = FLASH_START_ADRESS.toNat + w)
    (hw : w ≤ 524288) (hn : w / 2048 + n ≤ 256) (hok : ∀ k, o.erase k = .ok)
    (place : Bank × Nat) :
    place ∈ (eraseCalls o (bankOf base) (pageOf base) n).flatMap Call.erasedPages ↔
      ∃ p, w / 2048 ≤ p ∧ p < w / 2048 + n ∧ pagePlace p = place := by
  rw [eraseCalls_onDevice hbase hw hn]
  simp only [hok, ne_eq, not_true_eq_false, if_false]
  split_ifs with hfirst hcross
  · -- The pages go on into the second bank.
    rw [List.flatMap_cons, List.flatMap_singleton, List.mem_append,
      mem_erasedPages_bank1 (by omega), show 256 = 128 + 128 from rfl,
      mem_erasedPages_bank2 le_rfl (by omega)]
    constructor
    · rintro (⟨p, hp, hp', hplace⟩ | ⟨p, hp, hp', hplace⟩)
      · exact ⟨p, hp, by omega, hplace⟩
      · exact ⟨p, by omega, by omega, hplace⟩
    · rintro ⟨p, hp, hp', hplace⟩
      by_cases hbank : p < 128
      · exact .inl ⟨p, hp, by omega, hplace⟩
      · exact .inr ⟨p, by omega, by omega, hplace⟩
  · rw [List.flatMap_singleton, mem_erasedPages_bank1 (by omega)]
  · rw [List.flatMap_singleton, mem_erasedPages_bank2 (by omega) hn]

end OnDevice

/-! ## The requested range -/

/-- An erase within the flash erases the pages from the one of its offset on, as many as its
size needs. -/
theorem mem_erase_iff {offset size : UInt32} (hsize : 0 < size.toNat)
    (hrange : offset.toNat + size.toNat ≤ 512 * 1024) {o : Outcomes}
    (hok : ∀ k, o.erase k = .ok) (place : Bank × Nat) :
    place ∈ (erase o offset size).erasedPages ↔
      ∃ p, offset.toNat / 2048 ≤ p ∧ p < offset.toNat / 2048 + pageCount size ∧
        pagePlace p = place := by
  have hcount := pageCount_bounds size
  rw [erase, if_neg (not_outOfRange hrange),
    ← mem_erasedPages_iff (toNat_address (by omega)) (by omega) (by omega) hok]
  -- Unlocking and locking erase nothing.
  simp [Run.erasedPages, Call.erasedPages]

/-- For a range in the flash and erases that succeed, the pages that are erased are those of
the range exactly when the remainders of the offset and of the size less one add up to less than
a page. -/
theorem erase_exact_iff {offset size : UInt32} (hsize : 0 < size.toNat)
    (hrange : offset.toNat + size.toNat ≤ 512 * 1024) {o : Outcomes}
    (hok : ∀ k, o.erase k = .ok) :
    ErasesExactly o offset size ↔
      offset.toNat % FLASH_PAGE_SIZE + (size.toNat - 1) % FLASH_PAGE_SIZE < FLASH_PAGE_SIZE := by
  have hcount := pageCount_bounds size
  simp only [ErasesExactly, mem_erase_iff hsize hrange hok, pageIntersects_iff hsize]
  rw [FLASH_PAGE_SIZE]
  constructor
  · intro h
    -- The page of the last byte has to be among the erased ones.
    obtain ⟨p, -, hp, hplace⟩ :=
      (h (pagePlace ((offset.toNat + (size.toNat - 1)) / 2048))).mpr
        ⟨_, ⟨by omega, le_rfl⟩, rfl⟩
    have hlast := pagePlace_injective hplace
    omega
  · intro hcond place
    refine exists_congr fun p => ?_
    rw [← and_assoc]
    refine and_congr_left fun _ => ?_
    omega

/-- Two pages across the border of the banks. -/
theorem erase_exact_banks :
    ErasesExactly ⟨.ok, fun _ => .ok, fun _ => 0, fun _ => .ok, .success⟩ 0x3F800 4096 :=
  (erase_exact_iff (by decide) (by decide) fun _ => rfl).mpr (by decide)

/-- Two bytes on both sides of a page border, of which the second page is not erased. -/
theorem erase_misses_page :
    ¬∀ (offset size : UInt32) (o : Outcomes), 0 < size.toNat →
      offset.toNat + size.toNat ≤ 512 * 1024 → (∀ k, o.erase k = .ok) →
        ErasesExactly o offset size := by
  intro h
  have hexact := h 2047 2 ⟨.ok, fun _ => .ok, fun _ => 0, fun _ => .ok, .success⟩ (by decide)
    (by decide) fun _ => rfl
  have hpage := (hexact (.bank1, 1)).mpr ⟨1, ⟨1, by decide, by decide⟩, by decide⟩
  rw [mem_erase_iff (by decide) (by decide) fun _ => rfl] at hpage
  obtain ⟨p, -, hp, hplace⟩ := hpage
  have hone : p = 1 := pagePlace_injective (show pagePlace p = pagePlace 1 from hplace)
  rw [hone] at hp
  revert hp
  decide

end OnChip

end Flash

end WeatherStation
