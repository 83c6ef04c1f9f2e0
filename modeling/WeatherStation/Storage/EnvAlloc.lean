import WeatherStation.Storage.EnvImage

/-!
# Room in the sectors

Two sectors that are in order are described together.  The store counts them, measures the
room behind their variables, and takes the first sector that has enough of it; the one that
is empty is kept back until a collection is asked for.

Main results:

- Theorem {lit}`readSectorMetaData_traversal`: the room that the store finds in a sector.
- Theorem {lit}`allocEnv_spec`: the place that is found for a variable, and when a collection
  is asked for.
-/

open Foundation

namespace WeatherStation

namespace EasyFlash

/-! ## The room in a sector -/

/-- The loop of {lit}`continue_ff_addr` over one buffer of erased bytes. -/
theorem foldl_continueFf {m : Memory} {start n : Nat} (last_data : UInt8) (addr : Nat)
    (h : ∀ x, start ≤ x → x < start + n → m x = 0xFF) (hn : 0 < n) :
    (List.range n).foldl
      (fun (r : UInt8 × Nat) i =>
        (m (start + i), if r.1 ≠ 0xFF ∧ m (start + i) = 0xFF then start + i else r.2))
      (last_data, addr) = (0xFF, if last_data ≠ 0xFF then start else addr) := by
  induction n with
  | zero => exact absurd hn (Nat.lt_irrefl 0)
  | succ n ih =>
      have hlast : m (start + n) = 0xFF := h (start + n) (by omega) (by omega)
      rw [List.range_succ, List.foldl_append, List.foldl_cons, List.foldl_nil]
      rcases Nat.eq_zero_or_pos n with rfl | hpos
      · rw [hlast]
        simp only [List.range_zero, List.foldl_nil, and_true, Nat.add_zero]
      · rw [ih (fun x hx hx' => h x hx (by omega)) hpos, hlast]
        simp only [ne_eq, not_true_eq_false, false_and, if_false]

theorem continueFfLoop_of_erased {m : Memory} {start end_addr : Nat} (last_data : UInt8)
    (addr : Nat) (h : ∀ x, start ≤ x → x < end_addr → m x = 0xFF) (hlt : start < end_addr) :
    continueFfLoop m end_addr start last_data addr =
      (0xFF, if last_data ≠ 0xFF then start else addr) := by
  fun_induction continueFfLoop m end_addr start last_data addr with
  | case1 start last_data addr hstart read_size r ih =>
      have hsize : 0 < read_size ∧ start + read_size ≤ end_addr := by
        by_cases hchunk : start + 32 < end_addr
        · have hval : read_size = 32 := if_pos hchunk
          omega
        · have hval : read_size = end_addr - start := if_neg hchunk
          omega
      have hr : r = (0xFF, if last_data ≠ 0xFF then start else addr) :=
        foldl_continueFf last_data addr (fun x hx hx' => h x hx (by omega)) hsize.1
      rw [hr] at ih ⊢
      by_cases hnext : start + 32 < end_addr
      · rw [ih (fun x hx hx' => h x (by omega) hx') hnext]
        simp only [ne_eq, not_true_eq_false, if_false]
      · rw [continueFfLoop, dif_neg hnext]
  | case2 start last_data addr hge => exact absurd hlt hge

/-- In erased bytes the ones begin at the front. -/
theorem continueFfAddr_of_erased {m : Memory} {start end_addr : Nat}
    (h : ∀ x, start ≤ x → x < end_addr → m x = 0xFF) (hle : start ≤ end_addr) :
    continueFfAddr m start end_addr = start := by
  rcases Nat.eq_or_lt_of_le hle with rfl | hlt
  · have hzero : (0x00 : UInt8) ≠ 0xFF := by decide
    rw [continueFfAddr, continueFfLoop, dif_neg (Nat.lt_irrefl start)]
    exact if_neg hzero
  · rw [continueFfAddr, continueFfLoop_of_erased 0x00 start h hlt]
    rfl

/-! ## Two sectors -/

/-- The device runs, the flash is as described, and the cache says where the free space
begins. -/
structure Represents (s : Store) (d : Nat → SectorDesc) : Prop where
  running : s.halted = Bool.false
  image : ∀ a, SectorAddr a → SectorImage s.flash a (d a)
  ok : ∀ a, SectorAddr a → (d a).Ok
  cached : SectorCached (fun a e => SectorAddr a → e = (d a).free a) s.sector_cache_table

/-- The other sector. -/
def otherSector (a : Nat) : Nat :=
  SECTOR_SIZE - a

section

variable {s : Store} {d : Nat → SectorDesc} {a : Nat}

theorem SectorAddr.ne_failed (h : SectorAddr a) : a ≠ FAILED_ADDR := by
  rcases h with rfl | rfl
  all_goals decide

theorem SectorImage.free_ne_failed {m : Memory} {d : SectorDesc} (himage : SectorImage m a d)
    (h : SectorAddr a) : d.free a ≠ FAILED_ADDR := by
  have hsize : SECTOR_SIZE = 4096 := rfl
  have hhdr : SECTOR_HDR_DATA_SIZE = 16 := rfl
  have hfail : FAILED_ADDR = 4294967295 := rfl
  have hfits := himage.fits
  unfold SectorDesc.free
  rcases h with rfl | rfl
  all_goals omega

namespace Represents

theorem get (h : Represents s d) (ha : SectorAddr a) {e : Nat}
    (hget : getSectorFromCache s.sector_cache_table a = some e) : e = (d a).free a :=
  h.cached.get ha.ne_failed hget ha

theorem visitable (h : Represents s d) (ha : SectorAddr a) : Visitable s a (d a).nodes where
  running := h.running
  sector := ha
  nodes := (h.image a ha).nodes
  erased := (h.image a ha).erased
  fits := (h.image a ha).fits
  names := (h.ok a ha).names
  cached _ hget := h.get ha hget

/-- What else changes in the store does not matter. -/
theorem congr {s' : Store} (h : Represents s d) (hflash : s'.flash = s.flash)
    (htable : s'.sector_cache_table = s.sector_cache_table)
    (hrunning : s'.halted = s.halted := by rfl) : Represents s' d := by
  constructor
  · rw [hrunning]
    exact h.running
  · rw [hflash]
    exact h.image
  · exact h.ok
  · rw [htable]
    exact h.cached

/-- The free space of a sector may be cached. -/
theorem cache (h : Represents s d) (ha : SectorAddr a) :
    Represents { s with
      sector_cache_table := updateSectorCache s.sector_cache_table a ((d a).free a) } d := by
  have hsize : SECTOR_SIZE = 4096 := rfl
  have hhdr : SECTOR_HDR_DATA_SIZE = 16 := rfl
  have hfits := (h.image a ha).fits
  refine ⟨h.running, h.image, h.ok, ?_⟩
  have hrange : (d a).free a > a ∧ (d a).free a < a + SECTOR_SIZE := by
    unfold SectorDesc.free
    omega
  apply (sectorCached_update h.cached hrange).mono
  intro b e hb hsector
  rcases hb with ⟨rfl, rfl⟩ | ⟨-, hb⟩
  · rfl
  · exact hb hsector

end Represents

/-! ## What is read of a sector -/

/-- What {lit}`read_sector_meta_data` reads of a header. -/
def SectorMeta.header (sector : SectorMeta) (a : Nat) (d : SectorDesc) : SectorMeta :=
  { sector with
    addr := a
    magic := SECTOR_MAGIC_WORD
    check_ok := Bool.true
    combined := SECTOR_NOT_COMBINED
    store := d.store
    dirty := d.dirty }

/-- What {lit}`read_sector_meta_data` reads of a sector. -/
def SectorDesc.read (d : SectorDesc) (a : Nat) : SectorMeta where
  check_ok := Bool.true
  store := d.store
  dirty := d.dirty
  addr := a
  magic := SECTOR_MAGIC_WORD
  combined := SECTOR_NOT_COMBINED
  remain := d.room
  empty_env := d.free a

theorem readSectorMetaData_header (h : Represents s d) (ha : SectorAddr a) (sector : SectorMeta) :
    readSectorMetaData s a sector Bool.false = (s, sector.header a (d a), .noErr) := by
  have himage := h.image a ha
  unfold readSectorMetaData
  dsimp only
  rw [himage.magic, if_neg (not_not.mpr rfl), himage.combined, himage.store, himage.dirty,
    SectorStoreStatus.ofIndex_index, SectorDirtyStatus.ofIndex_index]
  rfl

/-- The variables of a sector add up to the room that is not left. -/
theorem traversal_spec (h : Represents s d) (ha : SectorAddr a) (sector : SectorMeta)
    (haddr : sector.addr = a) (hstore : sector.store ≠ .empty) (hnodes : (d a).nodes ≠ []) :
    let r := forEachEnv sector traversalBody SECTOR_SIZE s { start := FAILED_ADDR }
      ⟨a + SECTOR_HDR_DATA_SIZE, SECTOR_SIZE - SECTOR_HDR_DATA_SIZE, .noErr⟩
    r.1 = s ∧ r.2.2.1 = ⟨(d a).free a, (d a).room, .noErr⟩ := by
  have hsees := h.visitable ha
  have hfits := hsees.fits
  have hsize : SECTOR_SIZE = 4096 := rfl
  have hhdr : SECTOR_HDR_DATA_SIZE = 16 := rfl
  have hrun := forEachEnv_nodes traversalBody
    (I := fun front back s' t => s' = s ∧ front ++ back = (d a).nodes ∧
      t = ⟨a + SECTOR_HDR_DATA_SIZE + nodesLen front,
        SECTOR_SIZE - SECTOR_HDR_DATA_SIZE - nodesLen front, .noErr⟩)
    (Q := fun _ _ _ => False) haddr hstore ?hvisit ?hstep hnodes s
    ⟨a + SECTOR_HDR_DATA_SIZE, SECTOR_SIZE - SECTOR_HDR_DATA_SIZE, .noErr⟩ ⟨rfl, rfl, rfl⟩ {}
  case hvisit =>
    rintro front back s' t ⟨rfl, hsplit, -⟩
    rw [hsplit]
    exact hsees
  case hstep =>
    rintro front n back s' t ⟨rfl, hsplit, rfl⟩
    have hok : ¬(¬(n.obj (a + SECTOR_HDR_DATA_SIZE + nodesLen front)).crc_is_ok ∧
        (n.obj (a + SECTOR_HDR_DATA_SIZE + nodesLen front)).status ≠ .preWrite ∧
        (n.obj (a + SECTOR_HDR_DATA_SIZE + nodesLen front)).status ≠ .errHdr) := fun hbad =>
      hbad.1 rfl
    dsimp only
    unfold traversalBody
    rw [if_neg hok]
    refine ⟨fun hstop => absurd hstop Bool.false_ne_true, fun _ => ?_⟩
    refine ⟨n, rfl, rfl, by rw [List.append_assoc]; exact hsplit, ?_⟩
    rw [← hsplit, nodesLen_append, nodesLen_cons] at hfits
    have hlen : nodesLen (front ++ [n]) = nodesLen front + n.len := by
      rw [nodesLen_append, nodesLen_cons, nodesLen_nil, Nat.add_zero]
    have hsub : sub32 (SECTOR_SIZE - SECTOR_HDR_DATA_SIZE - nodesLen front) n.len =
        SECTOR_SIZE - SECTOR_HDR_DATA_SIZE - (nodesLen front + n.len) := by
      unfold sub32
      omega
    rw [hlen]
    change Traversal.mk (a + SECTOR_HDR_DATA_SIZE + nodesLen front + n.len)
      (sub32 (SECTOR_SIZE - SECTOR_HDR_DATA_SIZE - nodesLen front) n.len) .noErr = _
    rw [hsub, Nat.add_assoc (a + SECTOR_HDR_DATA_SIZE)]
  rcases hrun with ⟨-, hno⟩ | ⟨-, front, hs, hsplit, ht⟩
  · exact hno.elim
  · rw [List.append_nil] at hsplit
    rw [hsplit] at ht
    exact ⟨hs, ht⟩

/-- The room that the store finds in a sector. -/
theorem readSectorMetaData_traversal (h : Represents s d) (ha : SectorAddr a) (sector : SectorMeta)
    (hstore : (d a).store = .empty ∨ (d a).store = .inUse) :
    ∃ table, Represents { s with sector_cache_table := table } d ∧
      readSectorMetaData s a sector Bool.true =
        ({ s with sector_cache_table := table }, (d a).read a, .noErr) := by
  have himage := h.image a ha
  have hfits := himage.fits
  have hsize : SECTOR_SIZE = 4096 := rfl
  have hhdr : SECTOR_HDR_DATA_SIZE = 16 := rfl
  unfold readSectorMetaData
  dsimp only
  rw [himage.magic, if_neg (not_not.mpr rfl), himage.combined, himage.store, himage.dirty,
    SectorStoreStatus.ofIndex_index, SectorDirtyStatus.ofIndex_index, if_pos rfl]
  rcases hstore with hstore | hstore
  · have hnodes := (h.ok a ha).empty.mp hstore
    refine ⟨s.sector_cache_table, h, ?_⟩
    rw [hstore]
    dsimp only
    unfold SectorDesc.read SectorDesc.room SectorDesc.free
    rw [hstore, hnodes, nodesLen_nil, Nat.sub_zero, Nat.add_zero]
  · have hne : (d a).nodes ≠ [] := by
      intro hnil
      rw [(h.ok a ha).empty.mpr hnil] at hstore
      cases hstore
    rw [hstore]
    dsimp only
    cases hget : getSectorFromCache s.sector_cache_table a with
    | some e =>
        have he := h.get ha hget
        refine ⟨s.sector_cache_table, h, ?_⟩
        have hroom : SECTOR_SIZE - (e - a) = (d a).room := by
          rw [he]
          unfold SectorDesc.free SectorDesc.room
          omega
        dsimp only
        rw [hroom, he]
        unfold SectorDesc.read
        rw [hstore]
    | none =>
        have hused : SectorStoreStatus.inUse ≠ .empty := by decide
        dsimp only
        obtain ⟨hs, ht⟩ := traversal_spec h ha
          { sector with
            addr := a, magic := SECTOR_MAGIC_WORD, check_ok := Bool.true,
            combined := SECTOR_NOT_COMBINED, store := .inUse, dirty := (d a).dirty, remain := 0,
            empty_env := a + SECTOR_HDR_DATA_SIZE } rfl hused hne
        rw [hs, ht]
        have hff : continueFfAddr s.flash ((d a).free a) (a + SECTOR_SIZE) = (d a).free a := by
          apply continueFfAddr_of_erased himage.erased
          unfold SectorDesc.free
          omega
        dsimp only
        rw [hff, if_neg (not_not.mpr rfl)]
        refine ⟨_, h.cache ha, ?_⟩
        unfold SectorDesc.read
        rw [hstore]

/-! ## The loop over the sectors -/

section Sectors

variable {β : Type} (body : Store → Nat → SectorMeta → β → Store × SectorMeta × β × Bool)

/-- The loop visits the two sectors: {lit}`P` holds between them, and {lit}`Q` at the end. -/
theorem forEachSector_sectors {P : Store → β → Prop} {Q : Store → SectorMeta → β → Prop}
    (s : Store) (sector : SectorMeta) (acc : β)
    (hfirst : ∀ sector : SectorMeta, let b := body s 0 sector acc
      (b.2.2.2 = Bool.true → Q b.1 b.2.1 b.2.2.1) ∧
      (b.2.2.2 = Bool.false →
        b.2.1.addr = 0 ∧ b.2.1.combined = SECTOR_NOT_COMBINED ∧ P b.1 b.2.2.1))
    (hsecond : ∀ s sector acc, P s acc →
      let b := body s SECTOR_SIZE sector acc
      Q b.1 b.2.1 b.2.2.1) :
    let r := forEachSector body SECTOR_NUM s { sector with addr := FAILED_ADDR } acc
    Q r.1 r.2.1 r.2.2 := by
  have hnum : SECTOR_NUM = 1 + 1 := rfl
  have hstart : getNextSectorAddr { sector with addr := FAILED_ADDR } = 0 := if_pos rfl
  have hzero : (0 : Nat) ≠ FAILED_ADDR := by decide
  rw [hnum, forEachSector]
  dsimp only
  rw [hstart, if_neg hzero]
  have hb := hfirst { sector with addr := FAILED_ADDR }
  dsimp only at hb
  split_ifs with hstop
  · exact hb.1 hstop
  · obtain ⟨haddr, hcombined, hP⟩ := hb.2 (Bool.eq_false_iff.mpr hstop)
    have hnext : getNextSectorAddr
        (body s 0 { sector with addr := FAILED_ADDR } acc).2.1 = SECTOR_SIZE := by
      rw [getNextSectorAddr, haddr, if_neg hzero, hcombined, if_pos rfl]
      rfl
    have hsize : SECTOR_SIZE ≠ FAILED_ADDR := by decide
    have hb' := hsecond _ (body s 0 { sector with addr := FAILED_ADDR } acc).2.1 _ hP
    dsimp only at hb'
    rw [forEachSector]
    dsimp only
    rw [hnext, if_neg hsize]
    split_ifs
    · exact hb'
    · exact hb'

end Sectors

/-! ## Statistics -/

/-- The sectors with a status. -/
def countSectors (d : Nat → SectorDesc) (st : SectorStoreStatus) : Nat :=
  [0, SECTOR_SIZE].countP fun a => (d a).store = st

theorem countSectors_eq (d : Nat → SectorDesc) (st : SectorStoreStatus) :
    countSectors d st =
      (if (d 0).store = st then 1 else 0) + (if (d SECTOR_SIZE).store = st then 1 else 0) := by
  unfold countSectors
  simp only [List.countP_cons, List.countP_nil, decide_eq_true_eq]
  omega

/-- What {lit}`sector_statistics_cb` adds for a sector. -/
def Statistics.count (n : Statistics) (d : SectorDesc) : Statistics where
  empty_sector := n.empty_sector + (if d.store = .empty then 1 else 0)
  using_sector := n.using_sector + (if d.store = .inUse then 1 else 0)

theorem sectorStatisticsCb_header (s : Store) (sector : SectorMeta) (a : Nat) (d : SectorDesc)
    (n : Statistics) :
    sectorStatisticsCb s (sector.header a d) n = (s, n.count d, Bool.false) := by
  unfold sectorStatisticsCb Statistics.count
  have hcheck : (sector.header a d).check_ok = Bool.true := rfl
  have hstore : (sector.header a d).store = d.store := rfl
  rw [hcheck, hstore]
  cases d.store <;> rfl

/-- The statistics count the sectors, and change nothing. -/
theorem sectorStatistics_spec {s : Store} {d : Nat → SectorDesc} (h : Represents s d)
    (sector : SectorMeta) :
    let r := sectorIterator s sector .unused (⟨0, 0⟩ : Statistics) sectorStatisticsCb Bool.false
    r.1 = s ∧ r.2.2 = ⟨countSectors d .empty, countSectors d .inUse⟩ := by
  have hbody (a : Nat) (ha : SectorAddr a) (sector : SectorMeta) (n : Statistics) :
      sectorIteratorBody .unused sectorStatisticsCb Bool.false s a sector n =
        (s, sector.header a (d a), n.count (d a), Bool.false) := by
    unfold sectorIteratorBody
    rw [readSectorMetaData_header h ha]
    dsimp only
    rw [if_pos (.inl rfl), if_neg Bool.false_ne_true, sectorStatisticsCb_header]
  unfold sectorIterator
  apply forEachSector_sectors (P := fun s' n => s' = s ∧ n = (⟨0, 0⟩ : Statistics).count (d 0))
    (Q := fun s' _ n => s' = s ∧ n = ⟨countSectors d .empty, countSectors d .inUse⟩)
  · intro sector
    rw [hbody 0 (.inl rfl)]
    exact ⟨fun hstop => absurd hstop Bool.false_ne_true, fun _ => ⟨rfl, rfl, rfl, rfl⟩⟩
  · rintro s' sector n ⟨rfl, rfl⟩
    rw [hbody SECTOR_SIZE (.inr rfl), countSectors_eq, countSectors_eq]
    refine ⟨rfl, ?_⟩
    unfold Statistics.count
    rw [Nat.zero_add, Nat.zero_add]

/-! ## The first fit -/

/-- A sector takes a variable: it has the room, and no collection waits for it. -/
def SectorDesc.Takes (d : SectorDesc) (gc_request : Bool) (env_size : Nat) : Prop :=
  d.room > env_size ∧ (d.dirty = .false ∨ d.dirty = .true ∧ ¬gc_request)

instance (d : SectorDesc) (gc_request : Bool) (env_size : Nat) :
    Decidable (d.Takes gc_request env_size) :=
  inferInstanceAs (Decidable (_ ∧ _))

/-- The first sector with a status that takes a variable. -/
def firstFit (d : Nat → SectorDesc) (st : SectorStoreStatus) (gc_request : Bool)
    (env_size : Nat) : Option Nat :=
  [0, SECTOR_SIZE].find? fun a => (d a).store = st ∧ (d a).Takes gc_request env_size

theorem firstFit_eq (d : Nat → SectorDesc) (st : SectorStoreStatus) (gc_request : Bool)
    (env_size : Nat) :
    firstFit d st gc_request env_size =
      if (d 0).store = st ∧ (d 0).Takes gc_request env_size then some 0
      else if (d SECTOR_SIZE).store = st ∧ (d SECTOR_SIZE).Takes gc_request env_size then
        some SECTOR_SIZE
      else none := by
  unfold firstFit
  rw [List.find?_cons, List.find?_cons, List.find?_nil]
  by_cases hzero : (d 0).store = st ∧ (d 0).Takes gc_request env_size
  · rw [if_pos hzero, decide_eq_true hzero]
  · rw [if_neg hzero, decide_eq_false hzero]
    by_cases hsize : (d SECTOR_SIZE).store = st ∧ (d SECTOR_SIZE).Takes gc_request env_size
    · rw [if_pos hsize, decide_eq_true hsize]
    · rw [if_neg hsize, decide_eq_false hsize]

/-- A sector that takes a variable has the status. -/
theorem of_firstFit {d : Nat → SectorDesc} {st : SectorStoreStatus} {gc_request : Bool}
    {env_size a : Nat} (h : firstFit d st gc_request env_size = some a) :
    SectorAddr a ∧ (d a).store = st ∧ (d a).Takes gc_request env_size := by
  rw [firstFit_eq] at h
  split_ifs at h with hzero hsize
  · cases h
    exact ⟨.inl rfl, hzero⟩
  · cases h
    exact ⟨.inr rfl, hsize⟩

/-- What a search for room comes back with. -/
structure Placed (s : Store) (d : Nat → SectorDesc) (place : Option Nat)
    (r : Store × SectorMeta × Nat) : Prop where
  state : ∃ table, Represents { s with sector_cache_table := table } d ∧
    r.1 = { s with sector_cache_table := table }
  addr : r.2.2 = match place with
    | some a => (d a).free a
    | none => FAILED_ADDR
  sector : ∀ a, place = some a → r.2.1 = (d a).read a

/-- The search for room in the sectors with a status. -/
theorem sectorIterator_alloc {s : Store} {d : Nat → SectorDesc} (h : Represents s d)
    (sector : SectorMeta) (st : SectorStoreStatus) (hst : st = .empty ∨ st = .inUse)
    (env_size : Nat) :
    Placed s d (firstFit d st s.gc_request env_size)
      (sectorIterator s sector st FAILED_ADDR (allocEnvCb env_size) Bool.true) := by
  have hne : st ≠ .unused := by
    rcases hst with rfl | rfl
    all_goals decide
  -- One sector: it is passed over, or it takes the variable.
  have hbody (a : Nat) (ha : SectorAddr a) (s' : Store) (hs' : ∃ table,
      Represents { s with sector_cache_table := table } d ∧
        s' = { s with sector_cache_table := table }) (sector : SectorMeta) :
      let b := sectorIteratorBody st (allocEnvCb env_size) Bool.true s' a sector FAILED_ADDR
      (∃ table, Represents { s with sector_cache_table := table } d ∧
        b.1 = { s with sector_cache_table := table }) ∧
      b.2.1.addr = a ∧ b.2.1.combined = SECTOR_NOT_COMBINED ∧
      (if (d a).store = st ∧ (d a).Takes s.gc_request env_size then
        b.2.1 = (d a).read a ∧ b.2.2.1 = (d a).free a ∧ b.2.2.2 = Bool.true
      else b.2.2.1 = FAILED_ADDR ∧ b.2.2.2 = Bool.false) := by
    obtain ⟨table, hrep, rfl⟩ := hs'
    unfold sectorIteratorBody
    rw [readSectorMetaData_header hrep ha]
    dsimp only
    have hstore : (sector.header a (d a)).store = (d a).store := rfl
    rw [hstore]
    by_cases hmatch : (d a).store = st
    · rw [if_pos (.inr hmatch.symm), if_pos rfl]
      obtain ⟨table', hrep', hread⟩ := readSectorMetaData_traversal hrep ha
        (sector.header a (d a)) (by rw [hmatch]; exact hst)
      rw [hread]
      unfold allocEnvCb
      dsimp only
      by_cases htakes : (d a).Takes s.gc_request env_size
      · rw [if_pos ⟨rfl, htakes.1, htakes.2⟩, if_pos ⟨hmatch, htakes⟩]
        exact ⟨⟨table', hrep', rfl⟩, rfl, rfl, rfl, rfl, rfl⟩
      · rw [if_neg fun hall => htakes ⟨hall.2.1, hall.2.2⟩, if_neg fun hall => htakes hall.2]
        exact ⟨⟨table', hrep', rfl⟩, rfl, rfl, rfl, rfl⟩
    · have hpass : ¬(st = .unused ∨ st = (d a).store) := by
        rintro (hunused | heq)
        · exact hne hunused
        · exact hmatch heq.symm
      rw [if_neg hpass, if_neg fun hall => hmatch hall.1]
      exact ⟨⟨table, hrep, rfl⟩, rfl, rfl, rfl, rfl⟩
  unfold sectorIterator
  have hstart : ∃ table, Represents { s with sector_cache_table := table } d ∧
      s = { s with sector_cache_table := table } := ⟨s.sector_cache_table, h, rfl⟩
  apply forEachSector_sectors
    (P := fun s' acc => (∃ table, Represents { s with sector_cache_table := table } d ∧
      s' = { s with sector_cache_table := table }) ∧
      ¬((d 0).store = st ∧ (d 0).Takes s.gc_request env_size) ∧ acc = FAILED_ADDR)
    (Q := fun s' sector acc => Placed s d (firstFit d st s.gc_request env_size) (s', sector, acc))
  · intro sector
    obtain ⟨hstate, haddr, hcombined, hcase⟩ := hbody 0 (.inl rfl) s hstart sector
    dsimp only at hcase ⊢
    by_cases htakes : (d 0).store = st ∧ (d 0).Takes s.gc_request env_size
    · rw [if_pos htakes] at hcase
      obtain ⟨hread, hfree, hstop⟩ := hcase
      have hfit : firstFit d st s.gc_request env_size = some 0 := by
        rw [firstFit_eq, if_pos htakes]
      refine ⟨fun _ => ⟨hstate, by rw [hfit]; exact hfree, ?_⟩, fun hgo => ?_⟩
      · intro a hplace
        rw [hfit] at hplace
        cases hplace
        exact hread
      · rw [hstop] at hgo
        exact absurd hgo.symm Bool.false_ne_true
    · rw [if_neg htakes] at hcase
      refine ⟨fun hstop => ?_, fun _ => ⟨haddr, hcombined, hstate, htakes, hcase.1⟩⟩
      rw [hcase.2] at hstop
      exact absurd hstop Bool.false_ne_true
  · rintro s' sector acc ⟨hs', hnot, rfl⟩
    obtain ⟨hstate, -, -, hcase⟩ := hbody SECTOR_SIZE (.inr rfl) s' hs' sector
    dsimp only at hcase ⊢
    by_cases htakes : (d SECTOR_SIZE).store = st ∧ (d SECTOR_SIZE).Takes s.gc_request env_size
    · rw [if_pos htakes] at hcase
      obtain ⟨hread, hfree, -⟩ := hcase
      have hfit : firstFit d st s.gc_request env_size = some SECTOR_SIZE := by
        rw [firstFit_eq, if_neg hnot, if_pos htakes]
      refine ⟨hstate, by rw [hfit]; exact hfree, ?_⟩
      intro a hplace
      rw [hfit] at hplace
      cases hplace
      exact hread
    · rw [if_neg htakes] at hcase
      have hfit : firstFit d st s.gc_request env_size = none := by
        rw [firstFit_eq, if_neg hnot, if_neg htakes]
      refine ⟨hstate, by rw [hfit]; exact hcase.1, ?_⟩
      intro a hplace
      rw [hfit] at hplace
      cases hplace

/-- The place that {lit}`alloc_env` finds: a sector in use first, and an empty one where it is
not the last or a collection was asked for. -/
def allocPlace (d : Nat → SectorDesc) (gc_request : Bool) (env_size : Nat) : Option Nat :=
  match firstFit d .inUse gc_request env_size with
  | some a => some a
  | none =>
      if EF_GC_EMPTY_SEC_THRESHOLD < countSectors d .empty ∨
          0 < countSectors d .empty ∧ gc_request then
        firstFit d .empty gc_request env_size
      else none

/-- {lit}`alloc_env` asks for a collection: only the last empty sector could take the
variable. -/
def AsksForGc (d : Nat → SectorDesc) (gc_request : Bool) (env_size : Nat) : Prop :=
  firstFit d .inUse gc_request env_size = none ∧ countSectors d .empty = 1

instance (d : Nat → SectorDesc) (gc_request : Bool) (env_size : Nat) :
    Decidable (AsksForGc d gc_request env_size) :=
  inferInstanceAs (Decidable (_ ∧ _))

theorem countSectors_pos {st : SectorStoreStatus} {b : Nat} (hb : SectorAddr b)
    (hst : (d b).store = st) : 0 < countSectors d st := by
  rw [countSectors_eq]
  rcases hb with rfl | rfl
  · rw [if_pos hst]
    omega
  · rw [if_pos hst]
    omega

/-- The place that is found for a variable, and when a collection is asked for. -/
theorem allocEnv_spec (h : Represents s d) (sector : SectorMeta) (env_size : Nat) :
    Placed { s with gc_request := s.gc_request || decide (AsksForGc d s.gc_request env_size) } d
      (allocPlace d s.gc_request env_size) (allocEnv s sector env_size) := by
  obtain ⟨hs, hn⟩ := sectorStatistics_spec h sector
  unfold allocEnv
  dsimp only at hs hn ⊢
  rw [hs, hn]
  generalize (sectorIterator s sector .unused (⟨0, 0⟩ : Statistics) sectorStatisticsCb
    Bool.false).2.1 = sector'
  -- The sectors in use come first.
  have hused : Placed s d (firstFit d .inUse s.gc_request env_size)
      (if countSectors d .inUse > 0 then
        sectorIterator s sector' .inUse FAILED_ADDR (allocEnvCb env_size) Bool.true
      else (s, sector', FAILED_ADDR)) := by
    split_ifs with hcount
    · exact sectorIterator_alloc h sector' .inUse (.inr rfl) env_size
    · have hnone : firstFit d .inUse s.gc_request env_size = none := by
        rw [Option.eq_none_iff_forall_ne_some]
        intro b hb
        obtain ⟨haddr, hstore, -⟩ := of_firstFit hb
        exact hcount (countSectors_pos haddr hstore)
      rw [hnone]
      refine ⟨⟨s.sector_cache_table, h, rfl⟩, rfl, ?_⟩
      intro b hb
      cases hb
  generalize (if countSectors d .inUse > 0 then
    sectorIterator s sector' .inUse FAILED_ADDR (allocEnvCb env_size) Bool.true
    else (s, sector', FAILED_ADDR)) = r at hused ⊢
  obtain ⟨⟨table, hrep, hstate⟩, haddr, hsector⟩ := hused
  cases hfit : firstFit d .inUse s.gc_request env_size with
  | some b =>
      rw [hfit] at haddr hsector
      have hb := of_firstFit hfit
      have hfree := (h.image b hb.1).free_ne_failed hb.1
      have hplace : allocPlace d s.gc_request env_size = some b := by
        rw [allocPlace, hfit]
      have hasks : ¬AsksForGc d s.gc_request env_size := by
        rintro ⟨hnone, -⟩
        rw [hfit] at hnone
        cases hnone
      dsimp only at haddr
      rw [if_neg fun hall => hfree (haddr ▸ hall.2), hplace, decide_eq_false hasks, Bool.or_false]
      exact ⟨⟨table, hrep, hstate⟩, haddr, hsector⟩
  | none =>
      rw [hfit] at haddr
      dsimp only at haddr
      have hgc : r.1.gc_request = s.gc_request := by rw [hstate]
      have hplace : allocPlace d s.gc_request env_size =
          if EF_GC_EMPTY_SEC_THRESHOLD < countSectors d .empty ∨
              0 < countSectors d .empty ∧ s.gc_request then
            firstFit d .empty s.gc_request env_size
          else none := by
        rw [allocPlace, hfit]
      rw [hgc, hplace]
      by_cases hempty : countSectors d .empty > 0
      · by_cases hretry : EF_GC_EMPTY_SEC_THRESHOLD < countSectors d .empty ∨ s.gc_request
        · have hasks : (s.gc_request || decide (AsksForGc d s.gc_request env_size)) =
              s.gc_request := by
            rcases hretry with hmany | hyes
            · have hno : ¬AsksForGc d s.gc_request env_size := by
                rintro ⟨-, hone⟩
                have hone' : EF_GC_EMPTY_SEC_THRESHOLD = 1 := rfl
                omega
              rw [decide_eq_false hno, Bool.or_false]
            · rw [hyes, Bool.true_or]
          have hcond : EF_GC_EMPTY_SEC_THRESHOLD < countSectors d .empty ∨
              0 < countSectors d .empty ∧ s.gc_request := by
            rcases hretry with hmany | hyes
            · exact .inl hmany
            · exact .inr ⟨hempty, hyes⟩
          rw [if_pos hcond, if_pos ⟨hempty, haddr⟩, if_pos hretry, hasks]
          have hrep' : Represents r.1 d := hstate ▸ hrep
          have hplaced := sectorIterator_alloc hrep' r.2.1 .empty (.inl rfl) env_size
          rw [hgc] at hplaced
          obtain ⟨⟨table', hrep'', hstate'⟩, haddr', hsector'⟩ := hplaced
          rw [hstate] at hrep'' hstate'
          rw [hstate] at haddr' hsector'
          rw [hstate]
          exact ⟨⟨table', hrep'', hstate'⟩, haddr', hsector'⟩
        · have hno : s.gc_request = Bool.false :=
            Bool.eq_false_iff.mpr fun hyes => hretry (.inr hyes)
          have hone : countSectors d .empty = 1 := by
            have hthreshold : EF_GC_EMPTY_SEC_THRESHOLD = 1 := rfl
            have hnot : ¬EF_GC_EMPTY_SEC_THRESHOLD < countSectors d .empty := fun hmany =>
              hretry (.inl hmany)
            omega
          have hcond : ¬(EF_GC_EMPTY_SEC_THRESHOLD < countSectors d .empty ∨
              0 < countSectors d .empty ∧ s.gc_request) := by
            rintro (hmany | ⟨-, hyes⟩)
            · exact hretry (.inl hmany)
            · exact hretry (.inr hyes)
          rw [if_neg hcond, if_pos ⟨hempty, haddr⟩, if_neg hretry,
            decide_eq_true (show AsksForGc d s.gc_request env_size from ⟨hfit, hone⟩), Bool.or_true]
          refine ⟨⟨table, ?_, by rw [hstate]⟩, haddr, ?_⟩
          · exact hrep.congr rfl rfl
          · intro b hb
            cases hb
      · have hcond : ¬(EF_GC_EMPTY_SEC_THRESHOLD < countSectors d .empty ∨
            0 < countSectors d .empty ∧ s.gc_request) := by
          rintro (hmany | ⟨hpos, -⟩)
          · omega
          · exact hempty hpos
        have hasks : ¬AsksForGc d s.gc_request env_size := by
          rintro ⟨-, hone⟩
          omega
        rw [if_neg hcond, if_neg fun hall => hempty hall.1, decide_eq_false hasks, Bool.or_false]
        refine ⟨⟨table, hrep, hstate⟩, haddr, ?_⟩
        intro b hb
        cases hb

end

end EasyFlash

end WeatherStation
