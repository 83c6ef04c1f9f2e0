import WeatherStation.Storage.EnvCollect

/-!
# Garbage collection

A collection marks a dirty sector, moves the variables of it that count to the other sector
one after the other, and formats it.  Nothing that counts is lost: the other sector holds the
same variables in the same order.

Main results:

- Theorem {lit}`formatSector_spec`: a sector is formatted.
- Theorem {lit}`doGcLoop_spec`: the loop over a dirty sector moves the variables that count.
- Theorem {lit}`doGc_spec`: a dirty sector is collected.
- Theorem {lit}`gcCollect_dirty`: the loop over the sectors collects the dirty one.
- Theorem {lit}`gcCollect_spec`: a collection keeps the variables that count.
-/

open Foundation

namespace WeatherStation

namespace EasyFlash

/-! ## Formatting and marking a sector -/

section

variable {s : Store} {d : Nat → SectorDesc} {a : Nat}

theorem ok_formatted : formatted.Ok where
  formatted := by decide
  names _ h := absurd h List.not_mem_nil
  empty := iff_of_true rfl rfl

/-- A sector is formatted. -/
theorem formatSector_spec (h : Represents s d) (ha : SectorAddr a) :
    Represents (formatSector s a SECTOR_NOT_COMBINED) (Function.update d a formatted) := by
  have hlen : (sectorHdrBytes SECTOR_NOT_COMBINED).length = 16 := by decide
  have hsize : SECTOR_SIZE = 4096 := rfl
  apply Represents.congr (h.update ha (SectorImage.format s.flash a) ok_formatted ?_ ?_) rfl rfl
  · intro x hx
    rw [Memory.program_of_not_mem _ (by omega)]
    exact Memory.fill_of_not_mem _ hx
  · have hrange : ¬(a + SECTOR_SIZE > a ∧ a + SECTOR_SIZE < a + SECTOR_SIZE) := fun hall =>
      Nat.lt_irrefl _ hall.2
    apply (sectorCached_delete h.cached hrange).mono
    rintro b e ⟨hne, hb⟩ hsector
    rw [if_neg hne]
    exact hb hsector

/-- The status of a sector goes on. -/
theorem Represents.setDirty (h : Represents s d) (ha : SectorAddr a) (st : SectorDirtyStatus)
    (hle : (d a).dirty.index ≤ st.index) :
    Represents { s with
      flash := writeStatus s.flash (a + SECTOR_DIRTY_OFFSET) SECTOR_DIRTY_STATUS_NUM st.index }
      (Function.update d a { d a with dirty := st }) := by
  have hok := h.ok a ha
  have hsize : SECTOR_SIZE = 4096 := rfl
  have hoff : SECTOR_DIRTY_OFFSET = 1 := rfl
  apply Represents.congr
    (h.update ha ((h.image a ha).setDirty st hle) ⟨hok.formatted, hok.names, hok.empty⟩ ?_ ?_)
    rfl rfl
  · intro x hx
    exact writeStatus_of_ne s.flash st.index_lt rfl (by omega)
  · apply h.cached.mono
    intro b e hb hsector
    rw [hb hsector]
    split_ifs with hab
    · rw [hab]
      rfl
    · rfl

/-- Variables that count stay where they are as long as the other ones of their sector are
all that is lost. -/
theorem Live.of_nodes {d' : Nat → SectorDesc} {x : Nat} {n : Node} (h : Live d x n)
    (hsame : ∀ b, SectorAddr b →
      (d' b).nodes = (d b).nodes ∨ ∀ n' ∈ (d b).nodes, n'.status ≠ .write) : Live d' x n := by
  obtain ⟨⟨sec, front, back, hsec, hnodes, hx⟩, hstatus⟩ := h
  rcases hsame sec hsec with heq | hdead
  · exact ⟨⟨sec, front, back, hsec, heq.trans hnodes, hx⟩, hstatus⟩
  · have hmem : n ∈ (d sec).nodes := by
      rw [hnodes]
      exact List.mem_append_right _ List.mem_cons_self
    exact absurd hstatus (hdead n hmem)

theorem EnvCacheOk.of_nodes {d' : Nat → SectorDesc} {table : List EnvCacheNode}
    (h : EnvCacheOk d table)
    (hsame : ∀ b, SectorAddr b →
      (d' b).nodes = (d b).nodes ∨ ∀ n' ∈ (d b).nodes, n'.status ≠ .write) :
    EnvCacheOk d' table := by
  apply h.mono
  rintro c x ⟨n, hn, hcrc⟩
  exact ⟨n, hn.of_nodes hsame, hcrc⟩

end

/-! ## The loop over a dirty sector -/

/-- A variable behind the collection: it is deleted if it did count. -/
def Node.moved (n : Node) : Node :=
  if n.status = .write then { n with status := .deleted } else n

theorem Node.moved_len (n : Node) : n.moved.len = n.len := by
  unfold Node.moved
  split_ifs
  · rfl
  · rfl

theorem Node.moved_status (n : Node) : n.moved.status ≠ .write := by
  have hdeleted : EnvStatus.deleted ≠ .write := by decide
  unfold Node.moved
  split_ifs with hstatus
  · exact hdeleted
  · exact hstatus

theorem collect_concat (ns : List Node) (n : Node) :
    collect (ns ++ [n]) = if n.status = .write then (collect ns).add n else collect ns := by
  unfold collect
  rw [liveNodes_concat]
  split_ifs
  · exact fill_concat _ _
  · rfl

/-- What a collection has to start with: the sector was filled as sectors are, and no variable
in it is halfway deleted. -/
structure Collectable (s : Store) (A : SectorDesc) : Prop where
  packed : A.Packed
  settled : ∀ n ∈ A.nodes, n.status ≠ .preDelete
  gc_request : s.gc_request = Bool.true
  in_recovery_check : s.in_recovery_check = Bool.false
  last_is_complete_del : s.last_is_complete_del = Bool.false

/-- A state that differs from another one in what a collection writes. -/
def SameSettings (s s' : Store) : Prop :=
  ∃ m t e, s' = { s with flash := m, sector_cache_table := t, env_cache_table := e }

theorem SameSettings.formatSector {s s' : Store} (h : SameSettings s s') (addr : Nat) :
    SameSettings s (formatSector s' addr SECTOR_NOT_COMBINED) := by
  obtain ⟨m, t, e, rfl⟩ := h
  exact ⟨_, _, _, rfl⟩

/-- The state of a collection that began in {lit}`s`: the variables {lit}`done` are behind it. -/
structure Collecting (s : Store) (a : Nat) (A : SectorDesc) (done todo : List Node)
    (s' : Store) : Prop where
  nodes : done ++ todo = A.nodes
  state : SameSettings s s'
  represents :
    Represents s' (pair a { A with nodes := done.map Node.moved ++ todo } (collect done))
  cached : EnvCacheOk (pair a { A with nodes := done.map Node.moved ++ todo } (collect done))
    s'.env_cache_table

section Loop

variable {s s' : Store} {a : Nat} {A : SectorDesc} {done todo : List Node} {n : Node}

/-- One variable further. -/
theorem Collecting.step (h : Collecting s a A done (n :: todo) s') (hA : Collectable s A)
    (ha : SectorAddr a) (hdirty : A.dirty = .gc)
    (hfits : nodesLen A.nodes < SECTOR_SIZE - SECTOR_HDR_DATA_SIZE) :
    let b := doGcBody s' (n.obj (a + SECTOR_HDR_DATA_SIZE + nodesLen (done.map Node.moved))) ()
    b.2.2 = Bool.false ∧ Collecting s a A (done ++ [n]) todo b.1 := by
  obtain ⟨hnodes, ⟨m, t, e, rfl⟩, hrep, hcached⟩ := h
  have hmem : n ∈ A.nodes := by
    rw [← hnodes]
    exact List.mem_append_right _ List.mem_cons_self
  have hok : (n.obj (a + SECTOR_HDR_DATA_SIZE + nodesLen (done.map Node.moved))).crc_is_ok :=
    rfl
  have hstatus :
      (n.obj (a + SECTOR_HDR_DATA_SIZE + nodesLen (done.map Node.moved))).status = n.status := rfl
  have hsplit : done ++ [n] ++ todo = A.nodes := by
    rw [List.append_assoc]
    exact hnodes
  have hmap : (done ++ [n]).map Node.moved ++ todo = done.map Node.moved ++ n.moved :: todo := by
    rw [List.map_append, List.append_assoc]
    rfl
  dsimp only
  unfold doGcBody
  rw [hstatus]
  by_cases hlive : n.status = .write
  · rw [if_pos ⟨hok, .inl hlive⟩]
    obtain ⟨hst, hroom⟩ := collect_takes hA.packed hfits hnodes.symm
    obtain ⟨m', t', e', hmove, hrep', hcached'⟩ := moveEnv_spec hrep ha hdirty rfl hlive
      (fill_dirty _) hst hroom hcached hA.gc_request hA.in_recovery_check
    have hmark : SectorDesc.mark { A with nodes := done.map Node.moved ++ n :: todo }
        (done.map Node.moved) n todo .deleted =
          { A with nodes := (done ++ [n]).map Node.moved ++ todo } := by
      have hgc : ¬(SectorDirtyStatus.gc = .false) := by decide
      rw [hmap, Node.moved, if_pos hlive, SectorDesc.mark, hdirty, if_neg hgc]
    have hadd : (collect done).add n = collect (done ++ [n]) := by
      rw [collect_concat, if_pos hlive]
    rw [hmark, hadd] at hrep' hcached'
    rw [hmove]
    refine ⟨rfl, hsplit, ⟨m', t', e', ?_⟩, hrep'.congr rfl rfl, hcached'⟩
    rw [hA.last_is_complete_del]
  · have hskip : ¬((n.obj (a + SECTOR_HDR_DATA_SIZE +
        nodesLen (done.map Node.moved))).crc_is_ok ∧
          (n.status = .write ∨ n.status = .preDelete)) := by
      rintro ⟨-, hyes | hpre⟩
      · exact hlive hyes
      · exact hA.settled n hmem hpre
    rw [if_neg hskip]
    refine ⟨rfl, hsplit, ⟨_, _, _, rfl⟩, ?_, ?_⟩
    · rw [hmap, Node.moved, if_neg hlive, collect_concat, if_neg hlive]
      exact hrep
    · rw [hmap, Node.moved, if_neg hlive, collect_concat, if_neg hlive]
      exact hcached

/-- The loop over a dirty sector moves the variables that count. -/
theorem doGcLoop_spec (h : Represents s (pair a A formatted)) (ha : SectorAddr a)
    (hA : Collectable s A) (hdirty : A.dirty = .gc) (hne : A.nodes ≠ [])
    (hcached : EnvCacheOk (pair a A formatted) s.env_cache_table) (sector : SectorMeta)
    (haddr : sector.addr = a) (hstore : sector.store ≠ .empty) :
    Collecting s a A A.nodes []
      (forEachEnv sector doGcBody SECTOR_SIZE s { start := FAILED_ADDR } ()).1 := by
  have hfits : nodesLen A.nodes < SECTOR_SIZE - SECTOR_HDR_DATA_SIZE := by
    have hfits := (h.image a ha).fits
    rwa [pair_self] at hfits
  have hstart : Collecting s a A [] A.nodes s := ⟨rfl, ⟨_, _, _, rfl⟩, h, hcached⟩
  have hrun := forEachEnv_nodes doGcBody
    (I := fun front todo s' _ => ∃ done, front = done.map Node.moved ∧
      Collecting s a A done todo s')
    (Q := fun _ _ _ => False) haddr hstore ?hvisit ?hstep hne s () ⟨[], rfl, hstart⟩ {}
  case hvisit =>
    rintro front todo s' - ⟨done, rfl, hdone⟩
    have hsees := hdone.represents.visitable ha
    rwa [pair_self] at hsees
  case hstep =>
    rintro front n todo s' - ⟨done, rfl, hdone⟩
    obtain ⟨hgo, hnext⟩ := hdone.step hA ha hdirty hfits
    refine ⟨fun hstop => ?_, fun _ => ⟨n.moved, n.moved_len, done ++ [n], ?_, hnext⟩⟩
    · rw [hgo] at hstop
      exact absurd hstop Bool.false_ne_true
    · rw [List.map_append]
      rfl
  rcases hrun with ⟨-, hno⟩ | ⟨-, front, done, -, hdone⟩
  · exact hno.elim
  · have hall : done = A.nodes := by
      rw [← hdone.nodes, List.append_nil]
    rwa [hall] at hdone

end Loop

/-! ## Collecting the dirty sector -/

section Collect

variable {s : Store} {a : Nat} {A : SectorDesc}

/-- A dirty sector is collected: it is empty, and the other one holds what counted in it. -/
theorem doGc_spec (h : Represents s (pair a A formatted)) (ha : SectorAddr a)
    (hA : Collectable s A) (hdirty : A.dirty = .true ∨ A.dirty = .gc) (hne : A.nodes ≠ [])
    (hcached : EnvCacheOk (pair a A formatted) s.env_cache_table) (sector : SectorMeta) :
    let b := doGc s (sector.header a A) ()
    b.2.2 = Bool.false ∧ SameSettings s b.1 ∧
      Represents b.1 (pair a formatted (collect A.nodes)) ∧
      EnvCacheOk (pair a formatted (collect A.nodes)) b.1.env_cache_table := by
  have hstore : (sector.header a A).store ≠ .empty := by
    have hok := h.ok a ha
    rw [pair_self] at hok
    exact fun hempty => hne (hok.empty.mp hempty)
  have hle : (pair a A formatted a).dirty.index ≤ SectorDirtyStatus.gc.index := by
    rw [pair_self]
    rcases hdirty with hdirty | hdirty
    · rw [hdirty]
      decide
    · rw [hdirty]
  -- The sector is marked.
  let A₁ : SectorDesc := { A with dirty := .gc }
  let s₁ : Store := { s with
    flash := writeStatus s.flash (a + SECTOR_DIRTY_OFFSET) SECTOR_DIRTY_STATUS_NUM
      SectorDirtyStatus.gc.index }
  have hrep₁ : Represents s₁ (pair a A₁ formatted) := by
    have hset := h.setDirty ha .gc hle
    rw [pair_self, update_pair_self] at hset
    exact hset
  have hcached₁ : EnvCacheOk (pair a A₁ formatted) s₁.env_cache_table := by
    apply hcached.of_nodes
    rintro b -
    unfold pair
    split_ifs
    all_goals exact .inl rfl
  have hA₁ : Collectable s₁ A₁ :=
    ⟨⟨hA.packed.last, hA.packed.used⟩, hA.settled, hA.gc_request, hA.in_recovery_check,
      hA.last_is_complete_del⟩
  -- The variables are moved, and the sector is formatted.
  have hloop := doGcLoop_spec hrep₁ ha hA₁ rfl hne hcached₁ (sector.header a A) rfl hstore
  obtain ⟨-, hstate, hrep, hcached'⟩ := hloop
  have hset : SameSettings s (forEachEnv (sector.header a A) doGcBody SECTOR_SIZE s₁
      { start := FAILED_ADDR } ()).1 := hstate
  have hformat := formatSector_spec hrep ha
  rw [update_pair_self] at hformat
  unfold doGc
  rw [if_pos ⟨rfl, hdirty⟩]
  refine ⟨rfl, hset.formatSector a, hformat, ?_⟩
  apply hcached'.of_nodes
  intro b hb
  rcases ha.eq_or_other hb with rfl | rfl
  · refine .inr ?_
    rw [pair_self, List.append_nil]
    intro n hn
    obtain ⟨n', -, rfl⟩ := List.mem_map.mp hn
    exact n'.moved_status
  · refine .inl ?_
    rw [pair_other ha, pair_other ha]

/-- A clean sector is left alone. -/
theorem doGc_clean (s : Store) (sector : SectorMeta) {d : SectorDesc} (hclean : d.dirty = .false) :
    doGc s (sector.header a d) () = (s, (), Bool.false) := by
  have hno : ¬((sector.header a d).check_ok ∧
      ((sector.header a d).dirty = .true ∨ (sector.header a d).dirty = .gc)) := by
    have hsame : (sector.header a d).dirty = .false := hclean
    rw [hsame]
    rintro ⟨-, htrue | hgc⟩
    · cases htrue
    · cases hgc
  exact if_neg hno

end Collect

/-! ## The whole collection -/

section

variable {s : Store} {d : Nat → SectorDesc} {a : Nat}

/-- The collection counts the empty sectors first. -/
theorem gcCheck_spec (h : Represents s d) (sector : SectorMeta) :
    let r := sectorIterator s sector .empty 0 gcCheckCb Bool.false
    r.1 = s ∧ r.2.2 = countSectors d .empty := by
  have hbody (a : Nat) (ha : SectorAddr a) (sector : SectorMeta) (n : Nat) :
      sectorIteratorBody .empty gcCheckCb Bool.false s a sector n =
        (s, sector.header a (d a), n + (if (d a).store = .empty then 1 else 0), Bool.false) := by
    have hstore : (sector.header a (d a)).store = (d a).store := rfl
    have hcheck : (sector.header a (d a)).check_ok = Bool.true := rfl
    have hunused : SectorStoreStatus.empty ≠ .unused := by decide
    unfold sectorIteratorBody
    rw [readSectorMetaData_header h ha]
    dsimp only
    rw [hstore, if_neg Bool.false_ne_true, gcCheckCb, hcheck, if_pos rfl]
    by_cases hempty : (d a).store = .empty
    · rw [if_pos (.inr hempty.symm), if_pos hempty]
    · rw [if_neg (not_or_intro hunused fun heq => hempty heq.symm), if_neg hempty, Nat.add_zero]
  unfold sectorIterator
  apply forEachSector_sectors
    (P := fun s' n => s' = s ∧ n = 0 + (if (d 0).store = .empty then 1 else 0))
    (Q := fun s' _ n => s' = s ∧ n = countSectors d .empty)
  · intro sector
    rw [hbody 0 (.inl rfl)]
    exact ⟨fun hstop => absurd hstop Bool.false_ne_true, fun _ => ⟨rfl, rfl, rfl, rfl⟩⟩
  · rintro s' sector n ⟨rfl, rfl⟩
    rw [hbody SECTOR_SIZE (.inr rfl), countSectors_eq, Nat.zero_add]
    exact ⟨rfl, rfl⟩

theorem doGcBody_header (h : Represents s d) (ha : SectorAddr a) (sector : SectorMeta) :
    sectorIteratorBody .unused doGc Bool.false s a sector () =
      ((doGc s (sector.header a (d a)) ()).1, sector.header a (d a),
        (), (doGc s (sector.header a (d a)) ()).2.2) := by
  unfold sectorIteratorBody
  rw [readSectorMetaData_header h ha]
  dsimp only
  rw [if_pos (.inl rfl), if_neg Bool.false_ne_true]

/-- Where no sector is dirty there is nothing to collect. -/
theorem gcCollect_clean (h : Represents s d) (hclean : ∀ b, SectorAddr b → (d b).dirty = .false) :
    gcCollect s = { s with gc_request := Bool.false } := by
  obtain ⟨hsame, -⟩ := gcCheck_spec h {}
  have hrun (sector : SectorMeta) : (sectorIterator s sector .unused () doGc Bool.false).1 = s := by
    unfold sectorIterator
    apply forEachSector_sectors (P := fun s' _ => s' = s) (Q := fun s' _ _ => s' = s)
    · intro sector
      rw [doGcBody_header h (.inl rfl), doGc_clean s sector (hclean 0 (.inl rfl))]
      exact ⟨fun hstop => absurd hstop Bool.false_ne_true, fun _ => ⟨rfl, rfl, rfl⟩⟩
    · rintro s' sector - rfl
      rw [doGcBody_header h (.inr rfl), doGc_clean s' sector (hclean SECTOR_SIZE (.inr rfl))]
  unfold gcCollect
  dsimp only
  rw [hsame, hrun]
  split_ifs
  · rfl
  · rfl

/-- A collection of one dirty sector is what {lit}`do_gc` makes of it: the other one is clean
before and after, whichever of the two comes first. -/
theorem gcCollect_dirty {A B B' : SectorDesc} {P : Store → Prop}
    (h : Represents s (pair a A B)) (ha : SectorAddr a) (hclean : B.dirty = .false)
    (hclean' : B'.dirty = .false)
    (hfew : countSectors (pair a A B) .empty ≤ EF_GC_EMPTY_SEC_THRESHOLD)
    (hgc : ∀ sector : SectorMeta,
      let b := doGc s (sector.header a A) ()
      b.2.2 = Bool.false ∧ Represents b.1 (pair a formatted B') ∧ P b.1) :
    ∃ s', gcCollect s = { s' with gc_request := Bool.false } ∧
      Represents s' (pair a formatted B') ∧ P s' := by
  obtain ⟨hsame, hcount⟩ := gcCheck_spec h {}
  have hrun (sector : SectorMeta) :
      let r := sectorIterator s sector .unused () doGc Bool.false
      Represents r.1 (pair a formatted B') ∧ P r.1 := by
    unfold sectorIterator
    rcases ha with rfl | rfl
    · apply forEachSector_sectors (P := fun s' _ => Represents s' (pair 0 formatted B') ∧ P s')
        (Q := fun s' _ _ => Represents s' (pair 0 formatted B') ∧ P s')
      · intro sector
        obtain ⟨hgo, hdone⟩ := hgc sector
        rw [doGcBody_header h (.inl rfl), pair_self]
        exact ⟨fun _ => hdone, fun _ => ⟨rfl, rfl, hdone⟩⟩
      · rintro s' sector - ⟨hrep, hdone⟩
        rw [doGcBody_header hrep (.inr rfl), show SECTOR_SIZE = otherSector 0 from rfl,
          pair_other (.inl rfl), doGc_clean s' sector hclean']
        exact ⟨hrep, hdone⟩
    · apply forEachSector_sectors (P := fun s' _ => s' = s)
        (Q := fun s' _ _ => Represents s' (pair SECTOR_SIZE formatted B') ∧ P s')
      · intro sector
        rw [doGcBody_header h (.inl rfl), show (0 : Nat) = otherSector SECTOR_SIZE from rfl,
          pair_other (.inr rfl), doGc_clean s sector hclean]
        exact ⟨fun hstop => absurd hstop Bool.false_ne_true, fun _ => ⟨rfl, rfl, rfl⟩⟩
      · rintro s' sector - rfl
        rw [doGcBody_header h (.inr rfl), pair_self]
        exact (hgc sector).2
  unfold gcCollect
  dsimp only
  rw [hcount, if_pos hfew, hsame]
  exact ⟨_, rfl, hrun _⟩

end

/-- A collection keeps the variables that count, in their order, and empties the sector that
they were in. -/
theorem gcCollect_spec {s : Store} {a : Nat} {A : SectorDesc}
    (h : Represents s (pair a A formatted)) (ha : SectorAddr a) (hA : Collectable s A)
    (hdirty : A.dirty = .true ∨ A.dirty = .gc) (hne : A.nodes ≠ [])
    (hcached : EnvCacheOk (pair a A formatted) s.env_cache_table) :
    Represents (gcCollect s) (pair a formatted (collect A.nodes)) ∧
      EnvCacheOk (pair a formatted (collect A.nodes)) (gcCollect s).env_cache_table ∧
      SameSettings { s with gc_request := Bool.false } (gcCollect s) := by
  have hstore : A.store ≠ .empty := by
    have hok := h.ok a ha
    rw [pair_self] at hok
    exact fun hempty => hne (hok.empty.mp hempty)
  have hone : countSectors (pair a A formatted) .empty = 1 := by
    rw [countSectors_pair ha, if_neg hstore]
    rfl
  obtain ⟨s', hdone, hrep, hcache, m, t, e, hstate⟩ := gcCollect_dirty
    (P := fun s' => EnvCacheOk (pair a formatted (collect A.nodes)) s'.env_cache_table ∧
      SameSettings s s') h ha rfl (fill_dirty _) (by rw [hone]; decide) fun sector => by
    obtain ⟨hgo, hset, hrep, hcache⟩ := doGc_spec h ha hA hdirty hne hcached sector
    exact ⟨hgo, hrep, hcache, hset⟩
  rw [hdone]
  refine ⟨hrep.congr rfl rfl, hcache, m, t, e, ?_⟩
  rw [hstate]

end EasyFlash

end WeatherStation
