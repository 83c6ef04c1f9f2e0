import WeatherStation.Storage.EnvWifi

/-!
# What a full store leaves behind

Where {lit}`set_env` finds the store full it leaves the request for a collection standing.  The
next call that sets a variable may then take the sector that is kept for collections, and the
collection that follows finds no room: it formats a sector whose variables it could not move.

Main results:

- Theorem {lit}`Resting.newEnv_full`: the request is left standing.
- Theorem {lit}`moveEnv_full`: a variable that finds no room is only marked.
- Theorem {lit}`set_loses`: a variable that was set without an error costs another one, of
  which no sector holds a copy any more.
- Theorem {lit}`setAgain_loses`: so does a call that is made again where the store was full.
-/

open Foundation

namespace WeatherStation

namespace EasyFlash

/-! ## The request that is left standing -/

section Stale

variable {K : CStr → Prop} {s : Store} {a : Nat} {A : SectorDesc}

/-- A sector with variables, none of them deleted, in which there is too little room. -/
theorem Resting.newEnv_full (h : Resting K s a A) (hclean : A.dirty = .false)
    (hused : A.store ≠ .empty) {env_size : Nat} (hroom : A.room ≤ env_size) (sector : SectorMeta) :
    (newEnv s sector env_size).2.2 = FAILED_ADDR ∧
      ∃ s', Resting K s' a A ∧
        (newEnv s sector env_size).1 = { s' with gc_request := Bool.true } := by
  have hfail {s : Store} (h : Resting K s a A) (sector : SectorMeta) :
      (allocEnv s sector env_size).2.2 = FAILED_ADDR ∧
        ∃ s', Resting K s' a A ∧
          (allocEnv s sector env_size).1 = { s' with gc_request := Bool.true } := by
    rcases h.alloc sector env_size with
      ⟨b, -, hfound⟩ | ⟨hno, -, s', gc_request, hrest, hgc, hstate⟩
    · exact absurd hfound.room (Nat.not_lt.mpr hroom)
    · rw [hgc hused] at hstate
      exact ⟨hno, s', hrest, hstate⟩
  obtain ⟨hno, s', hrest, hstate⟩ := hfail h sector
  have hyes : (allocEnv s sector env_size).2.2 = FAILED_ADDR ∧
      (allocEnv s sector env_size).1.gc_request := by
    rw [hstate]
    exact ⟨hno, rfl⟩
  have hrep : Represents { s' with gc_request := Bool.true } (pair a A formatted) :=
    hrest.represents.congr rfl rfl
  have hcollect : gcCollect { s' with gc_request := Bool.true } = s' := by
    rw [gcCollect_clean hrep (forall_pair (P := fun d => d.dirty = .false) h.addr hclean rfl)]
    rw [← hrest.gc_request]
  unfold newEnv
  dsimp only
  rw [if_pos hyes, hstate, hcollect]
  exact hfail hrest _

end Stale

/-! ## A collection without room -/

section Full

variable {s : Store} {a : Nat} {A B : SectorDesc} {front back : List Node} {n : Node}

/-- A variable that finds no room is only marked. -/
theorem moveEnv_full (h : Represents s (pair a A B)) (ha : SectorAddr a) (hdirty : A.dirty = .gc)
    (hnodes : A.nodes = front ++ n :: back) (hstatus : n.status = .write)
    (hroom : B.room ≤ n.len) (hgc : s.gc_request = Bool.true) :
    ∃ s', (moveEnv s (n.obj (a + SECTOR_HDR_DATA_SIZE + nodesLen front))).1 = s' ∧
      Represents s' (pair a (A.mark front n back .preDelete) B) ∧
      s'.gc_request = Bool.true := by
  have hnodes' : (pair a A B a).nodes = front ++ n :: back := by
    rw [pair_self]
    exact hnodes
  obtain ⟨m₁, hdel, hrep₁⟩ := delEnvObj_spec h ha hnodes'
    (n.obj (a + SECTOR_HDR_DATA_SIZE + nodesLen front)) rfl none Bool.false
    (by rw [hstatus]; decide)
  rw [pair_self, update_pair_self] at hrep₁
  change Represents _ (pair a (A.mark front n back .preDelete) B) at hrep₁
  have hdirty₁ : (A.mark front n back .preDelete).dirty = .gc := by
    change (if A.dirty = .false then SectorDirtyStatus.true else A.dirty) = .gc
    rw [hdirty]
    rfl
  let s₁ := delEnvObj s none (n.obj (a + SECTOR_HDR_DATA_SIZE + nodesLen front)) Bool.false
  have hrep₁' : Represents s₁ (pair a (A.mark front n back .preDelete) B) := by
    change Represents (delEnvObj s none _ Bool.false) _
    rw [hdel]
    exact hrep₁.congr rfl rfl
  have hgc₁ : s₁.gc_request = Bool.true := by
    change (delEnvObj s none _ Bool.false).gc_request = Bool.true
    rw [hdel]
    exact hgc
  have hno (st : SectorStoreStatus) :
      ¬((A.mark front n back .preDelete).store = st ∧
        (A.mark front n back .preDelete).Takes Bool.true n.len) := by
    rintro ⟨-, -, hclean | ⟨hmarked, -⟩⟩
    · rw [hdirty₁] at hclean
      cases hclean
    · rw [hdirty₁] at hmarked
      cases hmarked
  have hno' (st : SectorStoreStatus) : ¬(B.store = st ∧ B.Takes Bool.true n.len) := fun hall =>
    Nat.not_lt.mpr hroom hall.2.1
  have hplace : allocPlace (pair a (A.mark front n back .preDelete) B) Bool.true n.len = none := by
    unfold allocPlace
    rw [firstFit_pair_none ha (hno _) (hno' _)]
    dsimp only
    rw [firstFit_pair_none ha (hno _) (hno' _), ite_self]
  obtain ⟨⟨t, hrep₂, hstate⟩, haddr, -⟩ := allocEnv_spec hrep₁' {} n.len
  rw [hgc₁, Bool.true_or] at hrep₂ hstate
  rw [hgc₁, hplace] at haddr
  have hfailed : (allocEnv s₁ {} n.len).2.2 = FAILED_ADDR := haddr
  refine ⟨_, rfl, ?_⟩
  have hlen : (n.obj (a + SECTOR_HDR_DATA_SIZE + nodesLen front)).len = n.len := rfl
  unfold moveEnv
  rw [if_pos (show (n.obj _).status = .write from hstatus), hlen]
  dsimp only
  rw [if_neg (not_not.mpr hfailed)]
  change Represents (allocEnv s₁ {} n.len).1 _ ∧ (allocEnv s₁ {} n.len).1.gc_request = _
  rw [hstate]
  exact ⟨hrep₂.congr rfl rfl, rfl⟩

/-- The loop over a sector whose variables find no room in the other one moves none of them. -/
theorem doGcLoop_full (h : Represents s (pair a A B)) (ha : SectorAddr a) (hdirty : A.dirty = .gc)
    (hne : A.nodes ≠ []) (hstatus : ∀ n ∈ A.nodes, n.status = .write ∨ n.status = .deleted)
    (hroom : ∀ n ∈ A.nodes, n.status = .write → B.room ≤ n.len)
    (hgc : s.gc_request = Bool.true) (sector : SectorMeta) (haddr : sector.addr = a)
    (hstore : sector.store ≠ .empty) :
    ∃ ns, Represents (forEachEnv sector doGcBody SECTOR_SIZE s { start := FAILED_ADDR } ()).1
      (pair a { A with nodes := ns } B) := by
  have hrun := forEachEnv_nodes doGcBody
    (I := fun front todo s' _ => ∃ done, done ++ todo = A.nodes ∧
      s'.gc_request = Bool.true ∧ Represents s' (pair a { A with nodes := front ++ todo } B))
    (Q := fun _ _ _ => False) haddr hstore ?hvisit ?hstep hne s () ⟨[], rfl, hgc, h⟩ {}
  case hvisit =>
    rintro front todo s' - ⟨done, -, -, hrep⟩
    have hsees := hrep.visitable ha
    rwa [pair_self] at hsees
  case hstep =>
    rintro front n todo s' - ⟨done, hsplit, hgc', hrep⟩
    have hmem : n ∈ A.nodes := by
      rw [← hsplit]
      exact List.mem_append_right _ List.mem_cons_self
    have hsame :
        (n.obj (a + SECTOR_HDR_DATA_SIZE + nodesLen front)).status = n.status := rfl
    have hsplit' : done ++ [n] ++ todo = A.nodes := by
      rw [List.append_assoc]
      exact hsplit
    dsimp only
    unfold doGcBody
    rw [hsame]
    by_cases hlive : n.status = .write
    · rw [if_pos ⟨rfl, .inl hlive⟩]
      refine ⟨fun hstop => absurd hstop Bool.false_ne_true, fun _ => ?_⟩
      obtain ⟨s'', hmove, hrep', hgc''⟩ := moveEnv_full hrep ha hdirty rfl hlive
        (hroom n hmem hlive) hgc'
      refine ⟨{ n with status := .preDelete }, rfl, done ++ [n], hsplit', ?_, ?_⟩
      · rw [hmove]
        exact hgc''
      · have hmark :
            SectorDesc.mark { A with nodes := front ++ n :: todo } front n todo .preDelete =
              { A with nodes := front ++ [{ n with status := .preDelete }] ++ todo } := by
          have hnot : ¬(SectorDirtyStatus.gc = .false) := by decide
          rw [SectorDesc.mark, hdirty, if_neg hnot, List.append_assoc]
          rfl
        rw [hmark] at hrep'
        rw [hmove]
        exact hrep'
    · have hskip : ¬((n.obj (a + SECTOR_HDR_DATA_SIZE + nodesLen front)).crc_is_ok ∧
          (n.status = .write ∨ n.status = .preDelete)) := by
        rintro ⟨-, hyes | hpre⟩
        · exact hlive hyes
        · rcases hstatus n hmem with hn | hn
          · exact hlive hn
          · rw [hn] at hpre
            cases hpre
      rw [if_neg hskip]
      refine ⟨fun hstop => absurd hstop Bool.false_ne_true, fun _ => ?_⟩
      refine ⟨n, rfl, done ++ [n], hsplit', hgc', ?_⟩
      rw [List.append_assoc]
      exact hrep
  rcases hrun with ⟨-, hno⟩ | ⟨-, front, done, -, -, hrep⟩
  · exact hno.elim
  · rw [List.append_nil] at hrep
    exact ⟨front, hrep⟩

/-- A dirty sector is formatted also where none of its variables was moved. -/
theorem doGc_full (h : Represents s (pair a A B)) (ha : SectorAddr a) (hdirty : A.dirty = .true)
    (hne : A.nodes ≠ []) (hstatus : ∀ n ∈ A.nodes, n.status = .write ∨ n.status = .deleted)
    (hroom : ∀ n ∈ A.nodes, n.status = .write → B.room ≤ n.len)
    (hgc : s.gc_request = Bool.true) (sector : SectorMeta) :
    (doGc s (sector.header a A) ()).2.2 = Bool.false ∧
      Represents (doGc s (sector.header a A) ()).1 (pair a formatted B) := by
  have hstore : (sector.header a A).store ≠ .empty := by
    have hok := h.ok a ha
    rw [pair_self] at hok
    exact fun hempty => hne (hok.empty.mp hempty)
  have hle : (pair a A B a).dirty.index ≤ SectorDirtyStatus.gc.index := by
    rw [pair_self, hdirty]
    decide
  have hset := h.setDirty ha .gc hle
  rw [pair_self, update_pair_self] at hset
  obtain ⟨ns, hrep⟩ := doGcLoop_full (A := { A with dirty := .gc }) hset ha rfl hne hstatus
    hroom hgc (sector.header a A) rfl hstore
  have hformat := formatSector_spec hrep ha
  rw [update_pair_self] at hformat
  unfold doGc
  rw [if_pos ⟨rfl, .inl hdirty⟩]
  exact ⟨rfl, hformat⟩

/-- So does the whole collection, if no sector is empty. -/
theorem gcCollect_full (h : Represents s (pair a A B)) (ha : SectorAddr a)
    (hdirty : A.dirty = .true) (hclean : B.dirty = .false) (hne : A.nodes ≠ [])
    (hstatus : ∀ n ∈ A.nodes, n.status = .write ∨ n.status = .deleted) (hused : B.store ≠ .empty)
    (hroom : ∀ n ∈ A.nodes, n.status = .write → B.room ≤ n.len)
    (hgc : s.gc_request = Bool.true) : Represents (gcCollect s) (pair a formatted B) := by
  have hstore : A.store ≠ .empty := by
    have hok := h.ok a ha
    rw [pair_self] at hok
    exact fun hempty => hne (hok.empty.mp hempty)
  have hnone : countSectors (pair a A B) .empty = 0 := by
    rw [countSectors_pair ha, if_neg hstore, if_neg hused]
  obtain ⟨s', hdone, hrep, -⟩ := gcCollect_dirty (P := fun _ => True) h ha hclean hclean
    (by rw [hnone]; exact Nat.zero_le _) fun sector => by
    obtain ⟨hgo, hrep⟩ := doGc_full h ha hdirty hne hstatus hroom hgc sector
    exact ⟨hgo, hrep, trivial⟩
  rw [hdone]
  exact hrep.congr rfl rfl

end Full

/-! ## A variable that is lost -/

section Lost

variable {K : CStr → Prop} {s : Store} {a : Nat} {A : SectorDesc} {x y : Node}

/-- The place that is found while the request stands: the sector kept for collections. -/
theorem allocPlace_stale (ha : SectorAddr a) (hused : A.store ≠ .empty) {env_size : Nat}
    (hroom : A.room ≤ env_size) (hfits : env_size < SECTOR_SIZE - SECTOR_HDR_DATA_SIZE) :
    allocPlace (pair a A formatted) Bool.true env_size = some (otherSector a) := by
  have hA (st : SectorStoreStatus) : ¬(A.store = st ∧ A.Takes Bool.true env_size) := fun hall =>
    Nat.not_lt.mpr hroom hall.2.1
  have hB : ¬(formatted.store = .inUse ∧ formatted.Takes Bool.true env_size) := fun hall => by
    cases hall.1
  have htakes : formatted.store = .empty ∧ formatted.Takes Bool.true env_size :=
    ⟨rfl, hfits, .inl rfl⟩
  have hone : countSectors (pair a A formatted) .empty = 1 := by
    rw [countSectors_pair ha, if_neg hused]
    rfl
  have hfit := firstFit_pair ha.other htakes (hA .empty)
  rw [pair_swap ha] at hfit
  unfold allocPlace
  rw [firstFit_pair_none ha (hA _) hB, hone]
  dsimp only
  rw [if_pos (.inr ⟨Nat.one_pos, rfl⟩), hfit]

/-- Two variables that count have two names. -/
theorem Settled.key_ne (h : Settled K A) (hnodes : A.nodes = [x, y]) (hclean : A.dirty = .false) :
    x.key ≠ y.key := by
  have hdistinct := h.distinct
  unfold Distinct at hdistinct
  rw [h.liveNodes_eq hclean, hnodes] at hdistinct
  exact (List.pairwise_cons.mp hdistinct).1 y List.mem_cons_self

theorem free_formatted_ne_failed (ha : SectorAddr a) : formatted.free a ≠ FAILED_ADDR := by
  rcases ha with rfl | rfl
  all_goals decide

/-- While the request stands a variable gets its place in the sector kept for collections. -/
theorem newEnv_stale (h : Represents s (pair a A formatted)) (ha : SectorAddr a)
    (hgc : s.gc_request = Bool.true) (hused : A.store ≠ .empty) {env_size : Nat}
    (hroom : A.room ≤ env_size) (hfits : env_size < SECTOR_SIZE - SECTOR_HDR_DATA_SIZE) :
    ∃ t, Represents { s with sector_cache_table := t } (pair a A formatted) ∧
      newEnv s {} env_size = ({ s with sector_cache_table := t },
        formatted.read (otherSector a), formatted.free (otherSector a)) := by
  obtain ⟨⟨t, hrep, hstate⟩, haddr, hsector⟩ := allocEnv_spec h {} env_size
  rw [hgc, allocPlace_stale ha hused hroom hfits] at haddr hsector
  rw [hgc, Bool.true_or] at hrep hstate
  have hread := hsector _ rfl
  dsimp only at haddr
  rw [pair_other ha] at haddr hread
  have hfree := free_formatted_ne_failed ha.other
  have hstate' : (allocEnv s {} env_size).1 = { s with sector_cache_table := t } := by
    rw [hstate, ← hgc]
  have hnew : newEnv s {} env_size = allocEnv s {} env_size :=
    if_neg fun hall => hfree (haddr ▸ hall.1)
  refine ⟨t, hrep.congr rfl rfl, ?_⟩
  rw [hnew, ← hstate', ← hread, ← haddr]

/-- The first of two variables is found. -/
theorem find_first (h : Represents s (pair a A formatted))
    (hcached : EnvCacheOk (pair a A formatted) s.env_cache_table) (ha : SectorAddr a)
    (hclash : NoClash K) (hsettled : Settled K A) (hnodes : A.nodes = [x, y])
    (hclean : A.dirty = .false) :
    ∃ table, (findEnv s x.key {}).1 = { s with env_cache_table := table } ∧
      (findEnv s x.key {}).2.2 = Bool.true ∧
      (findEnv s x.key {}).2.1 = x.obj (a + SECTOR_HDR_DATA_SIZE + nodesLen []) := by
  have hmem : x ∈ A.nodes := by
    rw [hnodes]
    exact List.mem_cons_self
  have hdiffer := hsettled.key_ne hnodes hclean
  obtain ⟨table, -, hstate, hsearch⟩ := findEnv_spec h hcached hclash
    (names_pair ha hsettled.keys) (hsettled.keys x hmem) {}
  refine ⟨table, hstate, ?_⟩
  rcases hsearch with ⟨hfound, z, n, hn, hkey, hobj⟩ | ⟨-, hnone⟩
  · obtain ⟨-, front, back, hsplit, rfl⟩ := live_pair ha hn
    rw [hnodes] at hsplit
    cases front with
    | nil =>
        obtain ⟨rfl, -⟩ := List.cons.inj hsplit
        exact ⟨hfound, hobj⟩
    | cons w front =>
        obtain ⟨-, htail⟩ := List.cons.inj hsplit
        have hmem' : n ∈ [y] := by
          rw [htail]
          exact List.mem_append_right _ List.mem_cons_self
        rw [List.mem_singleton.mp hmem'] at hkey
        exact absurd hkey.symm hdiffer
  · obtain ⟨z, hz⟩ := live_of_mem ha (mem_liveNodes.mpr ⟨hmem, hsettled.clean hclean x hmem⟩)
    exact absurd rfl (hnone z x hz)

/-- The collection finds no room for the second of two variables beside the new value. -/
theorem gcCollect_loses {value : List UInt8}
    (h : Represents s (pair a ((A.mark [] x [y] .preDelete).mark []
      { x with status := EnvStatus.preDelete } [y] .deleted)
        (formatted.add ⟨.write, x.key, value⟩)))
    (ha : SectorAddr a) (hclean : A.dirty = .false) (hy : y.status = .write)
    (hover : SECTOR_SIZE - SECTOR_HDR_DATA_SIZE ≤ (Node.mk .write x.key value).len + y.len)
    (hgc : s.gc_request = Bool.true) :
    Represents (gcCollect s) (pair a formatted (formatted.add ⟨.write, x.key, value⟩)) := by
  refine gcCollect_full h ha ?_ rfl (List.cons_ne_nil _ _) ?_ ?_ ?_ hgc
  · unfold SectorDesc.mark
    dsimp only
    rw [if_pos hclean]
    rfl
  · intro n hn
    rcases List.mem_cons.mp hn with rfl | hn
    · exact .inr rfl
    · rw [List.mem_singleton.mp hn]
      exact .inl hy
  · intro hempty
    cases hempty
  · intro n hn hlive
    rcases List.mem_cons.mp hn with rfl | hn
    · cases hlive
    · rw [List.mem_singleton.mp hn]
      change SECTOR_SIZE - SECTOR_HDR_DATA_SIZE - nodesLen ([] ++ [⟨.write, x.key, value⟩]) ≤ _
      rw [List.nil_append, nodesLen_cons, nodesLen_nil]
      omega

/-- The one variable of a flash with one variable. -/
theorem located_add_formatted (ha : SectorAddr a) {z : Nat} {n : Node}
    (h : Located (pair a formatted (formatted.add x)) z n) : x = n := by
  rw [← pair_swap ha] at h
  obtain ⟨front, back, hsplit, -⟩ := located_pair ha.other h
  exact (List.mem_singleton.mp (mem_of_nodes hsplit)).symm

/-- The first of two variables is marked, its new value is created in the other sector, and it is
deleted; a request for a collection stays. -/
theorem replace_first (h : Represents s (pair a A formatted)) (ha : SectorAddr a)
    (hnodes : A.nodes = [x, y]) (hx : x.status = .write) (hname : x.key.strlen ≤ EF_ENV_NAME_MAX)
    (value : List UInt8)
    (hfits : (Node.mk .write x.key value).len < SECTOR_SIZE - SECTOR_HDR_DATA_SIZE)
    (hgc : s.gc_request = Bool.true) :
    let old := x.obj (a + SECTOR_HDR_DATA_SIZE + nodesLen [])
    let created := createEnvBlob (delEnvObj s (some x.key) old Bool.false)
      (formatted.read (otherSector a)) x.key value
    let s' := delEnvObj created.1 (some x.key) old Bool.true
    created.2 = .noErr ∧ s'.gc_request = Bool.true ∧
      Represents s' (pair a ((A.mark [] x [y] .preDelete).mark []
        { x with status := EnvStatus.preDelete } [y] .deleted)
          (formatted.add ⟨.write, x.key, value⟩)) := by
  dsimp only
  -- The old value is marked.
  have hsplit : (pair a A formatted a).nodes = [] ++ x :: [y] := by
    rw [pair_self]
    exact hnodes
  obtain ⟨m, hdel, hrep⟩ := delEnvObj_spec h ha hsplit
    (x.obj (a + SECTOR_HDR_DATA_SIZE + nodesLen [])) rfl (some x.key) Bool.false
    (by rw [hx]; decide)
  rw [pair_self, update_pair_self, show delStatus Bool.false = .preDelete from rfl] at hrep
  have hmarked : Represents (delEnvObj s (some x.key)
      (x.obj (a + SECTOR_HDR_DATA_SIZE + nodesLen [])) Bool.false)
      (pair (otherSector a) formatted (A.mark [] x [y] .preDelete)) := by
    rw [pair_swap ha, hdel]
    exact hrep.congr rfl rfl
  -- The new one is created.
  obtain ⟨m', t, hcreate, hrep'⟩ := createEnvBlob_spec hmarked ha.other
    (formatted.read_of (otherSector a)) rfl (.inl rfl) value hname hfits
  rw [pair_swap ha] at hrep'
  have hcreated : Represents (createEnvBlob (delEnvObj s (some x.key)
      (x.obj (a + SECTOR_HDR_DATA_SIZE + nodesLen [])) Bool.false)
      (formatted.read (otherSector a)) x.key value).1
      (pair a (A.mark [] x [y] .preDelete) (formatted.add ⟨.write, x.key, value⟩)) := by
    rw [hcreate]
    exact hrep'.congr rfl rfl
  -- The old one is deleted.
  have hsplit' : (pair a (A.mark [] x [y] .preDelete) (formatted.add ⟨.write, x.key, value⟩)
      a).nodes = [] ++ { x with status := EnvStatus.preDelete } :: [y] := by
    rw [pair_self]
    rfl
  have hle : EnvStatus.preDelete.index ≤ (delStatus Bool.true).index := by decide
  obtain ⟨m'', hdel', hrep''⟩ := delEnvObj_spec hcreated ha hsplit'
    (x.obj (a + SECTOR_HDR_DATA_SIZE + nodesLen [])) rfl (some x.key) Bool.true hle
  rw [pair_self, update_pair_self, show delStatus Bool.true = .deleted from rfl] at hrep''
  refine ⟨by rw [hcreate], ?_, ?_⟩
  · rw [hdel', hcreate, hdel]
    dsimp only
    rw [hgc, Bool.true_or]
  · rw [hdel']
    exact hrep''.congr rfl rfl

/-- While the request stands a variable that is set without an error can cost another one: the
new value goes to the sector that is kept for collections, and the collection finds no room for
the other variable. -/
theorem set_loses (h : Resting K s a A) (hclash : NoClash K) (hnodes : A.nodes = [x, y])
    (hclean : A.dirty = .false) {value : List UInt8}
    (hroom : A.room ≤ (Node.mk .write x.key value).len)
    (hfits : (Node.mk .write x.key value).len < SECTOR_SIZE - SECTOR_HDR_DATA_SIZE)
    (hover : SECTOR_SIZE - SECTOR_HDR_DATA_SIZE ≤ (Node.mk .write x.key value).len + y.len) :
    (setEnv { s with gc_request := Bool.true } x.key value).2 = .noErr ∧
      ∃ d, Represents (setEnv { s with gc_request := Bool.true } x.key value).1 d ∧
        ∀ z n, Located d z n → n.key ≠ y.key := by
  have ha := h.addr
  have hmemx : x ∈ A.nodes := by
    rw [hnodes]
    exact List.mem_cons_self
  have hmemy : y ∈ A.nodes := by
    rw [hnodes]
    exact List.mem_cons_of_mem x List.mem_cons_self
  have hx := h.settled.clean hclean x hmemx
  have hy := h.settled.clean hclean y hmemy
  have hdiffer := h.settled.key_ne hnodes hclean
  have hused := h.store_ne_empty (List.ne_nil_of_mem hmemx)
  -- The new value is placed in the sector that is kept for collections.
  let s₀ : Store := { s with gc_request := Bool.true }
  obtain ⟨t, hrep₁, hnew⟩ := newEnv_stale (s := s₀) (h.represents.congr rfl rfl) ha rfl hused hroom
    hfits
  have hfree := free_formatted_ne_failed ha.other
  -- The old value is found and replaced.
  let s₁ : Store := { s₀ with sector_cache_table := t }
  obtain ⟨table, hfstate, hfound, hobj⟩ := find_first (s := s₁) hrep₁ h.cached ha hclash h.settled
    hnodes hclean
  let s₂ : Store := { s₁ with env_cache_table := table }
  have hrep₂ : Represents s₂ (pair a A formatted) := hrep₁.congr rfl rfl
  obtain ⟨hok, hgc, hrep⟩ := replace_first hrep₂ ha hnodes hx (h.ok.names x hmemx) value hfits rfl
  let old := x.obj (a + SECTOR_HDR_DATA_SIZE + nodesLen [])
  let created := createEnvBlob (delEnvObj s₂ (some x.key) old Bool.false)
    (formatted.read (otherSector a)) x.key value
  let s₅ := delEnvObj created.1 (some x.key) old Bool.true
  -- The collection finds no room for the other variable.
  have hcollect := gcCollect_loses hrep ha hclean hy hover hgc
  have hsize : ENV_HDR_DATA_SIZE + x.key.strlen + value.length =
      (Node.mk .write x.key value).len := rfl
  let s₆ := if Bool.true = Bool.true ∧ created.2 = .noErr then s₅ else created.1
  have hs₆ : s₆ = s₅ := if_pos ⟨rfl, hok⟩
  have hset : setEnv s₀ x.key value = (gcCollect s₅, .noErr) := by
    unfold setEnv newEnvByKv
    dsimp only
    rw [hsize, hnew]
    dsimp only
    rw [if_neg hfree, hfstate, hfound, hobj, if_pos rfl]
    change (if s₆.gc_request then gcCollect s₆ else s₆, created.2) = _
    rw [hs₆, if_pos hgc, hok]
  rw [show ({ s with gc_request := Bool.true } : Store) = s₀ from rfl, hset]
  exact ⟨rfl, _, hcollect, fun z n hn => located_add_formatted ha hn ▸ hdiffer⟩

/-- A variable is set that fits into a sector, but not beside the other one, and set again: the
first call finds the store full, the second one reports no error, and no sector holds a variable
with the name of the other one, in whatever state. -/
theorem setAgain_loses (h : Resting K s a A) (hclash : NoClash K) (hnodes : A.nodes = [x, y])
    (hclean : A.dirty = .false) (value : List UInt8)
    (hfits : (Node.mk .write x.key value).len < SECTOR_SIZE - SECTOR_HDR_DATA_SIZE)
    (hover : SECTOR_SIZE - SECTOR_HDR_DATA_SIZE ≤ (Node.mk .write x.key value).len + y.len) :
    let first := efSetEnvBlob s x.key value
    let second := efSetEnvBlob first.1 x.key value
    contents A.nodes y.key = some y.value ∧ first.2 = .envFull ∧ second.2 = .noErr ∧
      ∃ d, Represents second.1 d ∧ ∀ z n, Located d z n → n.key ≠ y.key := by
  have hmem : y ∈ A.nodes := by
    rw [hnodes]
    exact List.mem_cons_of_mem x List.mem_cons_self
  have hused := h.store_ne_empty (List.ne_nil_of_mem hmem)
  have hroom : A.room ≤ (Node.mk .write x.key value).len := by
    unfold SectorDesc.room
    rw [hnodes, nodesLen_cons, nodesLen_cons, nodesLen_nil]
    omega
  have hsize : ENV_HDR_DATA_SIZE + x.key.strlen + value.length =
      (Node.mk .write x.key value).len := rfl
  obtain ⟨hno, s', hrest, hstate⟩ := h.newEnv_full hclean hused hroom {}
  have hfirst : efSetEnvBlob s x.key value = ({ s' with gc_request := Bool.true }, .envFull) := by
    unfold efSetEnvBlob
    rw [h.init_ok, if_neg (not_not.mpr rfl)]
    unfold setEnv newEnvByKv
    dsimp only
    rw [hsize, if_pos hno, hstate]
  have hsecond : efSetEnvBlob { s' with gc_request := Bool.true } x.key value =
      setEnv { s' with gc_request := Bool.true } x.key value := by
    unfold efSetEnvBlob
    rw [hrest.init_ok, if_neg (not_not.mpr rfl)]
  have hvalue := contents_of_mem h.settled hmem (h.settled.clean hclean y hmem)
  dsimp only
  rw [hfirst, hsecond]
  exact ⟨hvalue, rfl, set_loses hrest hclash hnodes hclean hroom hfits hover⟩

/-- A new store with the default variable and a large configuration. -/
theorem exists_large_cfg (cfg : List UInt8) (hcfg : cfg.length = 3900) :
    ∃ s A, Resting wifiKeys.Mem s 0 A ∧ A.dirty = .false ∧
      A.nodes = [⟨.write, bootTimes, [0x30]⟩, ⟨.write, name .wlan_cfg_info, cfg⟩] := by
  have hboot : wifiKeys.Mem bootTimes := List.mem_cons_self
  have hzero : NoHeader (fun _ => 0xFF) 0 := by decide
  have hsize : NoHeader (fun _ => 0xFF) SECTOR_SIZE := by decide
  obtain ⟨s, A, -, hrest, hcontents, rfl⟩ := efEnvInit_fresh hboot hzero hsize 0
  have hlen : (Node.mk .write (name .wlan_cfg_info) cfg).len = 24 + 13 + cfg.length := rfl
  have hroom : (formatted.add ⟨.write, bootTimes, [0x30]⟩).room = 4045 := rfl
  obtain ⟨-, hcreated⟩ := hrest.create (mem_wifiKeys .wlan_cfg_info) (by decide) cfg (.inr rfl)
    (by rw [hlen, hroom, hcfg]; decide)
    (by rw [hcontents, Function.update_of_ne (name_ne_bootTimes _)])
  exact ⟨_, _, hcreated, rfl, rfl⟩

/-- The default variable is set twice to two hundred bytes beside a configuration of 3900. -/
theorem setAgain_loses_cfg :
    ∃ s, let first := efSetEnvBlob s bootTimes (List.replicate 200 0x31)
      let second := efSetEnvBlob first.1 bootTimes (List.replicate 200 0x31)
      first.2 = .envFull ∧ second.2 = .noErr ∧
        ∃ d, Represents second.1 d ∧ ∀ z n, Located d z n → n.key ≠ name .wlan_cfg_info := by
  obtain ⟨s, A, hrest, hclean, hnodes⟩ :=
    exists_large_cfg (List.replicate 3900 0) List.length_replicate
  have hlen (value : List UInt8) : (Node.mk .write bootTimes value).len = 34 + value.length := rfl
  have hcfg (cfg : List UInt8) :
      (Node.mk .write (name .wlan_cfg_info) cfg).len = 37 + cfg.length := rfl
  have hlost := setAgain_loses hrest wifiKeys.noClash hnodes hclean
    (List.replicate 200 0x31) (by rw [hlen, List.length_replicate]; decide)
    (by rw [hlen, hcfg, List.length_replicate, List.length_replicate]; decide)
  exact ⟨s, hlost.2⟩

end Lost

end EasyFlash

end WeatherStation
