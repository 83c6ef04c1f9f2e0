import WeatherStation.Storage.EnvRest

/-!
# The calls of the store

Between two calls the store is a map from names to values.  Setting, deleting and reading a
variable are what they are for a map, whatever was collected in between, as long as no call
found the store full.

Main results:

- Theorem {lit}`Resting.find`: the search finds a variable exactly where the map has it.
- Theorem {lit}`Resting.set`: a variable is set.
- Theorem {lit}`Resting.delete`: a variable is deleted.
- Theorem {lit}`Resting.get`: a variable is read.
-/

open Foundation

namespace WeatherStation

namespace EasyFlash

/-! ## Variables of the one sector -/

section

variable {a x : Nat} {A : SectorDesc} {n : Node}

theorem located_pair (ha : SectorAddr a) (h : Located (pair a A formatted) x n) :
    ∃ front back, A.nodes = front ++ n :: back ∧
      x = a + SECTOR_HDR_DATA_SIZE + nodesLen front := by
  obtain ⟨sec, front, back, hsec, hnodes, hx⟩ := h
  rcases ha.eq_or_other hsec with rfl | rfl
  · rw [pair_self] at hnodes
    exact ⟨front, back, hnodes, hx⟩
  · rw [pair_other ha] at hnodes
    exact absurd hnodes.symm (List.append_ne_nil_of_right_ne_nil _ (List.cons_ne_nil _ _))

theorem live_pair (ha : SectorAddr a) (h : Live (pair a A formatted) x n) :
    n.status = .write ∧ ∃ front back, A.nodes = front ++ n :: back ∧
      x = a + SECTOR_HDR_DATA_SIZE + nodesLen front :=
  ⟨h.2, located_pair ha h.1⟩

theorem live_of_mem (ha : SectorAddr a) (h : n ∈ liveNodes A.nodes) :
    ∃ x, Live (pair a A formatted) x n := by
  obtain ⟨hmem, hstatus⟩ := mem_liveNodes.mp h
  obtain ⟨front, back, hnodes⟩ := List.append_of_mem hmem
  exact ⟨_, ⟨a, front, back, ha, by rw [pair_self]; exact hnodes, rfl⟩, hstatus⟩

theorem contents_of_mem {K : CStr → Prop} (h : Settled K A) (hmem : n ∈ A.nodes)
    (hstatus : n.status = .write) : contents A.nodes n.key = some n.value :=
  (contents_eq_some_iff h.distinct).mpr ⟨n, mem_liveNodes.mpr ⟨hmem, hstatus⟩, rfl, rfl⟩

theorem names_pair {K : CStr → Prop} (ha : SectorAddr a) (h : ∀ n ∈ A.nodes, K n.key) :
    Names (pair a A formatted) K := by
  intro b hb n hn
  rcases ha.eq_or_other hb with rfl | rfl
  · rw [pair_self] at hn
    exact h n hn
  · rw [pair_other ha] at hn
    exact absurd hn List.not_mem_nil

end

/-! ## What the calls make of a sector -/

section

variable {K : CStr → Prop} {A : SectorDesc} {front back : List Node} {n : Node}

theorem mem_of_nodes (h : A.nodes = front ++ n :: back) : n ∈ A.nodes := by
  rw [h]
  exact List.mem_append_right _ List.mem_cons_self

/-- Marking a variable does not move the end of the sector. -/
theorem free_mark (h : A.nodes = front ++ n :: back) (st : EnvStatus) (a : Nat) :
    (A.mark front n back st).free a = A.free a := by
  unfold SectorDesc.free
  rw [h]
  exact congrArg (a + SECTOR_HDR_DATA_SIZE + ·) (nodesLen_mark front n back st)

theorem room_mark (h : A.nodes = front ++ n :: back) (st : EnvStatus) :
    (A.mark front n back st).room = A.room := by
  unfold SectorDesc.room
  rw [h]
  exact congrArg (SECTOR_SIZE - SECTOR_HDR_DATA_SIZE - ·) (nodesLen_mark front n back st)

/-- A variable that counts is deleted. -/
theorem Settled.mark (h : Settled K A) (hnodes : A.nodes = front ++ n :: back)
    (hstatus : n.status = .write) :
    Settled K (A.mark front n back .deleted) ∧
      contents (A.mark front n back .deleted).nodes =
        Function.update (contents A.nodes) n.key none := by
  have hdeleted : EnvStatus.deleted ≠ .write := by decide
  have hlive : liveNodes A.nodes = liveNodes front ++ n :: liveNodes back := by
    rw [hnodes, liveNodes_append, liveNodes_cons_of_live hstatus]
  have hlive' : liveNodes (A.mark front n back .deleted).nodes =
      liveNodes front ++ liveNodes back := by
    change liveNodes (front ++ { n with status := .deleted } :: back) = _
    rw [liveNodes_append, liveNodes_cons_of_dead hdeleted]
  obtain ⟨hdistinct, hcontents⟩ := contents_erase h.distinct hlive hlive'
  have hmem (n' : Node) (hn' : n' ∈ (A.mark front n back .deleted).nodes) :
      n' = { n with status := .deleted } ∨ n' ∈ A.nodes := by
    rw [hnodes]
    rcases List.mem_append.mp hn' with hn' | hn'
    · exact .inr (List.mem_append_left _ hn')
    · rcases List.mem_cons.mp hn' with rfl | hn'
      · exact .inl rfl
      · exact .inr (List.mem_append_right _ (List.mem_cons_of_mem _ hn'))
  have hdirty : (A.mark front n back .deleted).dirty = .true := by
    change (if A.dirty = .false then SectorDirtyStatus.true else A.dirty) = .true
    rcases h.dirty with hdirty | ⟨hdirty, -⟩
    all_goals
      rw [hdirty]
      rfl
  refine ⟨⟨h.packed.mark hnodes .deleted, ?_, ?_, hdistinct, .inr ⟨hdirty, ?_⟩, ?_, ?_⟩, hcontents⟩
  · intro n' hn'
    rcases hmem n' hn' with rfl | hn'
    · exact .inr rfl
    · exact h.status n' hn'
  · intro n' hn'
    rcases hmem n' hn' with rfl | hn'
    · exact h.keys n (mem_of_nodes hnodes)
    · exact h.keys n' hn'
  · exact List.append_ne_nil_of_right_ne_nil _ (List.cons_ne_nil _ _)
  · intro hclean
    rw [hdirty] at hclean
    cases hclean
  · intro hfull
    have hlittle := h.full hfull
    rw [hnodes] at hlittle
    change _ < nodesLen (front ++ { n with status := .deleted } :: back) + _
    rw [nodesLen_mark]
    exact hlittle

/-- A variable is added under a name that is not used. -/
theorem Settled.add (h : Settled K A) (hempty : A.store = .empty → A.nodes = [])
    (hst : A.store = .empty ∨ A.store = .inUse) (hroom : n.len < A.room) (hkey : K n.key)
    (hstatus : n.status = .write) (hnew : contents A.nodes n.key = none) :
    Settled K (A.add n) ∧
      contents (A.add n).nodes = Function.update (contents A.nodes) n.key (some n.value) := by
  have hlive : liveNodes (A.add n).nodes = liveNodes A.nodes ++ [n] := by
    change liveNodes (A.nodes ++ [n]) = _
    rw [liveNodes_append, liveNodes_cons_of_live hstatus]
    rfl
  obtain ⟨hdistinct, hcontents⟩ := contents_concat h.distinct hlive hnew
  refine ⟨⟨h.packed.add hst hempty hroom, ?_, ?_, hdistinct, ?_, ?_, ?_⟩, hcontents⟩
  · intro n' hn'
    rcases List.mem_append.mp hn' with hn' | hn'
    · exact h.status n' hn'
    · rw [List.mem_singleton.mp hn']
      exact .inl hstatus
  · intro n' hn'
    rcases List.mem_append.mp hn' with hn' | hn'
    · exact h.keys n' hn'
    · rw [List.mem_singleton.mp hn']
      exact hkey
  · rcases h.dirty with hclean | ⟨hdirty, -⟩
    · exact .inl hclean
    · exact .inr ⟨hdirty, List.append_ne_nil_of_right_ne_nil _ (List.cons_ne_nil _ _)⟩
  · intro hclean n' hn'
    rcases List.mem_append.mp hn' with hn' | hn'
    · exact h.clean hclean n' hn'
    · rw [List.mem_singleton.mp hn']
      exact hstatus
  · intro hfull
    have hcut : A.room = SECTOR_SIZE - SECTOR_HDR_DATA_SIZE - nodesLen A.nodes := rfl
    have hthreshold : EF_SEC_REMAIN_THRESHOLD = 56 := rfl
    change A.storeAfter n.len = .full at hfull
    change _ < nodesLen (A.nodes ++ [n]) + _
    rw [nodesLen_append, nodesLen_cons, nodesLen_nil]
    unfold SectorDesc.storeAfter at hfull
    rcases hst with hst | hst
    · rw [hst] at hfull
      cases hfull
    · rw [hst] at hfull
      dsimp only at hfull
      split_ifs at hfull
      omega

/-- Marking a variable in two steps, before and behind the new one, is deleting it first. -/
theorem mark_add_mark (A : SectorDesc) (front : List Node) (n : Node) (back : List Node)
    (n' : Node) :
    ((A.mark front n back .preDelete).add n').mark front { n with status := .preDelete }
        (back ++ [n']) .deleted = (A.mark front n back .deleted).add n' := by
  have hroom : (A.mark front n back .preDelete).room = (A.mark front n back .deleted).room := by
    unfold SectorDesc.room
    change SECTOR_SIZE - SECTOR_HDR_DATA_SIZE -
        nodesLen (front ++ { n with status := .preDelete } :: back) =
      SECTOR_SIZE - SECTOR_HDR_DATA_SIZE -
        nodesLen (front ++ { n with status := .deleted } :: back)
    rw [nodesLen_mark front n back .preDelete, nodesLen_mark front n back .deleted]
  have hstore : (A.mark front n back .preDelete).storeAfter n'.len =
      (A.mark front n back .deleted).storeAfter n'.len := by
    unfold SectorDesc.storeAfter
    rw [hroom]
    rfl
  have hdirty : (if A.dirty = .false then SectorDirtyStatus.true else A.dirty) ≠ .false := by
    by_cases hclean : A.dirty = .false
    · rw [if_pos hclean]
      decide
    · rw [if_neg hclean]
      exact hclean
  unfold SectorDesc.add
  rw [hstore]
  unfold SectorDesc.mark
  dsimp only
  rw [if_neg hdirty, List.append_assoc, List.cons_append]

end

/-! ## The calls -/

/-- The cached addresses stay right when the name of a variable is taken out. -/
theorem envCacheOk_remove {d : Nat → SectorDesc} {table : List EnvCacheNode} {name : List UInt8}
    (h : EnvCached (fun c x => c ≠ nameCrc name → ∃ n, Live d x n ∧ nameCrc n.key.bytes = c)
      (view table)) : EnvCacheOk d (updateEnvCache table name FAILED_ADDR) :=
  (envCached_delete h name).mono fun _ _ hold => hold.2 hold.1

/-- A variable is created where there was room for it. -/
theorem createEnvBlob_spec {s : Store} {a : Nat} {A B : SectorDesc}
    (h : Represents s (pair a A B)) (ha : SectorAddr a) {sector : SectorMeta}
    (hsector : sector.Of a A) (hempty : sector.empty_env = A.free a)
    (hst : A.store = .empty ∨ A.store = .inUse) {key : CStr} (value : List UInt8)
    (hname : key.strlen ≤ EF_ENV_NAME_MAX) (hroom : (Node.mk .write key value).len < A.room) :
    ∃ m table, createEnvBlob s sector key value =
        ({ s with
          flash := m
          sector_cache_table := table
          env_cache_table := updateEnvCache s.env_cache_table key.bytes (A.free a)
          gc_request := s.gc_request ||
            decide (A.storeAfter (Node.mk .write key value).len = .full) }, .noErr) ∧
      Represents { s with flash := m, sector_cache_table := table }
        (pair a (A.add ⟨.write, key, value⟩) B) := by
  have hfree : A.free a ≠ FAILED_ADDR := by
    have hne := (h.image a ha).free_ne_failed ha
    rwa [pair_self] at hne
  have hle : ¬((envHdrOf key value).len > SECTOR_SIZE - SECTOR_HDR_DATA_SIZE) := by
    have hlen : (envHdrOf key value).len = (Node.mk .write key value).len := rfl
    unfold SectorDesc.room at hroom
    omega
  obtain ⟨m, table, hwrite, hrep⟩ := writeEnvAt_spec h ha (by rw [pair_self]; exact hsector)
    (by rw [pair_self]; exact hst) value hname (by rw [pair_self]; exact hroom)
  rw [pair_self] at hwrite
  rw [pair_self, update_pair_self] at hrep
  refine ⟨m, table, ?_, hrep⟩
  unfold createEnvBlob
  rw [if_neg (Nat.not_lt.mpr hname), if_neg hle, hempty, if_pos hfree, hwrite]

namespace Resting

variable {K : CStr → Prop} {s : Store} {a : Nat} {A : SectorDesc} {key : CStr}

/-- The search finds a variable exactly where the map has it. -/
theorem find (h : Resting K s a A) (hclash : NoClash K) (hkey : K key) :
    ∃ table, Resting K { s with env_cache_table := table } a A ∧
      (findEnv s key {}).1 = { s with env_cache_table := table } ∧
      ((findEnv s key {}).2.2 = Bool.true ∧ (∃ front n back, A.nodes = front ++ n :: back ∧
          n.status = .write ∧ n.key = key ∧
          (findEnv s key {}).2.1 = n.obj (a + SECTOR_HDR_DATA_SIZE + nodesLen front)) ∨
        (findEnv s key {}).2.2 = Bool.false ∧ contents A.nodes key = none) := by
  obtain ⟨table, hcached, hstate, hsearch⟩ := findEnv_spec h.represents h.cached hclash
    (names_pair h.addr h.settled.keys) hkey {}
  refine ⟨table, ?_, hstate, ?_⟩
  · exact ⟨h.addr, h.represents.congr rfl rfl, hcached, h.settled, h.gc_request,
      h.in_recovery_check, h.last_is_complete_del, h.init_ok⟩
  · rcases hsearch with ⟨hfound, x, n, hn, hname, hobj⟩ | ⟨hfound, hnone⟩
    · obtain ⟨hstatus, front, back, hnodes, rfl⟩ := live_pair h.addr hn
      exact .inl ⟨hfound, front, n, back, hnodes, hstatus, hname, hobj⟩
    · refine .inr ⟨hfound, contents_eq_none_iff.mpr ?_⟩
      intro n hn
      obtain ⟨x, hx⟩ := live_of_mem h.addr hn
      exact hnone x n hx

/-- What is left to do after a call is a collection, if one was asked for. -/
theorem finish (h : Resting K { s with gc_request := Bool.false } a A) :
    ∃ b B, Resting K (if s.gc_request then gcCollect s else s) b B ∧
      contents B.nodes = contents A.nodes := by
  cases hgc : s.gc_request with
  | false =>
      rw [if_neg Bool.false_ne_true]
      rw [← hgc] at h
      exact ⟨a, A, h, rfl⟩
  | true =>
      rw [if_pos rfl]
      have hsame : { { s with gc_request := Bool.false } with gc_request := Bool.true } = s := by
        rw [← hgc]
      obtain ⟨b, B, hdone, hlive⟩ := h.gc
      rw [hsame] at hdone
      refine ⟨b, B, hdone, ?_⟩
      rw [hlive, contents_liveNodes]

/-- A variable that is not there is created. -/
theorem create (h : Resting K s a A) (hkey : K key) (hname : key.strlen ≤ EF_ENV_NAME_MAX)
    (value : List UInt8) (hst : A.store = .empty ∨ A.store = .inUse)
    (hroom : (Node.mk .write key value).len < A.room) (hnone : contents A.nodes key = none) :
    let c := createEnvBlob s (A.read a) key value
    c.2 = .noErr ∧
      Resting K { c.1 with gc_request := Bool.false } a (A.add ⟨.write, key, value⟩) := by
  obtain ⟨m, t, hcreate, hrep⟩ := createEnvBlob_spec h.represents h.addr (A.read_of a) rfl hst value
    hname hroom
  have hold := h.cached
  unfold EnvCacheOk at hold
  have hcached := envCacheOk_add (n := ⟨.write, key, value⟩) (hold.mono fun c x hx _ => hx) h.addr
    rfl
  rw [pair_self, update_pair_self] at hcached
  obtain ⟨hsettled, -⟩ := h.settled.add (n := ⟨.write, key, value⟩) h.ok.empty.mp hst hroom hkey rfl
    hnone
  dsimp only
  rw [hcreate]
  exact ⟨rfl, h.addr, hrep.congr rfl rfl, hcached, hsettled, rfl, h.in_recovery_check,
    h.last_is_complete_del, h.init_ok⟩

/-- The part of {lit}`set_env` behind the search for room. -/
theorem write (h : Resting K s a A) (hclash : NoClash K) (hkey : K key)
    (hname : key.strlen ≤ EF_ENV_NAME_MAX) (value : List UInt8)
    (hst : A.store = .empty ∨ A.store = .inUse) (hroom : (Node.mk .write key value).len < A.room) :
    let f := findEnv s key {}
    let s₁ := if f.2.2 then delEnvObj f.1 (some key) f.2.1 Bool.false else f.1
    let c := createEnvBlob s₁ (A.read a) key value
    let s₂ := if f.2.2 ∧ c.2 = .noErr then delEnvObj c.1 (some key) f.2.1 Bool.true else c.1
    c.2 = .noErr ∧ ∃ B, Resting K { s₂ with gc_request := Bool.false } a B ∧
      contents B.nodes = Function.update (contents A.nodes) key (some value) := by
  obtain ⟨table, hrest, hstate, hcase⟩ := h.find hclash hkey
  have ha := h.addr
  rcases hcase with ⟨hfound, front, n, back, hnodes, hstatus, rfl, hobj⟩ | ⟨hfound, hnone⟩
  · -- The old variable is marked, the new one is created, and the old one is deleted.
    have hnodes' : (pair a A formatted a).nodes = front ++ n :: back := by
      rw [pair_self]
      exact hnodes
    obtain ⟨m₁, hdel₁, hrep₁⟩ := delEnvObj_spec hrest.represents ha hnodes'
      (n.obj (a + SECTOR_HDR_DATA_SIZE + nodesLen front)) rfl (some n.key) Bool.false
      (by rw [hstatus]; decide)
    have hcached₁ := hrest.cached.mark hrest.represents.image ha hnodes' .preDelete
    rw [pair_self, update_pair_self] at hrep₁ hcached₁
    rw [if_neg fun hall => absurd hall.1 Bool.false_ne_true] at hdel₁
    let A₁ := A.mark front n back .preDelete
    have hfree₁ : A₁.free a = A.free a := free_mark hnodes .preDelete a
    have hroom₁ : A₁.room = A.room := room_mark hnodes .preDelete
    let s₁ : Store := { s with
      flash := m₁, env_cache_table := table, last_is_complete_del := Bool.true }
    have hrep₁' : Represents s₁ (pair a A₁ formatted) := hrep₁.congr rfl rfl
    have hof : (A.read a).Of a A₁ := ⟨rfl, rfl, hroom₁.symm⟩
    obtain ⟨m₂, t₂, hcreate, hrep₂⟩ := createEnvBlob_spec hrep₁' ha hof hfree₁.symm hst value
      hname (by rw [hroom₁]; exact hroom)
    have hcached₂ := envCacheOk_add (n := ⟨.write, n.key, value⟩) hcached₁ ha rfl
    rw [pair_self, update_pair_self] at hcached₂
    have hnodes₂ : (pair a (A₁.add ⟨.write, n.key, value⟩) formatted a).nodes =
        front ++ { n with status := EnvStatus.preDelete } ::
          (back ++ [⟨.write, n.key, value⟩]) := by
      rw [pair_self]
      change front ++ { n with status := EnvStatus.preDelete } :: back ++ [_] = _
      rw [List.append_assoc, List.cons_append]
    have hle : EnvStatus.preDelete.index ≤ (delStatus Bool.true).index := by decide
    have hdead : EnvStatus.preDelete ≠ .write := by decide
    obtain ⟨m₃, hdel₃, hrep₃⟩ := delEnvObj_spec
      (s := (createEnvBlob s₁ (A.read a) n.key value).1)
      (by rw [hcreate]; exact hrep₂.congr rfl rfl)
      ha hnodes₂ (n.obj (a + SECTOR_HDR_DATA_SIZE + nodesLen front)) rfl (some n.key) Bool.true hle
    have hcached₃ := hcached₂.mark_dead hnodes₂ hdead .deleted
    rw [pair_self, update_pair_self] at hrep₃ hcached₃
    rw [show delStatus Bool.true = .deleted from rfl] at hrep₃
    rw [mark_add_mark] at hrep₃ hcached₃
    obtain ⟨hmark, herased⟩ := h.settled.mark hnodes hstatus
    have hused : A.store ≠ .empty := h.store_ne_empty (List.ne_nil_of_mem (mem_of_nodes hnodes))
    obtain ⟨hsettled, hcontents⟩ := hmark.add (n := ⟨.write, n.key, value⟩)
      (fun hempty => absurd hempty hused) hst (by rw [room_mark hnodes]; exact hroom) hkey rfl
      (by rw [herased]; exact Function.update_self _ _ _)
    have hs₁ : delEnvObj { s with env_cache_table := table } (some n.key)
        (n.obj (a + SECTOR_HDR_DATA_SIZE + nodesLen front)) Bool.false = s₁ := hdel₁
    have hok : (createEnvBlob s₁ (A.read a) n.key value).2 = .noErr := by rw [hcreate]
    dsimp only
    rw [hstate, hfound, hobj, if_pos rfl, hs₁, if_pos ⟨rfl, hok⟩, hdel₃]
    refine ⟨hok, (A.mark front n back .deleted).add ⟨.write, n.key, value⟩, ?_, ?_⟩
    · rw [hcreate]
      rw [hcreate] at hrep₃
      refine ⟨ha, hrep₃.congr rfl rfl, ?_, hsettled, rfl, h.in_recovery_check, rfl, h.init_ok⟩
      dsimp only
      rw [if_neg fun hall => hall.2 rfl]
      exact hcached₃
    · rw [hcontents, herased]
      exact Function.update_idem _ _ _
  · dsimp only
    rw [hstate, hfound, if_neg Bool.false_ne_true]
    obtain ⟨hok, hdone⟩ := hrest.create hkey hname value hst hroom hnone
    obtain ⟨-, hcontents⟩ := h.settled.add (n := ⟨.write, key, value⟩) h.ok.empty.mp hst hroom hkey
      rfl hnone
    rw [if_neg fun hall => absurd hall.1 Bool.false_ne_true]
    exact ⟨hok, A.add ⟨.write, key, value⟩, hdone, hcontents⟩

/-- A variable is set, unless the variables that count do not leave enough of a sector. -/
theorem set (h : Resting K s a A) (hclash : NoClash K) (hkey : K key)
    (hname : key.strlen ≤ EF_ENV_NAME_MAX) (value : List UInt8) :
    (efSetEnvBlob s key value).2 = .envFull ∧
        SECTOR_SIZE - SECTOR_HDR_DATA_SIZE < nodesLen (liveNodes A.nodes) +
          (Node.mk .write key value).len + EF_SEC_REMAIN_THRESHOLD ∨
      (efSetEnvBlob s key value).2 = .noErr ∧
        ∃ b B, Resting K (efSetEnvBlob s key value).1 b B ∧
          contents B.nodes = Function.update (contents A.nodes) key (some value) := by
  have hsize : ENV_HDR_DATA_SIZE + key.strlen + value.length = (Node.mk .write key value).len := rfl
  unfold efSetEnvBlob
  rw [h.init_ok, if_neg (not_not.mpr rfl)]
  unfold setEnv newEnvByKv
  dsimp only
  rw [hsize]
  rcases h.new {} (Node.mk .write key value).len with
    ⟨hfail, hlittle⟩ | ⟨b, B, hrest, hsame, hroom⟩
  · rw [if_pos hfail]
    exact .inl ⟨rfl, hlittle⟩
  · rw [hroom.addr, if_neg hrest.free_ne_failed, hroom.sector]
    obtain ⟨hok, B', hwritten, hcontents⟩ :=
      hrest.write hclash hkey hname value hroom.store hroom.room
    obtain ⟨b'', B'', hdone, hkept⟩ := hwritten.finish
    refine .inr ⟨hok, b'', B'', hdone, ?_⟩
    rw [hkept, hcontents, hsame]

/-- A variable is deleted, if it is there. -/
theorem delete (h : Resting K s a A) (hclash : NoClash K) (hkey : K key) :
    ∃ B, Resting K (efDelEnv s key).1 a B ∧
      contents B.nodes = Function.update (contents A.nodes) key none ∧
      (efDelEnv s key).2 =
        if (contents A.nodes key).isSome then EfErrCode.noErr else .envNameErr := by
  obtain ⟨table, hrest, hstate, hcase⟩ := h.find hclash hkey
  unfold efDelEnv
  rw [h.init_ok, if_neg (not_not.mpr rfl)]
  unfold delEnv
  dsimp only
  rcases hcase with ⟨hfound, front, n, back, hnodes, hstatus, rfl, hobj⟩ | ⟨hfound, hnone⟩
  · have hnodes' : (pair a A formatted a).nodes = front ++ n :: back := by
      rw [pair_self]
      exact hnodes
    obtain ⟨m, hdel, hrep⟩ := delEnvObj_spec hrest.represents h.addr hnodes'
      (n.obj (a + SECTOR_HDR_DATA_SIZE + nodesLen front)) rfl (some n.key) Bool.true
      (by rw [hstatus]; decide)
    have hcached := hrest.cached.mark hrest.represents.image h.addr hnodes' .deleted
    rw [pair_self, update_pair_self] at hrep hcached
    obtain ⟨hsettled, hcontents⟩ := h.settled.mark hnodes hstatus
    have hthere : (contents A.nodes n.key).isSome := by
      rw [contents_of_mem h.settled (mem_of_nodes hnodes) hstatus]
      rfl
    have hlast : Bool.true = Bool.true ∧
        ¬({ s with env_cache_table := table }.last_is_complete_del = Bool.true) := by
      rw [hrest.last_is_complete_del]
      exact ⟨rfl, Bool.false_ne_true⟩
    rw [hstate, hfound, hobj, if_pos rfl, hdel, if_pos hlast, if_pos hthere]
    exact ⟨A.mark front n back .deleted, ⟨h.addr, hrep.congr rfl rfl, envCacheOk_remove hcached,
      hsettled, h.gc_request, h.in_recovery_check, rfl, h.init_ok⟩, hcontents, rfl⟩
  · rw [hstate, hfound, if_neg Bool.false_ne_true, hnone]
    refine ⟨A, hrest, ?_, rfl⟩
    rw [← hnone, Function.update_eq_self]

/-- A variable is read. -/
theorem get (h : Resting K s a A) (hclash : NoClash K) (hkey : K key) (buf_len : Nat) :
    Resting K (efGetEnvBlob s key buf_len).1 a A ∧
      (efGetEnvBlob s key buf_len).2 =
        (contents A.nodes key).map fun value => (value.take buf_len, value.length) := by
  obtain ⟨table, hcached, hstate, hcase⟩ := getEnv_spec h.represents h.cached hclash
    (names_pair h.addr h.settled.keys) hkey buf_len
  unfold efGetEnvBlob
  rw [h.init_ok, if_neg (not_not.mpr rfl), hstate]
  refine ⟨⟨h.addr, h.represents.congr rfl rfl, hcached, h.settled, h.gc_request,
    h.in_recovery_check, h.last_is_complete_del, h.init_ok⟩, ?_⟩
  rcases hcase with ⟨x, n, hn, rfl, hvalue⟩ | ⟨hnone, hvalue⟩
  · obtain ⟨hstatus, front, back, hnodes, -⟩ := live_pair h.addr hn
    rw [hvalue, contents_of_mem h.settled (mem_of_nodes hnodes) hstatus]
    rfl
  · have habsent : contents A.nodes key = none := by
      refine contents_eq_none_iff.mpr fun n hn => ?_
      obtain ⟨x, hx⟩ := live_of_mem h.addr hn
      exact hnone x n hx
    rw [hvalue, habsent]
    rfl

end Resting

end EasyFlash

end WeatherStation
