import WeatherStation.Storage.EnvCalls

/-!
# Runs of the store

A new flash is formatted and takes the default variables, and a store that was left between two
calls is found again as it was.  From there on the store answers every run of calls and power
cycles as a map from names to values does, as long as it does not get full.

Main results:

- Theorem {lit}`efEnvInit_fresh`: a flash without headers becomes a store.
- Theorem {lit}`Resting.restart`: after a power cycle the contents are the same.
- Theorem {lit}`Resting.run`: a run in which the store does not get full answers as the map does.
-/

open Foundation

namespace WeatherStation

namespace EasyFlash

/-! ## Nothing to recover -/

section Recovery

variable {s : Store} {d : Nat → SectorDesc}

/-- Where the headers are in order the check of the headers changes nothing. -/
theorem checkSecHdr_spec (h : Represents s d) (sector : SectorMeta) :
    let r := sectorIterator s sector .unused 0 checkSecHdrCb Bool.false
    r.1 = s ∧ r.2.2 = 0 := by
  have hbody (a : Nat) (ha : SectorAddr a) (sector : SectorMeta) :
      sectorIteratorBody .unused checkSecHdrCb Bool.false s a sector 0 =
        (s, sector.header a (d a), 0, Bool.false) := by
    have hcheck : (sector.header a (d a)).check_ok = Bool.true := rfl
    unfold sectorIteratorBody
    rw [readSectorMetaData_header h ha]
    dsimp only
    rw [if_pos (.inl rfl), if_neg Bool.false_ne_true, checkSecHdrCb, hcheck,
      if_neg (not_not.mpr rfl)]
  unfold sectorIterator
  apply forEachSector_sectors (P := fun s' n => s' = s ∧ n = 0) (Q := fun s' _ n => s' = s ∧ n = 0)
  · intro sector
    rw [hbody 0 (.inl rfl)]
    exact ⟨fun hstop => absurd hstop Bool.false_ne_true, fun _ => ⟨rfl, rfl, rfl, rfl⟩⟩
  · rintro s' sector n ⟨rfl, rfl⟩
    rw [hbody SECTOR_SIZE (.inr rfl)]
    exact ⟨rfl, rfl⟩

/-- Where no collection was interrupted there is none to resume. -/
theorem checkAndRecoveryGc_spec (h : Represents s d)
    (hdirty : ∀ a, SectorAddr a → (d a).dirty ≠ .gc) (sector : SectorMeta) :
    (sectorIterator s sector .unused () checkAndRecoveryGcCb Bool.false).1 = s := by
  have hbody (a : Nat) (ha : SectorAddr a) (sector : SectorMeta) :
      sectorIteratorBody .unused checkAndRecoveryGcCb Bool.false s a sector () =
        (s, sector.header a (d a), (), Bool.false) := by
    have hno : ¬((sector.header a (d a)).check_ok ∧ (sector.header a (d a)).dirty = .gc) :=
      fun hall => hdirty a ha hall.2
    unfold sectorIteratorBody
    rw [readSectorMetaData_header h ha]
    dsimp only
    rw [if_pos (.inl rfl), if_neg Bool.false_ne_true, checkAndRecoveryGcCb, if_neg hno]
  unfold sectorIterator
  apply forEachSector_sectors (P := fun s' _ => s' = s) (Q := fun s' _ _ => s' = s)
  · intro sector
    rw [hbody 0 (.inl rfl)]
    exact ⟨fun hstop => absurd hstop Bool.false_ne_true, fun _ => ⟨rfl, rfl, rfl⟩⟩
  · rintro s' sector - rfl
    rw [hbody SECTOR_SIZE (.inr rfl)]

/-- Where every variable was written or deleted there is none to recover. -/
theorem checkAndRecoveryEnv_spec (h : Represents s d)
    (hstatus : ∀ a, SectorAddr a → ∀ n ∈ (d a).nodes, n.status = .write ∨ n.status = .deleted)
    (env : EnvNodeObj) : (envIterator checkAndRecoveryEnvCb s env ()).1 = s := by
  have hcb (n : Node) (x : Nat) (hn : n.status = .write ∨ n.status = .deleted) :
      checkAndRecoveryEnvCb s (n.obj x) () = (s, (), Bool.false) := by
    have hsame : (n.obj x).status = n.status := rfl
    unfold checkAndRecoveryEnvCb
    rw [hsame]
    rcases hn with hn | hn
    all_goals
      rw [hn]
      rfl
  have hbody (a : Nat) (ha : SectorAddr a) (sector : SectorMeta) (acc : EnvNodeObj × Unit) :
      let b := envIteratorBody checkAndRecoveryEnvCb s a sector acc
      b.1 = s ∧ b.2.1.addr = a ∧ b.2.1.combined = SECTOR_NOT_COMBINED ∧ b.2.2.2 = Bool.false := by
    unfold envIteratorBody
    rw [readSectorMetaData_header h ha]
    dsimp only
    have hstore : (sector.header a (d a)).store = (d a).store := rfl
    rw [hstore]
    split_ifs with hused
    · have hne : (d a).store ≠ .empty := by
        rcases hused with hused | hused
        all_goals
          rw [hused]
          decide
      have hnodes : (d a).nodes ≠ [] := fun hnil => hne ((h.ok a ha).empty.mpr hnil)
      have haddr : (sector.header a (d a)).addr = a := rfl
      have hrun := forEachEnv_nodes checkAndRecoveryEnvCb
        (I := fun front back s' _ => s' = s ∧ front ++ back = (d a).nodes)
        (Q := fun _ _ _ => False) haddr hne ?hvisit ?hstep hnodes s acc.2 ⟨rfl, rfl⟩ acc.1
      case hvisit =>
        rintro front back s' - ⟨rfl, hsplit⟩
        rw [hsplit]
        exact h.visitable ha
      case hstep =>
        rintro front n back s' - ⟨rfl, hsplit⟩
        have hmem : n ∈ (d a).nodes := by
          rw [← hsplit]
          exact List.mem_append_right _ List.mem_cons_self
        rw [hcb n _ (hstatus a ha n hmem)]
        refine ⟨fun hstop => absurd hstop Bool.false_ne_true, fun _ => ⟨n, rfl, rfl, ?_⟩⟩
        rw [List.append_assoc]
        exact hsplit
      rcases hrun with ⟨-, hno⟩ | ⟨hgo, front, hs, -⟩
      · exact hno.elim
      · exact ⟨hs, rfl, rfl, hgo⟩
    · exact ⟨rfl, rfl, rfl, rfl⟩
  have hrun := forEachSector_sectors (envIteratorBody checkAndRecoveryEnvCb)
    (P := fun s' _ => s' = s) (Q := fun s' _ _ => s' = s) s { addr := FAILED_ADDR } (env, ())
    ?hfirst ?hsecond
  case hfirst =>
    intro sector
    obtain ⟨hs, haddr, hcombined, hgo⟩ := hbody 0 (.inl rfl) sector (env, ())
    exact ⟨fun _ => hs, fun _ => ⟨haddr, hcombined, hs⟩⟩
  case hsecond =>
    rintro s' sector acc rfl
    exact (hbody SECTOR_SIZE (.inr rfl) sector acc).1
  exact hrun

end Recovery

section Load

variable {s : Store} {a : Nat} {A : SectorDesc}

theorem forall_pair {P : SectorDesc → Prop} (ha : SectorAddr a) (hA : P A)
    (hformatted : P formatted) :
    ∀ b, SectorAddr b → P (pair a A formatted b) := by
  intro b hb
  rcases ha.eq_or_other hb with rfl | rfl
  · rwa [pair_self]
  · rwa [pair_other ha]

/-- Behind the check of the headers nothing is left to do. -/
theorem loadRetry_spec (h : Represents s (pair a A formatted)) (ha : SectorAddr a)
    (hstatus : ∀ n ∈ A.nodes, n.status = .write ∨ n.status = .deleted) (hdirty : A.dirty ≠ .gc)
    (hgc : s.gc_request = Bool.false) (rounds : Nat) (sector : SectorMeta) :
    loadRetry (rounds + 1)
      (sectorIterator s sector .unused () checkAndRecoveryGcCb Bool.false).1 {} = some s := by
  have hclean : ∀ b, SectorAddr b → (pair a A formatted b).dirty ≠ .gc :=
    forall_pair (P := fun d => d.dirty ≠ .gc) ha hdirty (by decide)
  have hall : ∀ b, SectorAddr b → ∀ n ∈ (pair a A formatted b).nodes,
      n.status = .write ∨ n.status = .deleted :=
    forall_pair (P := fun d => ∀ n ∈ d.nodes, n.status = .write ∨ n.status = .deleted) ha hstatus
      fun n hn => absurd hn List.not_mem_nil
  rw [checkAndRecoveryGc_spec h hclean, loadRetry]
  rw [checkAndRecoveryEnv_spec h hall, hgc, if_neg Bool.false_ne_true]

end Load

/-! ## A new flash -/

section Fresh

variable {s : Store}

/-- Formatting a sector leaves an empty cache empty. -/
theorem sectorCached_format (h : SectorCached (fun _ _ => False) s.sector_cache_table) (a : Nat) :
    SectorCached (fun _ _ => False)
      (formatSector s a SECTOR_NOT_COMBINED).sector_cache_table := by
  have hrange : ¬(a + SECTOR_SIZE > a ∧ a + SECTOR_SIZE < a + SECTOR_SIZE) := fun hall =>
    Nat.lt_irrefl _ hall.2
  exact (sectorCached_delete h hrange).mono fun _ _ hno => hno.2

/-- Both sectors are formatted. -/
def formatBoth (s : Store) : Store :=
  formatSector (formatSector s 0 SECTOR_NOT_COMBINED) SECTOR_SIZE SECTOR_NOT_COMBINED

theorem sectorCached_formatBoth (h : SectorCached (fun _ _ => False) s.sector_cache_table) :
    SectorCached (fun _ _ => False) (formatBoth s).sector_cache_table :=
  sectorCached_format (sectorCached_format h 0) SECTOR_SIZE

theorem formatBoth_spec (h : SectorCached (fun _ _ => False) s.sector_cache_table)
    (hrunning : s.halted = Bool.false) :
    Represents (formatBoth s) (pair 0 formatted formatted) := by
  have hlen : (sectorHdrBytes SECTOR_NOT_COMBINED).length = 16 := by decide
  have hsize : SECTOR_SIZE = 4096 := rfl
  have hzero : SectorAddr 0 := .inl rfl
  constructor
  · exact hrunning
  · intro b hb
    rcases hzero.eq_or_other hb with rfl | rfl
    · -- The second sector lies behind the first one.
      rw [pair_self]
      apply (SectorImage.format s.flash 0).congr
      intro x hx hx'
      have hout : ¬(SECTOR_SIZE ≤ x ∧ x < SECTOR_SIZE + SECTOR_SIZE) := by omega
      change (((s.flash.erase 0 SECTOR_SIZE).program 0
        (sectorHdrBytes SECTOR_NOT_COMBINED)).erase SECTOR_SIZE SECTOR_SIZE).program SECTOR_SIZE
          (sectorHdrBytes SECTOR_NOT_COMBINED) x = _
      rw [Memory.program_of_not_mem _ (by omega)]
      exact Memory.fill_of_not_mem _ hout
    · rw [pair_other hzero]
      exact SectorImage.format _ SECTOR_SIZE
  · exact forall_pair hzero ok_formatted ok_formatted
  · exact (sectorCached_formatBoth h).mono fun _ _ hno => hno.elim

/-- A flash has no header at the beginning of a sector. -/
def NoHeader (m : Memory) (a : Nat) : Prop :=
  m.word (a + SECTOR_MAGIC_OFFSET) ≠ SECTOR_MAGIC_WORD

instance (m : Memory) (a : Nat) : Decidable (NoHeader m a) :=
  inferInstanceAs (Decidable (_ ≠ _))

/-- Where no header is in order the check of the headers formats both sectors. -/
theorem checkSecHdr_fresh (hzero : NoHeader s.flash 0) (hsize : NoHeader s.flash SECTOR_SIZE)
    (sector : SectorMeta) :
    let r := sectorIterator s sector .unused 0 checkSecHdrCb Bool.false
    r.1 = formatBoth s ∧ r.2.2 = SECTOR_NUM := by
  have hbody (s : Store) (a : Nat) (ha : NoHeader s.flash a) (sector : SectorMeta) (n : Nat) :
      let b := sectorIteratorBody .unused checkSecHdrCb Bool.false s a sector n
      b.1 = formatSector s a SECTOR_NOT_COMBINED ∧ b.2.1.addr = a ∧
        b.2.1.combined = SECTOR_NOT_COMBINED ∧ b.2.2.1 = n + 1 ∧ b.2.2.2 = Bool.false := by
    have hread : readSectorMetaData s a sector Bool.false = (s, { sector with
        addr := a, magic := s.flash.word (a + SECTOR_MAGIC_OFFSET), check_ok := Bool.false,
        combined := SECTOR_NOT_COMBINED }, .envInitFailed) := if_pos ha
    unfold sectorIteratorBody
    rw [hread]
    dsimp only
    rw [if_pos (.inl rfl), if_neg Bool.false_ne_true]
    exact ⟨rfl, rfl, rfl, rfl, rfl⟩
  have hnum : SECTOR_NUM = 0 + 1 + 1 := rfl
  unfold sectorIterator
  apply forEachSector_sectors
    (P := fun s' n => s' = formatSector s 0 SECTOR_NOT_COMBINED ∧ n = 0 + 1)
    (Q := fun s' _ n => s' = formatBoth s ∧ n = SECTOR_NUM)
  · intro sector
    obtain ⟨hs, haddr, hcombined, hn, hgo⟩ := hbody s 0 hzero sector 0
    refine ⟨fun hstop => ?_, fun _ => ⟨haddr, hcombined, hs, hn⟩⟩
    rw [hgo] at hstop
    exact absurd hstop Bool.false_ne_true
  · rintro s' sector n ⟨rfl, rfl⟩
    have hkept : NoHeader (formatSector s 0 SECTOR_NOT_COMBINED).flash SECTOR_SIZE := by
      have hlen : (sectorHdrBytes SECTOR_NOT_COMBINED).length = 16 := by decide
      have hfour : SECTOR_SIZE = 4096 := rfl
      unfold NoHeader at hsize ⊢
      rw [← Memory.word_congr]
      · exact hsize
      · intro x hx hx'
        have hout : ¬(0 ≤ x ∧ x < 0 + SECTOR_SIZE) := by omega
        change s.flash x = ((s.flash.erase 0 SECTOR_SIZE).program 0
          (sectorHdrBytes SECTOR_NOT_COMBINED)) x
        rw [Memory.program_of_not_mem _ (by omega)]
        exact (Memory.fill_of_not_mem _ hout).symm
    obtain ⟨hs, -, -, hn, -⟩ := hbody _ SECTOR_SIZE hkept sector (0 + 1)
    exact ⟨hs, hn⟩

/-- The first variable of a new store. -/
theorem createEnvBlob_formatted (h : Represents s (pair 0 formatted formatted))
    (hgc : s.gc_request = Bool.false) {key : CStr} {value : List UInt8}
    (hname : key.strlen ≤ EF_ENV_NAME_MAX)
    (hroom : (Node.mk .write key value).len < formatted.room) :
    ∃ m table, (createEnvBlob s { empty_env := FAILED_ADDR } key value).1 =
        { s with
          flash := m
          sector_cache_table := table
          env_cache_table := updateEnvCache s.env_cache_table key.bytes (formatted.free 0) } ∧
      Represents { s with flash := m, sector_cache_table := table }
        (pair 0 (formatted.add ⟨.write, key, value⟩) formatted) := by
  have hzero : SectorAddr 0 := .inl rfl
  have hlen : (envHdrOf key value).len = (Node.mk .write key value).len := rfl
  have hfits : formatted.room = SECTOR_SIZE - SECTOR_HDR_DATA_SIZE := rfl
  have hunused (st : SectorStoreStatus) (hst : st ≠ .empty) :
      ¬(formatted.store = st ∧ formatted.Takes Bool.false (Node.mk .write key value).len) :=
    fun hall => hst hall.1.symm
  have hnone : firstFit (pair 0 formatted formatted) .inUse Bool.false
      (Node.mk .write key value).len = none :=
    firstFit_pair_none hzero (hunused .inUse (by decide)) (hunused .inUse (by decide))
  have htwo : countSectors (pair 0 formatted formatted) .empty = 2 := by
    rw [countSectors_pair hzero]
    rfl
  have hasks : ¬AsksForGc (pair 0 formatted formatted) Bool.false
      (Node.mk .write key value).len := by
    rintro ⟨-, hone⟩
    rw [htwo] at hone
    cases hone
  have hplace : allocPlace (pair 0 formatted formatted) Bool.false
      (Node.mk .write key value).len = some 0 := by
    have hmany : EF_GC_EMPTY_SEC_THRESHOLD < countSectors (pair 0 formatted formatted) .empty := by
      rw [htwo]
      decide
    unfold allocPlace
    rw [hnone]
    dsimp only
    rw [if_pos (.inl hmany), firstFit_eq, pair_self, if_pos ⟨rfl, hroom, .inl rfl⟩]
  obtain ⟨⟨t, hrep, hstate⟩, haddr, hsector⟩ :=
    allocEnv_spec h { empty_env := FAILED_ADDR } (Node.mk .write key value).len
  rw [hgc, decide_eq_false hasks, Bool.or_false] at hrep hstate
  rw [hgc, hplace] at haddr hsector
  have hread := hsector 0 rfl
  dsimp only at haddr
  rw [pair_self] at haddr hread
  have hfree : formatted.free 0 ≠ FAILED_ADDR := by decide
  let s₁ : Store := { s with sector_cache_table := t }
  have hs₁ : (allocEnv s { empty_env := FAILED_ADDR } (Node.mk .write key value).len).1 = s₁ := by
    rw [hstate, ← hgc]
  have hrep₁ : Represents s₁ (pair 0 formatted formatted) := hrep.congr rfl rfl
  have hnew : newEnv s { empty_env := FAILED_ADDR } (Node.mk .write key value).len =
      allocEnv s { empty_env := FAILED_ADDR } (Node.mk .write key value).len := by
    have hfound : ¬((allocEnv s { empty_env := FAILED_ADDR }
        (Node.mk .write key value).len).2.2 = FAILED_ADDR ∧ (allocEnv s { empty_env := FAILED_ADDR }
          (Node.mk .write key value).len).1.gc_request) := fun hall => hfree (haddr ▸ hall.1)
    exact if_neg hfound
  obtain ⟨m, table, hwrite, hrep₂⟩ := writeEnvAt_spec (d := pair 0 formatted formatted) hrep₁ hzero
    (by rw [pair_self]; exact formatted.read_of 0) (by rw [pair_self]; exact .inl rfl) value hname
    (by rw [pair_self]; exact hroom)
  rw [pair_self] at hwrite
  rw [pair_self, update_pair_self] at hrep₂
  have hnotfull : formatted.storeAfter (Node.mk .write key value).len ≠ .full := by
    have hafter : formatted.storeAfter (Node.mk .write key value).len = .inUse := rfl
    rw [hafter]
    decide
  refine ⟨m, table, ?_, hrep₂.congr rfl rfl⟩
  unfold createEnvBlob
  rw [if_neg (Nat.not_lt.mpr hname), hlen, if_neg (by omega), if_neg (not_not.mpr rfl)]
  dsimp only
  rw [hnew, haddr, if_pos hfree, hs₁, hread, hwrite, decide_eq_false hnotfull, Bool.or_false]

/-- The name of the default variable. -/
def bootTimes : CStr :=
  .ofChars "boot_times".toList

theorem sectorCached_failed {table : List SectorCacheNode} (h : ∀ e ∈ table, e.addr = FAILED_ADDR) :
    SectorCached (fun _ _ => False) table :=
  ⟨List.pairwise_of_forall_mem_list fun e he _ _ _ => h e he, fun e he hne => hne (h e he)⟩

theorem envCached_failed {P : UInt16 → Nat → Prop} {v : List (UInt16 × Nat)}
    (h : ∀ e ∈ v, e.2 = FAILED_ADDR) : EnvCached P v :=
  ⟨List.pairwise_of_forall_mem_list fun _ _ e he hne => absurd (h e he) hne,
    fun e he hne => absurd (h e he) hne⟩

/-- The state in which {lit}`ef_env_init` begins to load. -/
def Store.start (flash : Memory) : Store :=
  { Store.boot flash with
    sector_cache_table := (Store.boot flash).sector_cache_table.map
      fun e => { e with addr := FAILED_ADDR }
    env_cache_table := (Store.boot flash).env_cache_table.map
      fun e => { e with addr := FAILED_ADDR }
    in_recovery_check := Bool.true }

theorem sectorCached_start (flash : Memory) :
    SectorCached (fun _ _ => False) (Store.start flash).sector_cache_table := by
  apply sectorCached_failed
  intro e he
  obtain ⟨e', -, rfl⟩ := List.mem_map.mp he
  rfl

theorem envCached_start (flash : Memory) {P : UInt16 → Nat → Prop} :
    EnvCached P (view (Store.start flash).env_cache_table) := by
  apply envCached_failed
  intro e he
  obtain ⟨e', he', rfl⟩ := List.mem_map.mp he
  obtain ⟨e'', -, rfl⟩ := List.mem_map.mp he'
  rfl

/-- What {lit}`ef_env_init` comes back with, from what is left when it has loaded. -/
theorem efEnvInit_eq {flash : Memory} {rounds : Nat} {default_env_set : List EfEnv} (s' : Store)
    (h : let r := sectorIterator (Store.start flash) {} .unused 0 checkSecHdrCb Bool.false
      let s := if r.2.2 = SECTOR_NUM then efEnvSetDefault r.1 default_env_set else r.1
      loadRetry rounds (sectorIterator s r.2.1 .unused () checkAndRecoveryGcCb Bool.false).1 {} =
        some s') :
    efEnvInit rounds default_env_set (Store.boot flash) =
      some { s' with in_recovery_check := Bool.false, init_ok := Bool.true } := by
  have hload : efLoadEnv rounds default_env_set (Store.start flash) =
      some { s' with in_recovery_check := Bool.false } := by
    unfold efLoadEnv
    exact congrArg (Option.map _) h
  have hno : (Store.boot flash).init_ok = Bool.false := rfl
  unfold efEnvInit
  rw [hno, if_neg Bool.false_ne_true]
  exact congrArg (Option.map _) hload

/-- A new store with its first variable is at rest. -/
theorem load_created {K : CStr → Prop} {key : CStr} {value : List UInt8} (hkey : K key)
    (hname : key.strlen ≤ EF_ENV_NAME_MAX)
    (hroom : (Node.mk .write key value).len < formatted.room) (flash : Memory) (rounds : Nat) :
    ∃ s A, (createEnvBlob (formatBoth (formatBoth (Store.start flash)))
          { empty_env := FAILED_ADDR } key value).1 = s ∧
      (∀ sector, loadRetry (rounds + 1)
        (sectorIterator s sector .unused () checkAndRecoveryGcCb Bool.false).1 {} = some s) ∧
      Resting K { s with in_recovery_check := Bool.false, init_ok := Bool.true } 0 A ∧
      contents A.nodes = Function.update (fun _ => none) key (some value) ∧
      A = formatted.add ⟨.write, key, value⟩ := by
  have haddr : SectorAddr 0 := .inl rfl
  have hrep := formatBoth_spec (sectorCached_formatBoth (sectorCached_start flash)) rfl
  obtain ⟨m, table, hcreate, hrep'⟩ := createEnvBlob_formatted hrep rfl hname hroom
  obtain ⟨hsettled, hcontents⟩ := (settled_formatted (K := K)).add (n := ⟨.write, key, value⟩)
    (fun _ => rfl) (.inl rfl) hroom hkey rfl rfl
  have hcached := envCacheOk_add (d := pair 0 formatted formatted) (n := ⟨.write, key, value⟩)
    (envCached_start flash) haddr rfl
  rw [pair_self, update_pair_self] at hcached
  have hclean : (formatted.add ⟨.write, key, value⟩).dirty = .false := rfl
  have hdirty : (formatted.add ⟨.write, key, value⟩).dirty ≠ .gc := by
    rw [hclean]
    decide
  refine ⟨_, formatted.add ⟨.write, key, value⟩, hcreate, fun sector => ?_, ?_, hcontents, rfl⟩
  · refine loadRetry_spec ?_ haddr hsettled.status hdirty rfl rounds sector
    exact hrep'.congr rfl rfl
  · exact ⟨haddr, hrep'.congr rfl rfl, hcached, hsettled, rfl, rfl, rfl, rfl⟩

/-- A flash without headers becomes a store that holds the default variable. -/
theorem efEnvInit_fresh {K : CStr → Prop} (hkey : K bootTimes) {flash : Memory}
    (hzero : NoHeader flash 0) (hsize : NoHeader flash SECTOR_SIZE) (rounds : Nat) :
    ∃ s A, efEnvInit (rounds + 1) defaultEnvSet (Store.boot flash) = some s ∧
      Resting K s 0 A ∧
      contents A.nodes = Function.update (fun _ => none) bootTimes (some [0x30]) ∧
      A = formatted.add ⟨.write, bootTimes, [0x30]⟩ := by
  obtain ⟨hs, hn⟩ := checkSecHdr_fresh (s := Store.start flash) hzero hsize {}
  have hname : bootTimes.strlen ≤ EF_ENV_NAME_MAX := by decide
  have hroom : (Node.mk .write bootTimes [0x30]).len < formatted.room := by decide
  obtain ⟨s, A, hcreate, hload, hrest, hcontents⟩ := load_created hkey hname hroom flash rounds
  have hdefault : efEnvSetDefault (formatBoth (Store.start flash)) defaultEnvSet = s := hcreate
  refine ⟨_, A, efEnvInit_eq s ?_, hrest, hcontents⟩
  dsimp only
  rw [hn, if_pos rfl, hs, hdefault]
  exact hload _

end Fresh

/-- After a power cycle between two calls the contents are the same. -/
theorem Resting.restart {K : CStr → Prop} {s : Store} {a : Nat} {A : SectorDesc}
    (h : Resting K s a A) (rounds : Nat) (default_env_set : List EfEnv) :
    ∃ s', efEnvInit (rounds + 1) default_env_set (Store.boot s.flash) = some s' ∧
      Resting K s' a A := by
  have hrep : Represents (Store.start s.flash) (pair a A formatted) :=
    ⟨rfl, h.represents.image, h.represents.ok,
      (sectorCached_start s.flash).mono fun _ _ hno => hno.elim⟩
  have hdirty : A.dirty ≠ .gc := by
    intro hgc
    rcases h.settled.dirty with hclean | ⟨hdirty, -⟩
    · rw [hgc] at hclean
      cases hclean
    · rw [hgc] at hdirty
      cases hdirty
  obtain ⟨hs, hn⟩ := checkSecHdr_spec hrep {}
  have hsome : ¬(0 = SECTOR_NUM) := by decide
  refine ⟨_, efEnvInit_eq (Store.start s.flash) ?_, ?_⟩
  · dsimp only
    rw [hn, if_neg hsome, hs]
    exact loadRetry_spec hrep h.addr h.settled.status hdirty rfl rounds _
  · exact ⟨h.addr, hrep.congr rfl rfl, envCached_start s.flash, h.settled, rfl, rfl, rfl, rfl⟩

/-! ## Runs -/

/-- The names that are used: none is too long, and no two can be mistaken by the cache. -/
structure KeySet where
  keys : List CStr
  noClash : NoClash (· ∈ keys)
  le_max : ∀ key ∈ keys, key.strlen ≤ EF_ENV_NAME_MAX

/-- The names as a predicate. -/
def KeySet.Mem (K : KeySet) (key : CStr) : Prop :=
  key ∈ K.keys

/-- A name that is used. -/
def KeySet.Key (K : KeySet) : Type :=
  { key : CStr // K.Mem key }

/-- A call of the application, or a power cycle between two calls. -/
inductive Call (K : KeySet) where
  | set (key : K.Key) (value : List UInt8)
  | delete (key : K.Key)
  | get (key : K.Key) (buf_len : Nat)
  | restart

/-- What a call comes back with: a code, or the bytes that were read and the whole length. -/
inductive Answer where
  | code (code : EfErrCode)
  | blob (blob : Option (List UInt8 × Nat))

section Run

variable {K : KeySet}

/-- A call on the store in flash. -/
def Store.call (s : Store) : Call K → Store × Answer
  | .set key value => let r := efSetEnvBlob s key.1 value; (r.1, .code r.2)
  | .delete key => let r := efDelEnv s key.1; (r.1, .code r.2)
  | .get key buf_len => let r := efGetEnvBlob s key.1 buf_len; (r.1, .blob r.2)
  | .restart =>
      match efEnvInit 1 defaultEnvSet (Store.boot s.flash) with
      | some s' => (s', .code .noErr)
      | none => (s, .code .envInitFailed)

/-- A call on the map. -/
def Contents.call (c : Contents) : Call K → Contents × Answer
  | .set key value => (Function.update c key.1 (some value), .code .noErr)
  | .delete key =>
      (Function.update c key.1 none, .code (if (c key.1).isSome then .noErr else .envNameErr))
  | .get key buf_len =>
      (c, .blob ((c key.1).map fun value => (value.take buf_len, value.length)))
  | .restart => (c, .code .noErr)

/-- The answers of a run. -/
def answers {σ : Type} (call : σ → Call K → σ × Answer) : σ → List (Call K) → List Answer
  | _, [] => []
  | s, c :: calls => (call s c).2 :: answers call (call s c).1 calls

/-- The store after a run. -/
def Store.after (s : Store) : List (Call K) → Store
  | [] => s
  | c :: calls => ((s.call c).1).after calls

theorem get_not_full (s : Store) (key : K.Key) (buf_len : Nat) :
    (s.call (.get key buf_len)).2 ≠ .code .envFull := by
  intro hfull
  cases hfull

theorem restart_not_full (s : Store) : (s.call (K := K) .restart).2 ≠ .code .envFull := by
  unfold Store.call
  intro hfull
  cases hinit : efEnvInit 1 defaultEnvSet (Store.boot s.flash) with
  | none =>
      rw [hinit] at hfull
      cases hfull
  | some s' =>
      rw [hinit] at hfull
      cases hfull

variable {s : Store} {a : Nat} {A : SectorDesc}

/-- One call does to the store what it does to the map, unless the store is full. -/
theorem Resting.call (h : Resting K.Mem s a A) (c : Call K) :
    (s.call c).2 = .code .envFull ∨
      (s.call c).2 = ((contents A.nodes).call c).2 ∧
        ∃ b B, Resting K.Mem (s.call c).1 b B ∧
          contents B.nodes = ((contents A.nodes).call c).1 := by
  cases c with
  | set key value =>
      rcases h.set K.noClash key.2 (K.le_max key.1 key.2) value with
        ⟨hfull, -⟩ | ⟨hok, b, B, hrest, hc⟩
      · exact .inl (congrArg Answer.code hfull)
      · exact .inr ⟨congrArg Answer.code hok, b, B, hrest, hc⟩
  | delete key =>
      obtain ⟨B, hrest, hc, hcode⟩ := h.delete K.noClash key.2
      exact .inr ⟨congrArg Answer.code hcode, a, B, hrest, hc⟩
  | get key buf_len =>
      obtain ⟨hrest, hvalue⟩ := h.get K.noClash key.2 buf_len
      exact .inr ⟨congrArg Answer.blob hvalue, a, A, hrest, rfl⟩
  | restart =>
      obtain ⟨s', hinit, hrest⟩ := h.restart 0 defaultEnvSet
      unfold Store.call
      rw [hinit]
      exact .inr ⟨rfl, a, A, hrest, rfl⟩

/-- Where there is room for a value that is set, a call does not find the store full. -/
theorem Resting.call_not_full (h : Resting K.Mem s a A) {c : Call K}
    (hroom : ∀ key value, c = .set key value →
      nodesLen (liveNodes A.nodes) + (Node.mk .write key.1 value).len +
        EF_SEC_REMAIN_THRESHOLD ≤ SECTOR_SIZE - SECTOR_HDR_DATA_SIZE) :
    (s.call c).2 ≠ .code .envFull := by
  intro hfull
  cases c with
  | set key value =>
      have hcode := Answer.code.inj hfull
      rcases h.set K.noClash key.2 (K.le_max key.1 key.2) value with ⟨-, hlittle⟩ | ⟨hok, -⟩
      · exact absurd (hroom key value rfl) (Nat.not_le.mpr hlittle)
      · rw [hok] at hcode
        cases hcode
  | delete key =>
      obtain ⟨-, -, -, hcode⟩ := h.delete K.noClash key.2
      have hno := hcode.symm.trans (Answer.code.inj hfull)
      split_ifs at hno
  | get key buf_len => exact get_not_full s key buf_len hfull
  | restart => exact restart_not_full s hfull

/-- A run in which nothing is set does not find the store full. -/
theorem Resting.run_not_full (h : Resting K.Mem s a A) (calls : List (Call K))
    (hset : ∀ c ∈ calls, ∀ key value, c ≠ .set key value) :
    .code .envFull ∉ answers Store.call s calls := by
  induction calls generalizing s a A with
  | nil => exact List.not_mem_nil
  | cons c calls ih =>
      have hnow := h.call_not_full fun key value heq =>
        absurd heq (hset c List.mem_cons_self key value)
      obtain ⟨-, b, B, hrest, -⟩ := (h.call c).resolve_left hnow
      rw [answers, List.mem_cons, not_or]
      exact ⟨hnow.symm, ih hrest fun c' hc' => hset c' (List.mem_cons_of_mem c hc')⟩

/-- A run in which the store does not get full answers as the map does, and leaves the store at
rest. -/
theorem Resting.run (h : Resting K.Mem s a A) (calls : List (Call K))
    (hfull : .code .envFull ∉ answers Store.call s calls) :
    answers Store.call s calls = answers Contents.call (contents A.nodes) calls ∧
      ∃ b B, Resting K.Mem (s.after calls) b B := by
  induction calls generalizing s a A with
  | nil => exact ⟨rfl, a, A, h⟩
  | cons c calls ih =>
      rw [answers, List.mem_cons, not_or] at hfull
      rcases h.call c with hnow | ⟨hsame, b, B, hrest, hc⟩
      · exact absurd hnow.symm hfull.1
      · obtain ⟨hanswers, hafter⟩ := ih hrest hfull.2
        rw [answers, answers, hsame, ← hc, hanswers]
        exact ⟨rfl, hafter⟩

/-- From the first start on, and over any power cycles between two calls, the store answers as
a map does, as long as it does not get full, and the device never halts. -/
theorem efEnvInit_run (K : KeySet) (hkey : K.Mem bootTimes) {flash : Memory}
    (hzero : NoHeader flash 0) (hsize : NoHeader flash SECTOR_SIZE) (rounds : Nat) :
    ∃ s, efEnvInit (rounds + 1) defaultEnvSet (Store.boot flash) = some s ∧
      ∀ calls : List (Call K), .code .envFull ∉ answers Store.call s calls →
        answers Store.call s calls =
            answers Contents.call (Function.update (fun _ => none) bootTimes (some [0x30]))
              calls ∧
          (s.after calls).halted = Bool.false := by
  obtain ⟨s, A, hinit, hrest, hcontents, -⟩ := efEnvInit_fresh hkey hzero hsize rounds
  refine ⟨s, hinit, fun calls hfull => ?_⟩
  obtain ⟨hanswers, b, B, hafter⟩ := hrest.run calls hfull
  rw [← hcontents]
  exact ⟨hanswers, hafter.represents.running⟩

/-- The name of the default set. -/
def KeySet.default : KeySet where
  keys := [bootTimes]
  noClash key key' h h' _ _ := (List.mem_singleton.mp h).trans (List.mem_singleton.mp h').symm
  le_max := by decide

/-- A member of the default set. -/
theorem KeySet.default_mem : KeySet.default.Mem bootTimes :=
  List.mem_singleton_self bootTimes

/-- The default variable is set on an erased flash and deleted after a power cycle. -/
def sampleCalls : List (Call .default) :=
  [.set ⟨bootTimes, KeySet.default_mem⟩ [0x31], .restart,
    .get ⟨bootTimes, KeySet.default_mem⟩ 8, .delete ⟨bootTimes, KeySet.default_mem⟩, .restart,
    .get ⟨bootTimes, KeySet.default_mem⟩ 8]

/-- The value that was set is read after the first power cycle, and none after the second. -/
theorem efEnvInit_run_erased :
    ∃ s, efEnvInit 1 defaultEnvSet (Store.boot fun _ => 0xFF) = some s ∧
      answers Store.call s sampleCalls =
        [.code .noErr, .code .noErr, .blob (some ([0x31], 1)), .code .noErr, .code .noErr,
          .blob none] ∧
      (s.after sampleCalls).halted = Bool.false := by
  have hzero : NoHeader (fun _ => 0xFF) 0 := by decide
  have hsize : NoHeader (fun _ => 0xFF) SECTOR_SIZE := by decide
  obtain ⟨s, hinit, hrun⟩ := efEnvInit_run .default KeySet.default_mem hzero hsize 0
  obtain ⟨s', A, hinit', hrest, -, rfl⟩ :=
    efEnvInit_fresh (K := KeySet.default.Mem) KeySet.default_mem hzero hsize 0
  cases hinit.symm.trans hinit'
  have hroom : ∀ key value, Call.set ⟨bootTimes, KeySet.default_mem⟩ [0x31] = .set key value →
      nodesLen (liveNodes (formatted.add ⟨.write, bootTimes, [0x30]⟩).nodes) +
        (Node.mk .write key.1 value).len + EF_SEC_REMAIN_THRESHOLD ≤
          SECTOR_SIZE - SECTOR_HDR_DATA_SIZE := by
    rintro key value ⟨⟩
    decide
  have hfull : .code .envFull ∉ answers Store.call s sampleCalls := by
    have hset := hrest.call_not_full hroom
    obtain ⟨-, b, B, hnext, -⟩ := (hrest.call _).resolve_left hset
    unfold sampleCalls
    rw [answers, List.mem_cons, not_or]
    refine ⟨hset.symm, hnext.run_not_full _ fun c hc key value heq => ?_⟩
    subst heq
    simp at hc
  obtain ⟨hanswers, hhalted⟩ := hrun sampleCalls hfull
  refine ⟨s, hinit, ?_, hhalted⟩
  rw [hanswers]
  rfl

end Run

end EasyFlash

end WeatherStation
