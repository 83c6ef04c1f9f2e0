import WeatherStation.Storage.EnvChange

/-!
# Finding a variable

A variable is found by going through the sectors, or by the cache.  The cache compares 16 bits
of a checksum and as many characters as the name that is looked for has; where no two names
clash in this way, it finds what the search through the sectors finds.

Main results:

- Theorem {lit}`findEnvNoCache_spec`: the search finds a variable that is there.
- Theorem {lit}`findEnv_spec`: with the cache it does so too.
- Theorem {lit}`getEnv_spec`: the value is returned as far as the buffer reaches.
-/

open Foundation

namespace WeatherStation

namespace EasyFlash

/-! ## Variables and their addresses -/

/-- A variable of a sector lies at an address. -/
def Located (d : Nat → SectorDesc) (a : Nat) (n : Node) : Prop :=
  ∃ sec front back, SectorAddr sec ∧ (d sec).nodes = front ++ n :: back ∧
    a = sec + SECTOR_HDR_DATA_SIZE + nodesLen front

/-- A variable that counts. -/
def Live (d : Nat → SectorDesc) (a : Nat) (n : Node) : Prop :=
  Located d a n ∧ n.status = .write

section

variable {s : Store} {d : Nat → SectorDesc}

theorem Represents.node (h : Represents s d) {a : Nat} {n : Node} (hn : Located d a n) :
    NodeAt s.flash a n ∧ n.Fits := by
  obtain ⟨sec, front, back, hsec, hnodes, rfl⟩ := hn
  have hsees := h.visitable hsec
  rw [hnodes] at hsees
  exact ⟨hsees.node, hsees.node_fits⟩

/-! ## The search through the sectors -/

theorem strlen_eq_of_bytes {key key' : CStr} (h : key.bytes = key'.bytes) : key = key' := by
  cases key
  cases key'
  cases h
  rfl

/-- What {lit}`find_env_cb` does at a variable. -/
theorem findEnvCb_obj (key : CStr) (s : Store) (n : Node) (a : Nat) (find_ok : Bool) :
    findEnvCb key s (n.obj a) find_ok =
      if n.status = .write ∧ n.key = key then (s, Bool.true, Bool.true)
      else (s, find_ok, Bool.false) := by
  unfold findEnvCb
  have hname_len : (n.obj a).name_len = n.key.strlen := rfl
  have hname : (n.obj a).name = n.key.bytes := rfl
  rw [hname_len, hname]
  by_cases hlen : key.strlen ≠ n.key.strlen
  · rw [if_pos hlen, if_neg]
    rintro ⟨-, rfl⟩
    exact hlen rfl
  · rw [if_neg hlen]
    rw [not_not] at hlen
    have htake : n.key.bytes.take key.strlen = n.key.bytes :=
      List.take_of_length_le (Nat.le_of_eq hlen.symm)
    rw [htake]
    by_cases hhit : n.status = .write ∧ n.key = key
    · rw [if_pos hhit, if_pos ⟨rfl, hhit.1, congrArg CStr.bytes hhit.2⟩]
    · rw [if_neg hhit, if_neg]
      rintro ⟨-, hstatus, hbytes⟩
      exact hhit ⟨hstatus, strlen_eq_of_bytes hbytes⟩

/-- What a search for a variable comes back with. -/
def Searched (d : Nat → SectorDesc) (key : CStr) (r : EnvNodeObj × Bool) : Prop :=
  r.2 = Bool.true ∧ (∃ a n, Live d a n ∧ n.key = key ∧ r.1 = n.obj a) ∨
    r.2 = Bool.false ∧ ∀ a n, Live d a n → n.key ≠ key

/-- The search in one sector. -/
theorem findEnv_sector (h : Represents s d) {a : Nat} (ha : SectorAddr a) (key : CStr)
    (sector : SectorMeta) (haddr : sector.addr = a) (hstore : sector.store ≠ .empty)
    (hnodes : (d a).nodes ≠ []) (env : EnvNodeObj) :
    let r := forEachEnv sector (findEnvCb key) SECTOR_SIZE s { env with start := FAILED_ADDR }
      Bool.false
    r.1 = s ∧
      (r.2.2.2 = Bool.true ∧ r.2.2.1 = Bool.true ∧
          (∃ a n, Live d a n ∧ n.key = key ∧ r.2.1 = n.obj a) ∨
        r.2.2.2 = Bool.false ∧ r.2.2.1 = Bool.false ∧
          ∀ n ∈ (d a).nodes, n.status = .write → n.key ≠ key) := by
  have hrun := forEachEnv_nodes (findEnvCb key)
    (I := fun front back s' find_ok => s' = s ∧ front ++ back = (d a).nodes ∧
      find_ok = Bool.false ∧ ∀ n ∈ front, n.status = .write → n.key ≠ key)
    (Q := fun s' env find_ok => s' = s ∧ find_ok = Bool.true ∧
      ∃ a n, Live d a n ∧ n.key = key ∧ env = n.obj a) haddr hstore ?hvisit ?hstep hnodes
    s Bool.false ⟨rfl, rfl, rfl, fun n hn => absurd hn List.not_mem_nil⟩ env
  case hvisit =>
    rintro front back s' find_ok ⟨rfl, hsplit, -⟩
    rw [hsplit]
    exact h.visitable ha
  case hstep =>
    rintro front n back s' find_ok ⟨rfl, hsplit, rfl, hfront⟩
    rw [findEnvCb_obj]
    by_cases hhit : n.status = .write ∧ n.key = key
    · rw [if_pos hhit]
      refine ⟨fun _ => ⟨rfl, rfl, ?_⟩, fun hgo => absurd hgo.symm Bool.false_ne_true⟩
      exact ⟨_, n, ⟨⟨a, front, back, ha, hsplit.symm, rfl⟩, hhit.1⟩, hhit.2, rfl⟩
    · rw [if_neg hhit]
      refine ⟨fun hstop => absurd hstop Bool.false_ne_true, fun _ => ?_⟩
      refine ⟨n, rfl, rfl, by rw [List.append_assoc]; exact hsplit, rfl, ?_⟩
      intro n' hn' hstatus hkey
      rcases List.mem_append.mp hn' with hn' | hn'
      · exact hfront n' hn' hstatus hkey
      · rw [List.mem_singleton] at hn'
        rw [hn'] at hstatus hkey
        exact hhit ⟨hstatus, hkey⟩
  rcases hrun with ⟨hstop, hs, hok, hfound⟩ | ⟨hstop, front, hs, hsplit, hok, hnone⟩
  · exact ⟨hs, .inl ⟨hstop, hok, hfound⟩⟩
  · rw [List.append_nil] at hsplit
    rw [hsplit] at hnone
    exact ⟨hs, .inr ⟨hstop, hok, hnone⟩⟩

/-- The search through the sectors finds a variable that is there, and changes nothing. -/
theorem findEnvNoCache_spec (h : Represents s d) (key : CStr) (env : EnvNodeObj) :
    (findEnvNoCache s key env).1 = s ∧ Searched d key (findEnvNoCache s key env).2 := by
  -- One sector: the search ends in it, or it holds no such variable.
  have hbody (a : Nat) (ha : SectorAddr a) (sector : SectorMeta) (env : EnvNodeObj) :
      let b := envIteratorBody (findEnvCb key) s a sector (env, Bool.false)
      b.1 = s ∧ b.2.1.addr = a ∧ b.2.1.combined = SECTOR_NOT_COMBINED ∧
      (b.2.2.2 = Bool.true ∧ b.2.2.1.2 = Bool.true ∧
          (∃ a n, Live d a n ∧ n.key = key ∧ b.2.2.1.1 = n.obj a) ∨
        b.2.2.2 = Bool.false ∧ b.2.2.1.2 = Bool.false ∧
          ∀ n ∈ (d a).nodes, n.status = .write → n.key ≠ key) := by
    unfold envIteratorBody
    rw [readSectorMetaData_header h ha]
    dsimp only
    have hstore : (sector.header a (d a)).store = (d a).store := rfl
    rw [hstore]
    split_ifs with hused
    · have hne : (d a).store ≠ .empty := by
        rcases hused with hused | hused
        all_goals
          rw [hused]
          decide
      have hnodes : (d a).nodes ≠ [] := fun hnil => hne ((h.ok a ha).empty.mpr hnil)
      obtain ⟨hs, hcase⟩ := findEnv_sector h ha key (sector.header a (d a)) rfl hne
        hnodes env
      exact ⟨hs, rfl, rfl, hcase⟩
    · have hempty : (d a).store = .empty := by
        have hformatted := (h.ok a ha).formatted
        cases hst : (d a).store with
        | unused => exact absurd hst hformatted
        | empty => rfl
        | inUse => exact absurd (.inl hst) hused
        | full => exact absurd (.inr hst) hused
      refine ⟨rfl, rfl, rfl, .inr ⟨rfl, rfl, ?_⟩⟩
      rw [(h.ok a ha).empty.mp hempty]
      intro n hn
      exact absurd hn List.not_mem_nil
  have hrun := forEachSector_sectors (envIteratorBody (findEnvCb key))
    (P := fun s' acc => s' = s ∧ acc.2 = Bool.false ∧
      ∀ n ∈ (d 0).nodes, n.status = .write → n.key ≠ key)
    (Q := fun s' _ acc => s' = s ∧ Searched d key acc) s {} (env, Bool.false) ?hfirst ?hsecond
  case hfirst =>
    intro sector
    obtain ⟨hs, haddr, hcombined, hcase⟩ := hbody 0 (.inl rfl) sector env
    dsimp only
    rcases hcase with ⟨hstop, hok, hfound⟩ | ⟨hstop, hok, hnone⟩
    · refine ⟨fun _ => ⟨hs, .inl ⟨hok, hfound⟩⟩, fun hgo => ?_⟩
      rw [hstop] at hgo
      exact absurd hgo.symm Bool.false_ne_true
    · refine ⟨fun hgo => ?_, fun _ => ⟨haddr, hcombined, hs, hok, hnone⟩⟩
      rw [hstop] at hgo
      exact absurd hgo Bool.false_ne_true
  case hsecond =>
    rintro s' sector ⟨env', find_ok⟩ ⟨rfl, hok', hfirst⟩
    dsimp only at hok'
    subst hok'
    obtain ⟨hs, -, -, hcase⟩ := hbody SECTOR_SIZE (.inr rfl) sector env'
    dsimp only
    refine ⟨hs, ?_⟩
    rcases hcase with ⟨-, hok, hfound⟩ | ⟨-, hok, hnone⟩
    · exact .inl ⟨hok, hfound⟩
    · refine .inr ⟨hok, ?_⟩
      rintro a n ⟨⟨sec, front, back, hsec, hnodes, -⟩, hstatus⟩
      have hmem : n ∈ (d sec).nodes := by
        rw [hnodes]
        exact List.mem_append_right _ List.mem_cons_self
      rcases hsec with rfl | rfl
      · exact hfirst n hmem hstatus
      · exact hnone n hmem hstatus
  exact hrun

/-! ## The search with the cache -/

/-- The cached addresses are those of variables that count. -/
def EnvCacheOk (d : Nat → SectorDesc) (table : List EnvCacheNode) : Prop :=
  EnvCached (fun c a => ∃ n, Live d a n ∧ nameCrc n.key.bytes = c) (view table)

/-- No two of the names can be mistaken by the cache: none has the same bits of the checksum as
another one that it begins with. -/
def NoClash (K : CStr → Prop) : Prop :=
  ∀ key key', K key → K key' → nameCrc key.bytes = nameCrc key'.bytes →
    key.bytes <+: key'.bytes → key = key'

/-- The names in the sectors. -/
def Names (d : Nat → SectorDesc) (K : CStr → Prop) : Prop :=
  ∀ a, SectorAddr a → ∀ n ∈ (d a).nodes, K n.key

theorem Names.live {K : CStr → Prop} (h : Names d K) {a : Nat} {n : Node} (hn : Live d a n) :
    K n.key := by
  obtain ⟨⟨sec, front, back, hsec, hnodes, -⟩, -⟩ := hn
  refine h sec hsec n ?_
  rw [hnodes]
  exact List.mem_append_right _ List.mem_cons_self

/-- Where the bytes behind a header begin with a name, one of the names begins with the other. -/
theorem prefix_of_take {m : Memory} {a : Nat} {n : Node} (hn : NodeAt m a n)
    (hname : n.key.strlen ≤ EF_ENV_NAME_MAX) {key : CStr}
    (htake : (m.read (a + ENV_HDR_DATA_SIZE) EF_ENV_NAME_MAX).take key.bytes.length = key.bytes) :
    key.bytes <+: n.key.bytes ∨ n.key.bytes <+: key.bytes := by
  have hkey := hn.fields.2.2.1.read_eq rfl
  have hlen : n.key.bytes.length ≤ EF_ENV_NAME_MAX := hname
  have hprefix : n.key.bytes <+: m.read (a + ENV_HDR_DATA_SIZE) EF_ENV_NAME_MAX := by
    rw [show EF_ENV_NAME_MAX = n.key.bytes.length + (EF_ENV_NAME_MAX - n.key.bytes.length) by omega,
      Memory.read_add]
    change n.key.bytes <+: m.read (a + 24) n.key.bytes.length ++ _
    rw [hkey]
    exact List.prefix_append _ _
  have hprefix' : key.bytes <+: m.read (a + ENV_HDR_DATA_SIZE) EF_ENV_NAME_MAX := by
    rw [← htake]
    exact List.take_prefix _ _
  exact List.prefix_or_prefix_of_prefix hprefix' hprefix

/-- With the cache the search finds the same, and the cache stays right. -/
theorem findEnv_spec (h : Represents s d) (hcache : EnvCacheOk d s.env_cache_table)
    {K : CStr → Prop} (hclash : NoClash K) (hnames : Names d K) {key : CStr} (hkey : K key)
    (env : EnvNodeObj) :
    ∃ table, EnvCacheOk d table ∧ (findEnv s key env).1 = { s with env_cache_table := table } ∧
      Searched d key (findEnv s key env).2 := by
  unfold findEnv
  cases hget : getEnvFromCache s.flash key.bytes s.env_cache_table with
  | some r =>
      obtain ⟨start, table⟩ := r
      obtain ⟨hlive, hmem, hview, htake⟩ := getEnvFromCache_spec s.flash hget
      obtain ⟨n, hn, hcrc⟩ := hcache.holds _ hmem hlive
      obtain ⟨hat, hfits⟩ := h.node hn.1
      have heq : n.key = key := by
        rcases prefix_of_take hat hfits.name htake with hprefix | hprefix
        · exact (hclash key n.key hkey (hnames.live hn) hcrc.symm hprefix).symm
        · exact hclash n.key key (hnames.live hn) hkey hcrc hprefix
      have hread : readEnv { s with env_cache_table := table } { env with start := start } =
          ({ s with env_cache_table := table }, n.obj start) :=
        readEnv_node (s := { s with env_cache_table := table }) (a := start) hat hfits rfl
      dsimp only
      rw [hread]
      refine ⟨table, ?_, rfl, .inl ⟨rfl, start, n, hn, heq, rfl⟩⟩
      unfold EnvCacheOk
      rw [hview]
      exact hcache
  | none =>
      obtain ⟨hs, hsearch⟩ := findEnvNoCache_spec h key env
      dsimp only
      split_ifs with hfound
      · rcases hsearch with ⟨-, a, n, hn, rfl, hobj⟩ | ⟨hno, -⟩
        · refine ⟨updateEnvCache s.env_cache_table n.key.bytes a, ?_, ?_, .inl ⟨hfound, ?_⟩⟩
          · apply (envCached_update hcache n.key.bytes a).mono
            rintro c b (⟨rfl, rfl⟩ | ⟨-, hb⟩)
            · exact ⟨n, hn, rfl⟩
            · exact hb
          · rw [hs, hobj]
            rfl
          · exact ⟨a, n, hn, rfl, hobj⟩
        · rw [hno] at hfound
          exact absurd hfound Bool.false_ne_true
      · exact ⟨s.env_cache_table, hcache, hs, hsearch⟩

/-- The value is returned as far as the buffer reaches, with its whole length. -/
theorem getEnv_spec (h : Represents s d) (hcache : EnvCacheOk d s.env_cache_table)
    {K : CStr → Prop} (hclash : NoClash K) (hnames : Names d K) {key : CStr} (hkey : K key)
    (buf_len : Nat) :
    ∃ table, EnvCacheOk d table ∧ (getEnv s key buf_len).1 = { s with env_cache_table := table } ∧
      ((∃ a n, Live d a n ∧ n.key = key ∧
          (getEnv s key buf_len).2 = some (n.value.take buf_len, n.value.length)) ∨
        (∀ a n, Live d a n → n.key ≠ key) ∧ (getEnv s key buf_len).2 = none) := by
  obtain ⟨table, hok, hs, hsearch⟩ := findEnv_spec h hcache hclash hnames hkey {}
  refine ⟨table, hok, ?_⟩
  unfold getEnv
  dsimp only
  rcases hsearch with ⟨hfound, a, n, hn, hname, hobj⟩ | ⟨hfound, hnone⟩
  · rw [if_pos hfound, hs, hobj]
    refine ⟨rfl, .inl ⟨a, n, hn, hname, ?_⟩⟩
    have hvalue := (h.node hn.1).1.fields.2.2.2.read_eq rfl
    have htake : s.flash.read (n.obj a).value
        (if buf_len > (n.obj a).value_len then (n.obj a).value_len else buf_len) =
          n.value.take buf_len := by
      change s.flash.read (a + 24 + n.key.strlen)
        (if buf_len > n.value.length then n.value.length else buf_len) = _
      split_ifs with hlong
      · rw [hvalue, List.take_of_length_le (by omega)]
      · rw [← hvalue, show n.value.length = buf_len + (n.value.length - buf_len) by omega,
          Memory.read_add, List.take_left' (Memory.length_read _ _ _)]
    dsimp only
    rw [htake]
    rfl
  · rw [if_neg (by rw [hfound]; exact Bool.false_ne_true)]
    exact ⟨hs, .inr ⟨hnone, rfl⟩⟩

end

end EasyFlash

end WeatherStation
