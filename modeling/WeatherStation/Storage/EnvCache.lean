import WeatherStation.Foundation.NorFlash
import WeatherStation.Storage.EnvCrc

/-!
# The caches of the store

The store remembers where it found the last variables and where the free space of a sector
begins.  An entry of the first table is found by 16 bits of the checksum of a name, an entry
of the second by the address of a sector.  Both tables are searched from the front, so only
the first entry of a kind counts.

Main results:

- Theorem {lit}`envCached_update`, {lit}`envCached_delete`: what the variables that are
  cached point to after an update.
- Theorem {lit}`sectorCached_update`, {lit}`sectorCached_delete`: the same for the sectors.
- Theorem {lit}`getEnvFromCache_spec`: a hit is an entry whose variable begins with the name.
-/

open Foundation

namespace WeatherStation

namespace EasyFlash

/-! ## Sizes and addresses -/

/-- {lit}`SECTOR_SIZE` -/
def SECTOR_SIZE : Nat := 4096

/-- {lit}`FAILED_ADDR` -/
def FAILED_ADDR : Nat := 0xFFFFFFFF

/-- {lit}`ENV_HDR_DATA_SIZE` -/
def ENV_HDR_DATA_SIZE : Nat := 24

/-- {lit}`EF_ENV_NAME_MAX` -/
def EF_ENV_NAME_MAX : Nat := 32

/-- {lit}`EF_ENV_CACHE_TABLE_SIZE` -/
def EF_ENV_CACHE_TABLE_SIZE : Nat := 16

/-- {lit}`EF_SECTOR_CACHE_TABLE_SIZE` -/
def EF_SECTOR_CACHE_TABLE_SIZE : Nat := 4

/-! ## The sector cache -/

/-- {lit}`struct sector_cache_node` -/
structure SectorCacheNode where
  addr : Nat
  empty_addr : Nat

/-- The loop of {lit}`update_sector_cache`: the table when the function returns in the loop. -/
def updateSectorCacheLoop (sec_addr empty_addr : Nat) :
    List SectorCacheNode → Option (List SectorCacheNode)
  | [] => none
  | e :: rest =>
      if e.addr = sec_addr then
        if empty_addr > sec_addr ∧ empty_addr < sec_addr + SECTOR_SIZE then
          some ({ addr := sec_addr, empty_addr := empty_addr } :: rest)
        else some ({ e with addr := FAILED_ADDR } :: rest)
      else (updateSectorCacheLoop sec_addr empty_addr rest).map (e :: ·)

/-- {lit}`update_sector_cache` -/
def updateSectorCache (table : List SectorCacheNode) (sec_addr empty_addr : Nat) :
    List SectorCacheNode :=
  match updateSectorCacheLoop sec_addr empty_addr table with
  | some table => table
  | none =>
      if empty_addr > sec_addr ∧ empty_addr < sec_addr + SECTOR_SIZE then
        match table.findIdx? (·.addr = FAILED_ADDR) with
        | some empty_index => table.set empty_index { addr := sec_addr, empty_addr := empty_addr }
        | none => table
      else table

/-- {lit}`get_sector_from_cache` -/
def getSectorFromCache (table : List SectorCacheNode) (sec_addr : Nat) : Option Nat :=
  (table.find? (·.addr = sec_addr)).map (·.empty_addr)

/-! ## The variable cache -/

/-- {lit}`struct env_cache_node` -/
structure EnvCacheNode where
  name_crc : UInt16
  active : Nat
  addr : Nat

/-- The bits of the checksum of a name by which it is cached. -/
def nameCrc (name : List UInt8) : UInt16 :=
  (efCalcCrc32 0 name >>> 16).toUInt16

/-- What the loop of {lit}`update_env_cache` has found. -/
structure CacheScan where
  empty_index : Nat
  min_activity_index : Nat
  min_activity : Nat

/-- The loop of {lit}`update_env_cache`: the table, and what was found unless the function
returns in the loop. -/
def updateEnvCacheLoop (name_crc : UInt16) (addr : Nat) :
    Nat → List EnvCacheNode → CacheScan → List EnvCacheNode × Option CacheScan
  | _, [], scan => ([], some scan)
  | i, e :: rest, scan =>
      if addr ≠ FAILED_ADDR then
        if e.name_crc = name_crc then ({ e with addr := addr } :: rest, none)
        else if e.addr = FAILED_ADDR ∧ scan.empty_index = EF_ENV_CACHE_TABLE_SIZE then
          let r := updateEnvCacheLoop name_crc addr (i + 1) rest { scan with empty_index := i }
          (e :: r.1, r.2)
        else if e.addr ≠ FAILED_ADDR then
          let active := if e.active > 0 then e.active - 1 else e.active
          let scan := if active < scan.min_activity then
            { scan with min_activity_index := i, min_activity := active } else scan
          let r := updateEnvCacheLoop name_crc addr (i + 1) rest scan
          ({ e with active := active } :: r.1, r.2)
        else
          let r := updateEnvCacheLoop name_crc addr (i + 1) rest scan
          (e :: r.1, r.2)
      else if e.name_crc = name_crc then
        ({ e with addr := FAILED_ADDR, active := 0 } :: rest, none)
      else
        let r := updateEnvCacheLoop name_crc addr (i + 1) rest scan
        (e :: r.1, r.2)

/-- {lit}`update_env_cache` -/
def updateEnvCache (table : List EnvCacheNode) (name : List UInt8) (addr : Nat) :
    List EnvCacheNode :=
  let name_crc := nameCrc name
  match updateEnvCacheLoop name_crc addr 0 table
    ⟨EF_ENV_CACHE_TABLE_SIZE, EF_ENV_CACHE_TABLE_SIZE, 0xFFFF⟩ with
  | (table, none) => table
  | (table, some scan) =>
      if scan.empty_index < EF_ENV_CACHE_TABLE_SIZE then
        table.set scan.empty_index ⟨name_crc, 0, addr⟩
      else if scan.min_activity_index < EF_ENV_CACHE_TABLE_SIZE then
        table.set scan.min_activity_index ⟨name_crc, 0, addr⟩
      else table

/-- How {lit}`get_env_from_cache` raises the activity of an entry. -/
def raiseActive (active : Nat) : Nat :=
  if active ≥ 0xFFFF - EF_ENV_CACHE_TABLE_SIZE then 0xFFFF else active + EF_ENV_CACHE_TABLE_SIZE

/-- {lit}`get_env_from_cache`: the address and the table after a hit. -/
def getEnvFromCache (m : Memory) (name : List UInt8) :
    List EnvCacheNode → Option (Nat × List EnvCacheNode)
  | [] => none
  | e :: rest =>
      if e.addr ≠ FAILED_ADDR ∧ e.name_crc = nameCrc name ∧
          (m.read (e.addr + ENV_HDR_DATA_SIZE) EF_ENV_NAME_MAX).take name.length = name then
        some (e.addr, { e with active := raiseActive e.active } :: rest)
      else (getEnvFromCache m name rest).map fun r => (r.1, e :: r.2)

/-! ## What the sector cache says -/

/-- No sector is cached twice, and the cached ones are as {lit}`P` says. -/
structure SectorCached (P : Nat → Nat → Prop) (table : List SectorCacheNode) : Prop where
  once : table.Pairwise fun e e' => e.addr = e'.addr → e.addr = FAILED_ADDR
  holds : ∀ e ∈ table, e.addr ≠ FAILED_ADDR → P e.addr e.empty_addr

theorem SectorCached.get {P : Nat → Nat → Prop} {table : List SectorCacheNode}
    (h : SectorCached P table) {sec_addr empty_addr : Nat} (hsec : sec_addr ≠ FAILED_ADDR)
    (hget : getSectorFromCache table sec_addr = some empty_addr) : P sec_addr empty_addr := by
  obtain ⟨e, hfind, rfl⟩ := Option.map_eq_some_iff.mp hget
  have haddr : e.addr = sec_addr := by simpa using List.find?_some hfind
  rw [← haddr] at hsec ⊢
  exact h.holds e (List.mem_of_find?_eq_some hfind) hsec

theorem SectorCached.mono {P Q : Nat → Nat → Prop} {table : List SectorCacheNode}
    (h : SectorCached P table) (hPQ : ∀ a e, P a e → Q a e) : SectorCached Q table :=
  ⟨h.once, fun e he hne => hPQ _ _ (h.holds e he hne)⟩

/-- The loop changes the first entry of the sector, if there is one. -/
theorem updateSectorCacheLoop_spec (sec_addr empty_addr : Nat) (table : List SectorCacheNode) :
    (updateSectorCacheLoop sec_addr empty_addr table = none ∧ ∀ e ∈ table, e.addr ≠ sec_addr) ∨
      ∃ front e back, table = front ++ e :: back ∧ (∀ x ∈ front, x.addr ≠ sec_addr) ∧
        e.addr = sec_addr ∧
        updateSectorCacheLoop sec_addr empty_addr table = some (front ++
          (if empty_addr > sec_addr ∧ empty_addr < sec_addr + SECTOR_SIZE then
            { addr := sec_addr, empty_addr := empty_addr }
          else { e with addr := FAILED_ADDR }) :: back) := by
  induction table with
  | nil => exact .inl ⟨rfl, fun e he => absurd he List.not_mem_nil⟩
  | cons e rest ih =>
      rw [updateSectorCacheLoop]
      by_cases haddr : e.addr = sec_addr
      · refine .inr ⟨[], e, rest, rfl, fun x hx => absurd hx List.not_mem_nil, haddr, ?_⟩
        rw [if_pos haddr]
        split_ifs <;> rfl
      · rw [if_neg haddr]
        rcases ih with ⟨hnone, hall⟩ | ⟨front, e', back, rfl, hfront, he', hsome⟩
        · refine .inl ⟨by rw [hnone, Option.map_none], ?_⟩
          exact List.forall_mem_cons.mpr ⟨haddr, hall⟩
        · refine .inr ⟨e :: front, e', back, rfl, List.forall_mem_cons.mpr ⟨haddr, hfront⟩, he', ?_⟩
          rw [hsome, Option.map_some, List.cons_append]

section Sector

variable {P : Nat → Nat → Prop} {table : List SectorCacheNode} {sec_addr empty_addr : Nat}

/-- An entry that is replaced in a table without its sector. -/
theorem SectorCached.set (h : SectorCached P table) (hne : ∀ e ∈ table, e.addr ≠ sec_addr)
    (i : Nat) :
    SectorCached (fun a e => a = sec_addr ∧ e = empty_addr ∨ a ≠ sec_addr ∧ P a e)
      (table.set i { addr := sec_addr, empty_addr := empty_addr }) := by
  constructor
  · rw [List.pairwise_iff_getElem]
    intro j k hj hk hjk heq
    rw [List.length_set] at hj hk
    rw [List.getElem_set, List.getElem_set] at heq
    rw [List.getElem_set]
    split_ifs at heq ⊢ with hij hik hik
    · omega
    · exact absurd heq.symm (hne _ (List.getElem_mem hk))
    · exact absurd heq (hne _ (List.getElem_mem hj))
    · exact (List.pairwise_iff_getElem.mp h.once) j k hj hk hjk heq
  · intro e he hlive
    rcases List.mem_or_eq_of_mem_set he with hmem | rfl
    · exact .inr ⟨hne e hmem, h.holds e hmem hlive⟩
    · exact .inl ⟨rfl, rfl⟩

/-- The free space of a sector is cached, or forgotten where the table has no room. -/
theorem sectorCached_update (h : SectorCached P table)
    (hrange : empty_addr > sec_addr ∧ empty_addr < sec_addr + SECTOR_SIZE) :
    SectorCached (fun a e => a = sec_addr ∧ e = empty_addr ∨ a ≠ sec_addr ∧ P a e)
      (updateSectorCache table sec_addr empty_addr) := by
  unfold updateSectorCache
  rcases updateSectorCacheLoop_spec sec_addr empty_addr table with
    ⟨hnone, hne⟩ | ⟨front, e, back, rfl, hfront, he, hsome⟩
  · rw [hnone]
    dsimp only
    rw [if_pos hrange]
    cases table.findIdx? (·.addr = FAILED_ADDR) with
    | some i => exact h.set hne i
    | none =>
        refine ⟨h.once, fun e he hlive => ?_⟩
        exact .inr ⟨hne e he, h.holds e he hlive⟩
  · rw [hsome, if_pos hrange]
    dsimp only
    obtain ⟨honce, hholds⟩ := h
    rw [List.pairwise_append, List.pairwise_cons] at honce
    obtain ⟨hpre, ⟨hmid, hback⟩, hcross⟩ := honce
    have hrest : ∀ x ∈ back, x.addr = sec_addr → x.addr = FAILED_ADDR := by
      intro x hx hxa
      have hfail := hmid x hx (he.trans hxa.symm)
      rw [hxa, ← he, hfail]
    constructor
    · rw [List.pairwise_append, List.pairwise_cons]
      refine ⟨hpre, ⟨?_, hback⟩, ?_⟩
      · intro x hx hxa
        exact hxa.trans (hrest x hx hxa.symm)
      · intro x hx y hy hxy
        rcases List.mem_cons.mp hy with rfl | hy
        · exact absurd hxy (hfront x hx)
        · exact hcross x hx y (List.mem_cons_of_mem e hy) hxy
    · intro x hx hlive
      rcases List.mem_append.mp hx with hx | hx
      · exact .inr ⟨hfront x hx, hholds x (List.mem_append_left _ hx) hlive⟩
      · rcases List.mem_cons.mp hx with rfl | hx
        · exact .inl ⟨rfl, rfl⟩
        · exact .inr ⟨fun hxa => hlive (hrest x hx hxa),
            hholds x (List.mem_append_right _ (List.mem_cons_of_mem e hx)) hlive⟩

/-- A sector is taken out of the cache. -/
theorem sectorCached_delete (h : SectorCached P table)
    (hrange : ¬(empty_addr > sec_addr ∧ empty_addr < sec_addr + SECTOR_SIZE)) :
    SectorCached (fun a e => a ≠ sec_addr ∧ P a e)
      (updateSectorCache table sec_addr empty_addr) := by
  unfold updateSectorCache
  rcases updateSectorCacheLoop_spec sec_addr empty_addr table with
    ⟨hnone, hne⟩ | ⟨front, e, back, rfl, hfront, he, hsome⟩
  · rw [hnone]
    dsimp only
    rw [if_neg hrange]
    exact ⟨h.once, fun e he hlive => ⟨hne e he, h.holds e he hlive⟩⟩
  · rw [hsome, if_neg hrange]
    dsimp only
    obtain ⟨honce, hholds⟩ := h
    rw [List.pairwise_append, List.pairwise_cons] at honce
    obtain ⟨hpre, ⟨hmid, hback⟩, hcross⟩ := honce
    constructor
    · rw [List.pairwise_append, List.pairwise_cons]
      refine ⟨hpre, ⟨fun x _ _ => rfl, hback⟩, ?_⟩
      intro x hx y hy hxy
      rcases List.mem_cons.mp hy with rfl | hy
      · exact hxy
      · exact hcross x hx y (List.mem_cons_of_mem e hy) hxy
    · intro x hx hlive
      rcases List.mem_append.mp hx with hx | hx
      · exact ⟨hfront x hx, hholds x (List.mem_append_left _ hx) hlive⟩
      · rcases List.mem_cons.mp hx with rfl | hx
        · exact absurd rfl hlive
        · refine ⟨?_, hholds x (List.mem_append_right _ (List.mem_cons_of_mem e hx)) hlive⟩
          intro hxa
          have hfail := hmid x hx (he.trans hxa.symm)
          exact hlive (by rw [hxa, ← he, hfail])

end Sector

/-! ## What the variable cache says -/

/-- The names and addresses of a table. -/
def view (table : List EnvCacheNode) : List (UInt16 × Nat) :=
  table.map fun e => (e.name_crc, e.addr)

/-- No entry stands behind one with the same bits, and the cached addresses are as {lit}`P`
says. -/
structure EnvCached (P : UInt16 → Nat → Prop) (v : List (UInt16 × Nat)) : Prop where
  once : v.Pairwise fun e e' => e'.2 ≠ FAILED_ADDR → e.1 ≠ e'.1
  holds : ∀ e ∈ v, e.2 ≠ FAILED_ADDR → P e.1 e.2

theorem EnvCached.mono {P Q : UInt16 → Nat → Prop} {v : List (UInt16 × Nat)} (h : EnvCached P v)
    (hPQ : ∀ c a, P c a → Q c a) : EnvCached Q v :=
  ⟨h.once, fun e he hne => hPQ _ _ (h.holds e he hne)⟩

section Env

variable {P : UInt16 → Nat → Prop} {v : List (UInt16 × Nat)} {c : UInt16} {addr : Nat}

/-- The loop changes the address of the first entry with these bits, if there is one. -/
theorem updateEnvCacheLoop_spec (c : UInt16) (addr : Nat) (i : Nat) (table : List EnvCacheNode)
    (scan : CacheScan) :
    ((∃ scan', (updateEnvCacheLoop c addr i table scan).2 = some scan') ∧
        (∀ e ∈ view table, e.1 ≠ c) ∧
        view (updateEnvCacheLoop c addr i table scan).1 = view table) ∨
      (updateEnvCacheLoop c addr i table scan).2 = none ∧
        ∃ front a back, view table = front ++ (c, a) :: back ∧ (∀ e ∈ front, e.1 ≠ c) ∧
          view (updateEnvCacheLoop c addr i table scan).1 = front ++ (c, addr) :: back := by
  induction table generalizing i scan with
  | nil => exact .inl ⟨⟨scan, rfl⟩, fun e he => absurd he List.not_mem_nil, rfl⟩
  | cons e rest ih =>
      -- An entry that is passed keeps its bits and its address.
      have hpass (e' : EnvCacheNode) (hcrc : e'.name_crc = e.name_crc) (haddr : e'.addr = e.addr)
          (hne : e.name_crc ≠ c) (i' : Nat) (scan' : CacheScan) :
          let r := updateEnvCacheLoop c addr i' rest scan'
          ((∃ scan', r.2 = some scan') ∧ (∀ x ∈ view (e :: rest), x.1 ≠ c) ∧
            view (e' :: r.1) = view (e :: rest)) ∨
          r.2 = none ∧ ∃ front a back, view (e :: rest) = front ++ (c, a) :: back ∧
            (∀ x ∈ front, x.1 ≠ c) ∧ view (e' :: r.1) = front ++ (c, addr) :: back := by
        intro r
        have hhead : view (e' :: r.1) = (e.name_crc, e.addr) :: view r.1 := by
          rw [← hcrc, ← haddr]
          rfl
        have hview : view (e :: rest) = (e.name_crc, e.addr) :: view rest := rfl
        rw [hhead, hview]
        rcases ih i' scan' with ⟨hscan, hall, hsame⟩ | ⟨hscan, front, a, back, hrest, hfront, hnew⟩
        · exact .inl ⟨hscan, List.forall_mem_cons.mpr ⟨hne, hall⟩, by rw [hsame]⟩
        · refine .inr ⟨hscan, (e.name_crc, e.addr) :: front, a, back, by rw [hrest]; rfl, ?_, ?_⟩
          · exact List.forall_mem_cons.mpr ⟨hne, hfront⟩
          · rw [hnew]
            rfl
      rw [updateEnvCacheLoop]
      by_cases haddr : addr ≠ FAILED_ADDR
      · rw [if_pos haddr]
        by_cases hcrc : e.name_crc = c
        · rw [if_pos hcrc]
          refine .inr ⟨rfl, [], e.addr, view rest, ?_, fun x hx => absurd hx List.not_mem_nil, ?_⟩
          · rw [← hcrc]
            rfl
          · rw [← hcrc]
            rfl
        · rw [if_neg hcrc]
          split_ifs
          all_goals exact hpass _ rfl rfl hcrc _ _
      · rw [if_neg haddr]
        by_cases hcrc : e.name_crc = c
        · rw [if_pos hcrc]
          rw [not_not] at haddr
          refine .inr ⟨rfl, [], e.addr, view rest, ?_, fun x hx => absurd hx List.not_mem_nil, ?_⟩
          · rw [← hcrc]
            rfl
          · rw [← hcrc, haddr]
            rfl
        · rw [if_neg hcrc]
          exact hpass _ rfl rfl hcrc _ _

theorem view_set (table : List EnvCacheNode) (i : Nat) (e : EnvCacheNode) :
    view (table.set i e) = (view table).set i (e.name_crc, e.addr) :=
  List.map_set

/-- What an update does: it changes the first entry with these bits, or sets one, or nothing. -/
theorem view_updateEnvCache (table : List EnvCacheNode) (name : List UInt8) (addr : Nat) :
    (∃ front a back, view table = front ++ (nameCrc name, a) :: back ∧
        (∀ e ∈ front, e.1 ≠ nameCrc name) ∧
        view (updateEnvCache table name addr) = front ++ (nameCrc name, addr) :: back) ∨
      (∀ e ∈ view table, e.1 ≠ nameCrc name) ∧
        ((∃ i, view (updateEnvCache table name addr) = (view table).set i (nameCrc name, addr)) ∨
          view (updateEnvCache table name addr) = view table) := by
  have hloop := updateEnvCacheLoop_spec (nameCrc name) addr 0 table
    ⟨EF_ENV_CACHE_TABLE_SIZE, EF_ENV_CACHE_TABLE_SIZE, 0xFFFF⟩
  unfold updateEnvCache
  dsimp only
  rcases hr : updateEnvCacheLoop (nameCrc name) addr 0 table
    ⟨EF_ENV_CACHE_TABLE_SIZE, EF_ENV_CACHE_TABLE_SIZE, 0xFFFF⟩ with ⟨table', found⟩
  rw [hr] at hloop
  rcases hloop with ⟨⟨scan', hscan⟩, hall, hsame⟩ | ⟨hscan, front, a, back, hview, hfront, hnew⟩
  · dsimp only at hscan hsame
    subst hscan
    refine .inr ⟨hall, ?_⟩
    dsimp only
    split_ifs
    · exact .inl ⟨scan'.empty_index, by rw [view_set, hsame]⟩
    · exact .inl ⟨scan'.min_activity_index, by rw [view_set, hsame]⟩
    · exact .inr hsame
  · dsimp only at hscan
    subst hscan
    exact .inl ⟨front, a, back, hview, hfront, hnew⟩

/-- An entry that is changed where the first one with its bits stands. -/
theorem EnvCached.replace {front back : List (UInt16 × Nat)} {a : Nat}
    (h : EnvCached P (front ++ (c, a) :: back)) (hfront : ∀ e ∈ front, e.1 ≠ c) :
    EnvCached (fun c' a' => c' = c ∧ a' = addr ∨ c' ≠ c ∧ P c' a')
      (front ++ (c, addr) :: back) := by
  obtain ⟨honce, hholds⟩ := h
  rw [List.pairwise_append, List.pairwise_cons] at honce
  obtain ⟨hpre, ⟨hmid, hback⟩, hcross⟩ := honce
  constructor
  · rw [List.pairwise_append, List.pairwise_cons]
    refine ⟨hpre, ⟨hmid, hback⟩, ?_⟩
    intro x hx y hy hlive
    rcases List.mem_cons.mp hy with rfl | hy
    · exact hfront x hx
    · exact hcross x hx y (List.mem_cons_of_mem _ hy) hlive
  · intro x hx hlive
    rcases List.mem_append.mp hx with hx | hx
    · exact .inr ⟨hfront x hx, hholds x (List.mem_append_left _ hx) hlive⟩
    · rcases List.mem_cons.mp hx with rfl | hx
      · exact .inl ⟨rfl, rfl⟩
      · exact .inr ⟨(hmid x hx hlive).symm,
          hholds x (List.mem_append_right _ (List.mem_cons_of_mem _ hx)) hlive⟩

/-- An entry that is replaced in a table without these bits. -/
theorem EnvCached.set (h : EnvCached P v) (hne : ∀ e ∈ v, e.1 ≠ c) (i : Nat) :
    EnvCached (fun c' a' => c' = c ∧ a' = addr ∨ c' ≠ c ∧ P c' a') (v.set i (c, addr)) := by
  constructor
  · rw [List.pairwise_iff_getElem]
    intro j k hj hk hjk
    rw [List.length_set] at hj hk
    rw [List.getElem_set, List.getElem_set]
    split_ifs with hik hij hij
    · omega
    · intro _
      exact hne _ (List.getElem_mem hj)
    · intro _
      exact (hne _ (List.getElem_mem hk)).symm
    · exact (List.pairwise_iff_getElem.mp h.once) j k hj hk hjk
  · intro e he hlive
    rcases List.mem_or_eq_of_mem_set he with hmem | rfl
    · exact .inr ⟨hne e hmem, h.holds e hmem hlive⟩
    · exact .inl ⟨rfl, rfl⟩

/-- An address that is cached replaces the others with the same bits. -/
theorem envCached_update {table : List EnvCacheNode} (h : EnvCached P (view table))
    (name : List UInt8) (addr : Nat) :
    EnvCached (fun c a => c = nameCrc name ∧ a = addr ∨ c ≠ nameCrc name ∧ P c a)
      (view (updateEnvCache table name addr)) := by
  rcases view_updateEnvCache table name addr with
    ⟨front, a, back, hview, hfront, hnew⟩ | ⟨hall, ⟨i, hset⟩ | hsame⟩
  · rw [hnew]
    rw [hview] at h
    exact h.replace hfront
  · rw [hset]
    exact h.set hall i
  · rw [hsame]
    refine ⟨h.once, fun e he hlive => ?_⟩
    exact .inr ⟨hall e he, h.holds e he hlive⟩

/-- A name is taken out of the cache. -/
theorem envCached_delete {table : List EnvCacheNode} (h : EnvCached P (view table))
    (name : List UInt8) :
    EnvCached (fun c a => c ≠ nameCrc name ∧ P c a)
      (view (updateEnvCache table name FAILED_ADDR)) := by
  have hupdate := envCached_update h name FAILED_ADDR
  refine ⟨hupdate.once, fun e he hlive => ?_⟩
  have hholds := hupdate.holds e he hlive
  rcases hholds with ⟨-, hfail⟩ | hholds
  · exact absurd hfail hlive
  · exact hholds

/-- A hit is an entry with the bits of the name, whose variable begins with the name; the
addresses in the table stay as they are. -/
theorem getEnvFromCache_spec (m : Memory) {name : List UInt8} {table table' : List EnvCacheNode}
    {addr : Nat} (h : getEnvFromCache m name table = some (addr, table')) :
    addr ≠ FAILED_ADDR ∧ (nameCrc name, addr) ∈ view table ∧ view table' = view table ∧
      (m.read (addr + ENV_HDR_DATA_SIZE) EF_ENV_NAME_MAX).take name.length = name := by
  induction table generalizing table' with
  | nil => exact absurd h (by simp [getEnvFromCache])
  | cons e rest ih =>
      rw [getEnvFromCache] at h
      split_ifs at h with hhit
      · cases h
        obtain ⟨hlive, hcrc, hname⟩ := hhit
        refine ⟨hlive, ?_, rfl, hname⟩
        rw [← hcrc]
        exact List.mem_cons_self
      · obtain ⟨⟨addr', rest'⟩, hrest, heq⟩ := Option.map_eq_some_iff.mp h
        cases heq
        obtain ⟨hlive, hmem, hview, hname⟩ := ih hrest
        refine ⟨hlive, List.mem_cons_of_mem _ hmem, ?_, hname⟩
        change (e.name_crc, e.addr) :: view rest' = (e.name_crc, e.addr) :: view rest
        rw [hview]

end Env

end EasyFlash

end WeatherStation
