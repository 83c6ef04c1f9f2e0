import WeatherStation.Storage.EnvGc

/-!
# The store between two calls

Between two calls one of the two sectors is empty, and the variables that count in the other
one have different names: they make up a map from names to values.  Room for a new variable is
found behind them, if need be after a collection, and neither changes the map.

Main results:

- Theorem {lit}`Resting.gc`: a collection between two calls does not change the map.
- Theorem {lit}`Resting.new`: nor does the search for room.
-/

open Foundation

namespace WeatherStation

namespace EasyFlash

/-! ## The contents of the store -/

/-- The value of each variable. -/
abbrev Contents := CStr → Option (List UInt8)

/-- The values of the variables that count. -/
def contents (ns : List Node) : Contents := fun key =>
  ((liveNodes ns).find? (·.key = key)).map Node.value

/-- No two of the variables that count have the same name. -/
def Distinct (ns : List Node) : Prop :=
  (liveNodes ns).Pairwise fun n n' => n.key ≠ n'.key

theorem mem_liveNodes {ns : List Node} {n : Node} :
    n ∈ liveNodes ns ↔ n ∈ ns ∧ n.status = .write := by
  unfold liveNodes
  rw [List.mem_filter, decide_eq_true_iff]

theorem liveNodes_append (ns ns' : List Node) :
    liveNodes (ns ++ ns') = liveNodes ns ++ liveNodes ns' :=
  List.filter_append ns ns'

theorem liveNodes_cons_of_live {n : Node} (h : n.status = .write) (ns : List Node) :
    liveNodes (n :: ns) = n :: liveNodes ns :=
  List.filter_cons_of_pos (decide_eq_true h)

theorem liveNodes_cons_of_dead {n : Node} (h : n.status ≠ .write) (ns : List Node) :
    liveNodes (n :: ns) = liveNodes ns :=
  List.filter_cons_of_neg (by rw [decide_eq_true_iff]; exact h)

theorem liveNodes_liveNodes (ns : List Node) : liveNodes (liveNodes ns) = liveNodes ns :=
  List.filter_eq_self.mpr fun _ hn => decide_eq_true (mem_liveNodes.mp hn).2

/-- The value of a variable that counts. -/
theorem contents_eq_some_iff {ns : List Node} (h : Distinct ns) {key : CStr}
    {value : List UInt8} :
    contents ns key = some value ↔ ∃ n ∈ liveNodes ns, n.key = key ∧ n.value = value := by
  unfold Distinct at h
  unfold contents
  generalize liveNodes ns = live at h ⊢
  induction live with
  | nil =>
      refine iff_of_false (fun hno => by cases hno) ?_
      rintro ⟨n, hn, -⟩
      exact absurd hn List.not_mem_nil
  | cons n live ih =>
      obtain ⟨hhead, htail⟩ := List.pairwise_cons.mp h
      by_cases hkey : n.key = key
      · rw [List.find?_cons_of_pos (p := fun x : Node => x.key = key) (decide_eq_true hkey)]
        constructor
        · intro hvalue
          exact ⟨n, List.mem_cons_self, hkey, Option.some.inj hvalue⟩
        · rintro ⟨n', hn', hkey', hvalue⟩
          rcases List.mem_cons.mp hn' with rfl | hn'
          · exact congrArg some hvalue
          · exact absurd (hkey.trans hkey'.symm) (hhead n' hn')
      · rw [List.find?_cons_of_neg (by rw [decide_eq_true_iff]; exact hkey), ih htail]
        constructor
        · rintro ⟨n', hn', hall⟩
          exact ⟨n', List.mem_cons_of_mem n hn', hall⟩
        · rintro ⟨n', hn', hkey', hvalue⟩
          rcases List.mem_cons.mp hn' with rfl | hn'
          · exact absurd hkey' hkey
          · exact ⟨n', hn', hkey', hvalue⟩

theorem contents_eq_none_iff {ns : List Node} {key : CStr} :
    contents ns key = none ↔ ∀ n ∈ liveNodes ns, n.key ≠ key := by
  unfold contents
  rw [Option.map_eq_none_iff, List.find?_eq_none]
  simp only [decide_eq_true_eq, ne_eq]

/-- A variable that counts is taken away. -/
theorem contents_erase {ns ns' front back : List Node} {n : Node} (h : Distinct ns)
    (hns : liveNodes ns = front ++ n :: back) (hns' : liveNodes ns' = front ++ back) :
    Distinct ns' ∧ contents ns' = Function.update (contents ns) n.key none := by
  have hdistinct : Distinct ns' := by
    unfold Distinct at h ⊢
    rw [hns] at h
    rw [hns']
    exact h.sublist (List.Sublist.append_left (List.sublist_cons_self n back) front)
  refine ⟨hdistinct, ?_⟩
  unfold Distinct at h
  rw [hns, List.pairwise_append, List.pairwise_cons] at h
  obtain ⟨-, ⟨hback, -⟩, hfront⟩ := h
  funext key
  by_cases hkey : key = n.key
  · rw [hkey, Function.update_self, contents_eq_none_iff, hns']
    intro n' hn'
    rcases List.mem_append.mp hn' with hn' | hn'
    · exact hfront n' hn' n List.mem_cons_self
    · exact fun heq => hback n' hn' heq.symm
  · rw [Function.update_of_ne hkey]
    unfold contents
    rw [hns, hns', List.find?_append, List.find?_append, List.find?_cons_of_neg]
    rw [decide_eq_true_iff]
    exact fun heq => hkey heq.symm

/-- A variable is added under a name that is not used. -/
theorem contents_concat {ns ns' : List Node} {n : Node} (h : Distinct ns)
    (hns' : liveNodes ns' = liveNodes ns ++ [n]) (hnew : contents ns n.key = none) :
    Distinct ns' ∧ contents ns' = Function.update (contents ns) n.key (some n.value) := by
  have hother := contents_eq_none_iff.mp hnew
  constructor
  · unfold Distinct
    rw [hns', List.pairwise_append]
    refine ⟨h, List.pairwise_singleton _ _, ?_⟩
    intro n' hn' n'' hn''
    rw [List.mem_singleton.mp hn'']
    exact hother n' hn'
  · funext key
    unfold contents
    rw [hns', List.find?_append]
    by_cases hkey : key = n.key
    · have hnone : (liveNodes ns).find? (·.key = key) = none := by
        rw [List.find?_eq_none]
        intro n' hn'
        rw [decide_eq_true_iff, hkey]
        exact hother n' hn'
      rw [hkey] at hnone
      rw [hkey, Function.update_self, hnone, Option.none_or,
        List.find?_cons_of_pos (p := fun x : Node => x.key = n.key) (decide_eq_true rfl)]
      rfl
    · rw [Function.update_of_ne hkey, List.find?_cons_of_neg, List.find?_nil, Option.or_none]
      rw [decide_eq_true_iff]
      exact fun heq => hkey heq.symm

/-! ## Sectors between two calls -/

/-- A sector that was filled by completed calls. -/
structure Settled (K : CStr → Prop) (A : SectorDesc) : Prop where
  packed : A.Packed
  status : ∀ n ∈ A.nodes, n.status = .write ∨ n.status = .deleted
  keys : ∀ n ∈ A.nodes, K n.key
  distinct : Distinct A.nodes
  dirty : A.dirty = .false ∨ A.dirty = .true ∧ A.nodes ≠ []
  clean : A.dirty = .false → ∀ n ∈ A.nodes, n.status = .write
  full : A.store = .full →
    SECTOR_SIZE - SECTOR_HDR_DATA_SIZE < nodesLen A.nodes + EF_SEC_REMAIN_THRESHOLD

section Settled

variable {K : CStr → Prop} {A : SectorDesc}

theorem settled_formatted : Settled K formatted where
  packed := packed_formatted
  status _ h := absurd h List.not_mem_nil
  keys _ h := absurd h List.not_mem_nil
  distinct := List.Pairwise.nil
  dirty := .inl rfl
  clean _ _ h := absurd h List.not_mem_nil
  full h := by cases h

/-- What was collected is packed. -/
theorem packed_collect {d : SectorDesc} (hpacked : d.Packed)
    (hfits : nodesLen d.nodes < SECTOR_SIZE - SECTOR_HDR_DATA_SIZE) {done todo : List Node}
    (hnodes : d.nodes = done ++ todo) : (collect done).Packed := by
  induction done using List.reverseRecOn generalizing todo with
  | nil => exact packed_formatted
  | append_singleton done n ih =>
      rw [List.append_assoc] at hnodes
      have hdone := ih hnodes
      obtain ⟨hst, hroom⟩ := collect_takes hpacked hfits hnodes
      rw [collect_concat]
      split_ifs
      · refine hdone.add hst (fun hempty => ?_) hroom
        rcases fill_store (liveNodes done) with ⟨-, hnil⟩ | ⟨hused, -⟩ | ⟨hfull, -⟩
        · rw [collect, fill_nodes, hnil]
        · rw [collect, hused] at hempty
          cases hempty
        · rw [collect, hfull] at hempty
          cases hempty
      · exact hdone

@[simp] theorem collect_nodes (ns : List Node) : (collect ns).nodes = liveNodes ns :=
  fill_nodes _

theorem Settled.collect (h : Settled K A)
    (hfits : nodesLen A.nodes < SECTOR_SIZE - SECTOR_HDR_DATA_SIZE) :
    Settled K (collect A.nodes) where
  packed := packed_collect h.packed hfits (List.append_nil _).symm
  status n hn := by
    rw [collect_nodes] at hn
    exact .inl (mem_liveNodes.mp hn).2
  keys n hn := by
    rw [collect_nodes] at hn
    exact h.keys n (mem_liveNodes.mp hn).1
  distinct := by
    have hdistinct := h.distinct
    unfold Distinct at hdistinct ⊢
    rwa [collect_nodes, liveNodes_liveNodes]
  dirty := .inl (fill_dirty _)
  clean _ n hn := by
    rw [collect_nodes] at hn
    exact (mem_liveNodes.mp hn).2
  full hfull := by
    rw [collect_nodes]
    unfold EasyFlash.collect at hfull
    rcases fill_store (liveNodes A.nodes) with ⟨hst, -⟩ | ⟨hst, -⟩ | ⟨-, -, hlittle⟩
    · rw [hst] at hfull
      cases hfull
    · rw [hst] at hfull
      cases hfull
    · exact hlittle

theorem contents_liveNodes (ns : List Node) : contents (liveNodes ns) = contents ns := by
  funext key
  unfold contents
  rw [liveNodes_liveNodes]

/-- Without deleted variables there is nothing that a collection leaves out. -/
theorem Settled.liveNodes_eq (h : Settled K A) (hclean : A.dirty = .false) :
    liveNodes A.nodes = A.nodes :=
  List.filter_eq_self.mpr fun n hn => decide_eq_true (h.clean hclean n hn)

end Settled

/-! ## The store between two calls -/

/-- The store between two calls: the variables are in one sector, and nothing is left to do. -/
structure Resting (K : CStr → Prop) (s : Store) (a : Nat) (A : SectorDesc) : Prop where
  addr : SectorAddr a
  represents : Represents s (pair a A formatted)
  cached : EnvCacheOk (pair a A formatted) s.env_cache_table
  settled : Settled K A
  gc_request : s.gc_request = Bool.false
  in_recovery_check : s.in_recovery_check = Bool.false
  last_is_complete_del : s.last_is_complete_del = Bool.false
  init_ok : s.init_ok = Bool.true

namespace Resting

variable {K : CStr → Prop} {s : Store} {a : Nat} {A : SectorDesc}

theorem ok (h : Resting K s a A) : A.Ok := by
  have hok := h.represents.ok a h.addr
  rwa [pair_self] at hok

theorem store_ne_empty (h : Resting K s a A) (hne : A.nodes ≠ []) : A.store ≠ .empty :=
  fun hempty => hne (h.ok.empty.mp hempty)

theorem free_ne_failed (h : Resting K s a A) : A.free a ≠ FAILED_ADDR := by
  have hne := (h.represents.image a h.addr).free_ne_failed h.addr
  rwa [pair_self] at hne

theorem fits (h : Resting K s a A) : nodesLen A.nodes < SECTOR_SIZE - SECTOR_HDR_DATA_SIZE := by
  have hfits := (h.represents.image a h.addr).fits
  rwa [pair_self] at hfits

/-- A sector without variables is as it was formatted. -/
theorem eq_formatted (h : Resting K s a A) (hstore : A.store = .empty) : A = formatted := by
  have hnodes := h.ok.empty.mp hstore
  have hdirty : A.dirty = .false := by
    rcases h.settled.dirty with hclean | ⟨-, hne⟩
    · exact hclean
    · exact absurd hnodes hne
  cases A
  unfold formatted
  dsimp only at hstore hnodes hdirty
  rw [hstore, hnodes, hdirty]

/-- The free space of the sectors may be cached. -/
theorem setTable (h : Resting K s a A) {table : List SectorCacheNode}
    (hrep : Represents { s with sector_cache_table := table } (pair a A formatted)) :
    Resting K { s with sector_cache_table := table } a A :=
  ⟨h.addr, hrep, h.cached, h.settled, h.gc_request, h.in_recovery_check,
    h.last_is_complete_del, h.init_ok⟩

/-- A collection between two calls leaves the variables that count. -/
theorem gc (h : Resting K s a A) :
    ∃ b B, Resting K (gcCollect { s with gc_request := Bool.true }) b B ∧
      B.nodes = liveNodes A.nodes := by
  have hrep : Represents { s with gc_request := Bool.true } (pair a A formatted) :=
    h.represents.congr rfl rfl
  rcases h.settled.dirty with hclean | ⟨hdirty, hne⟩
  · have hall : ∀ b, SectorAddr b → (pair a A formatted b).dirty = .false := by
      intro b hb
      rcases h.addr.eq_or_other hb with rfl | rfl
      · rw [pair_self]
        exact hclean
      · rw [pair_other h.addr]
        rfl
    rw [gcCollect_clean hrep hall]
    exact ⟨a, A, ⟨h.addr, h.represents.congr rfl rfl, h.cached, h.settled, rfl,
      h.in_recovery_check, h.last_is_complete_del, h.init_ok⟩, (h.settled.liveNodes_eq hclean).symm⟩
  · have hA : Collectable { s with gc_request := Bool.true } A := by
      refine ⟨h.settled.packed, ?_, rfl, h.in_recovery_check, h.last_is_complete_del⟩
      intro n hn hpre
      rcases h.settled.status n hn with hstatus | hstatus
      all_goals
        rw [hstatus] at hpre
        cases hpre
    obtain ⟨hrep', hcached', m, t, e, hstate⟩ :=
      gcCollect_spec hrep h.addr hA (.inl hdirty) hne h.cached
    rw [← pair_swap h.addr] at hrep' hcached'
    refine ⟨otherSector a, EasyFlash.collect A.nodes, ?_, collect_nodes _⟩
    refine ⟨h.addr.other, hrep', hcached', h.settled.collect h.fits, ?_, ?_, ?_, ?_⟩
    · rw [hstate]
    · rw [hstate]
      exact h.in_recovery_check
    · rw [hstate]
      exact h.last_is_complete_del
    · rw [hstate]
      exact h.init_ok

/-- There is room for a variable behind the others of a sector. -/
structure Room (a : Nat) (A : SectorDesc) (env_size : Nat) (r : Store × SectorMeta × Nat) :
    Prop where
  addr : r.2.2 = A.free a
  sector : r.2.1 = A.read a
  store : A.store = .empty ∨ A.store = .inUse
  room : env_size < A.room

/-- Where no place is found there is too little room in the sector, or it is full. -/
theorem of_allocPlace_eq_none (h : Resting K s a A) {env_size : Nat}
    (hplace : allocPlace (pair a A formatted) Bool.false env_size = none) :
    ¬((A.store = .empty ∨ A.store = .inUse) ∧ env_size < A.room) ∧
      (A.store ≠ .empty → AsksForGc (pair a A formatted) Bool.false env_size) := by
  have hnotfull : formatted.store ≠ .inUse := by decide
  have hdirty : A.dirty = .false ∨ A.dirty = .true ∧ ¬Bool.false = Bool.true := by
    rcases h.settled.dirty with hclean | ⟨hdirty, -⟩
    · exact .inl hclean
    · exact .inr ⟨hdirty, Bool.false_ne_true⟩
  have hcount := countSectors_pair h.addr A formatted .empty
  have hlast : (if formatted.store = .empty then 1 else 0) = 1 := rfl
  unfold allocPlace at hplace
  cases hfit : firstFit (pair a A formatted) .inUse Bool.false env_size with
  | some b =>
      rw [hfit] at hplace
      cases hplace
  | none =>
      rw [hfit] at hplace
      dsimp only at hplace
      refine ⟨?_, fun hne => ⟨hfit, ?_⟩⟩
      · rintro ⟨hst | hst, hroom⟩
        · obtain rfl := h.eq_formatted hst
          have hmany : EF_GC_EMPTY_SEC_THRESHOLD <
              countSectors (pair a formatted formatted) .empty := by
            rw [hcount]
            decide
          have hself : ∀ b, SectorAddr b → pair a formatted formatted b = formatted := by
            intro b hb
            rcases h.addr.eq_or_other hb with rfl | rfl
            · exact pair_self _ _ _
            · exact pair_other h.addr _ _
          rw [if_pos (.inl hmany), firstFit_eq, hself 0 (.inl rfl), if_pos ⟨rfl, hroom, hdirty⟩]
            at hplace
          cases hplace
        · have hsome := firstFit_pair (B := formatted) h.addr ⟨hst, hroom, hdirty⟩
            (fun hall => hnotfull hall.1)
          rw [hfit] at hsome
          cases hsome
      · rw [hcount, if_neg hne]
        rfl

/-- The search for room does not change the contents.  Where it fails it may ask for a
collection. -/
theorem alloc (h : Resting K s a A) (sector : SectorMeta) (env_size : Nat) :
    (∃ b, Resting K (allocEnv s sector env_size).1 b A ∧
        Room b A env_size (allocEnv s sector env_size)) ∨
      (allocEnv s sector env_size).2.2 = FAILED_ADDR ∧
        ¬((A.store = .empty ∨ A.store = .inUse) ∧ env_size < A.room) ∧
        ∃ s' gc_request, Resting K s' a A ∧
          (A.store ≠ .empty → gc_request = Bool.true) ∧
          (allocEnv s sector env_size).1 = { s' with gc_request := gc_request } := by
  obtain ⟨⟨table, hrep, hstate⟩, haddr, hsector⟩ := allocEnv_spec h.represents sector env_size
  rw [h.gc_request, Bool.false_or] at hrep hstate
  rw [h.gc_request] at haddr hsector
  have hrep' : Represents { s with sector_cache_table := table } (pair a A formatted) :=
    hrep.congr rfl rfl
  have hrest := h.setTable hrep'
  cases hplace : allocPlace (pair a A formatted) Bool.false env_size with
  | none =>
      rw [hplace] at haddr
      obtain ⟨hno, hasks⟩ := h.of_allocPlace_eq_none hplace
      refine .inr ⟨haddr, hno, _, _, hrest, fun hne => ?_, hstate⟩
      exact decide_eq_true (hasks hne)
  | some b =>
      refine .inl ?_
      rw [hplace] at haddr
      have hread := hsector b hplace
      have hnotfull : formatted.store ≠ .inUse := by decide
      unfold allocPlace at hplace
      cases hfit : firstFit (pair a A formatted) .inUse Bool.false env_size with
      | some b' =>
          -- The sector in use takes it.
          rw [hfit] at hplace
          cases hplace
          obtain ⟨hb, hst, htakes⟩ := of_firstFit hfit
          have hasks : ¬AsksForGc (pair a A formatted) Bool.false env_size := by
            rintro ⟨hnone, -⟩
            rw [hfit] at hnone
            cases hnone
          rw [decide_eq_false hasks] at hstate
          have hsame : (allocEnv s sector env_size).1 =
              { s with sector_cache_table := table } := by
            rw [hstate, ← h.gc_request]
          rcases h.addr.eq_or_other hb with rfl | rfl
          · rw [pair_self] at hst htakes hread
            dsimp only at haddr
            rw [pair_self] at haddr
            refine ⟨b, ?_, haddr, hread, .inr hst, htakes.1⟩
            rw [hsame]
            exact hrest
          · rw [pair_other h.addr] at hst
            exact absurd hst hnotfull
      | none =>
          -- Both sectors are empty.
          rw [hfit] at hplace
          dsimp only at hplace
          have hmany : EF_GC_EMPTY_SEC_THRESHOLD < countSectors (pair a A formatted) .empty ∨
              0 < countSectors (pair a A formatted) .empty ∧ Bool.false = Bool.true := by
            by_contra hfew
            rw [if_neg hfew] at hplace
            cases hplace
          rw [if_pos hmany] at hplace
          have hcount := countSectors_pair h.addr A formatted .empty
          have hthreshold : EF_GC_EMPTY_SEC_THRESHOLD = 1 := rfl
          have hlast : (if formatted.store = .empty then 1 else 0) = 1 := rfl
          have hempty : A.store = .empty := by
            by_contra hne
            rw [if_neg hne] at hcount
            rcases hmany with hmany | ⟨-, hno⟩
            · omega
            · exact absurd hno Bool.false_ne_true
          have hasks : ¬AsksForGc (pair a A formatted) Bool.false env_size := by
            rintro ⟨-, hone⟩
            rw [if_pos hempty] at hcount
            omega
          rw [decide_eq_false hasks] at hstate
          have hsame : (allocEnv s sector env_size).1 =
              { s with sector_cache_table := table } := by
            rw [hstate, ← h.gc_request]
          obtain rfl := h.eq_formatted hempty
          obtain ⟨hb, -, htakes⟩ := of_firstFit hplace
          have hpair : pair b formatted formatted = pair a formatted formatted := by
            rcases h.addr.eq_or_other hb with rfl | rfl
            · rfl
            · exact pair_swap h.addr _ _
          rw [← hpair, pair_self] at htakes hread
          dsimp only at haddr
          rw [← hpair, pair_self] at haddr
          refine ⟨b, ?_, haddr, hread, .inl rfl, htakes.1⟩
          rw [hsame]
          exact ⟨hb, hpair.symm ▸ hrest.represents, hpair.symm ▸ hrest.cached,
            hrest.settled, hrest.gc_request, hrest.in_recovery_check,
            hrest.last_is_complete_del, hrest.init_ok⟩

/-- A sector that takes no variable has little room. -/
theorem little_room (h : Resting K s a A) {env_size : Nat}
    (hnone : ¬((A.store = .empty ∨ A.store = .inUse) ∧ env_size < A.room)) :
    SECTOR_SIZE - SECTOR_HDR_DATA_SIZE <
      nodesLen A.nodes + env_size + EF_SEC_REMAIN_THRESHOLD := by
  have hthreshold : EF_SEC_REMAIN_THRESHOLD = 56 := rfl
  have hcut : A.room = SECTOR_SIZE - SECTOR_HDR_DATA_SIZE - nodesLen A.nodes := rfl
  cases hst : A.store with
  | unused => exact absurd hst h.ok.formatted
  | empty =>
      have hroom : ¬env_size < A.room := fun hroom => hnone ⟨.inl hst, hroom⟩
      omega
  | inUse =>
      have hroom : ¬env_size < A.room := fun hroom => hnone ⟨.inr hst, hroom⟩
      omega
  | full =>
      have hlittle := h.settled.full hst
      omega

/-- A new variable finds room, if need be after a collection, and the contents stay.  Where it
finds none the variables that count do not leave enough of a sector. -/
theorem new (h : Resting K s a A) (sector : SectorMeta) (env_size : Nat) :
    (newEnv s sector env_size).2.2 = FAILED_ADDR ∧
        SECTOR_SIZE - SECTOR_HDR_DATA_SIZE <
          nodesLen (liveNodes A.nodes) + env_size + EF_SEC_REMAIN_THRESHOLD ∨
      ∃ b B, Resting K (newEnv s sector env_size).1 b B ∧
        contents B.nodes = contents A.nodes ∧ Room b B env_size (newEnv s sector env_size) := by
  have hfound {s' : Store} {b : Nat} {B : SectorDesc} {r : Store × SectorMeta × Nat}
      (hrest : Resting K s' b B) (hroom : Room b B env_size r) : r.2.2 ≠ FAILED_ADDR := by
    rw [hroom.addr]
    exact hrest.free_ne_failed
  unfold newEnv
  dsimp only
  rcases h.alloc sector env_size with
    ⟨b, hrest, hroom⟩ | ⟨hfail, hnone, s', gc_request, hrest, hgc, hstate⟩
  · rw [if_neg fun hall => hfound hrest hroom hall.1]
    exact .inr ⟨b, A, hrest, rfl, hroom⟩
  · cases gc_request with
    | false =>
        have hno : ¬((allocEnv s sector env_size).2.2 = FAILED_ADDR ∧
            (allocEnv s sector env_size).1.gc_request) := by
          rw [hstate]
          exact fun hall => absurd hall.2 Bool.false_ne_true
        rw [if_neg hno]
        -- Then the sector is empty.
        have hempty : A.store = .empty := by
          by_contra hne
          exact Bool.false_ne_true (hgc hne)
        have hlive : liveNodes A.nodes = A.nodes := by
          rw [h.ok.empty.mp hempty]
          rfl
        refine .inl ⟨hfail, ?_⟩
        rw [hlive]
        exact h.little_room hnone
    | true =>
        have hyes : (allocEnv s sector env_size).2.2 = FAILED_ADDR ∧
            (allocEnv s sector env_size).1.gc_request := by
          rw [hstate]
          exact ⟨hfail, rfl⟩
        rw [if_pos hyes, hstate]
        obtain ⟨b, B, hrest', hlive⟩ := hrest.gc
        rcases hrest'.alloc (allocEnv s sector env_size).2.1 env_size with
          ⟨b', hrest'', hroom⟩ | ⟨hfail', hnone', -⟩
        · refine .inr ⟨b', B, hrest'', ?_, hroom⟩
          rw [hlive, contents_liveNodes]
        · refine .inl ⟨hfail', ?_⟩
          rw [← hlive]
          exact hrest'.little_room hnone'

end Resting

end EasyFlash

end WeatherStation
