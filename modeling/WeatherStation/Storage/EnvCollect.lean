import WeatherStation.Storage.EnvStep

/-!
# Collecting a sector

A collection moves the variables that count from a dirty sector to the one that was kept
empty, one after the other, and formats the dirty one.  That the other sector can take them
all, and is not declared full before the last, follows from how the first one was filled.

Main results:

- Theorem {lit}`moveEnv_spec`: one variable is moved.
- Theorem {lit}`collect_takes`: there is room for each of them.
-/

open Foundation

namespace WeatherStation

namespace EasyFlash

/-! ## Two sectors -/

/-- A sector that was formatted. -/
def formatted : SectorDesc :=
  ⟨.empty, .false, []⟩

/-- A sector and the other one. -/
def pair (a : Nat) (A B : SectorDesc) : Nat → SectorDesc := fun x =>
  if x = a then A else if x = otherSector a then B else formatted

section Pair

variable {a : Nat} {A B : SectorDesc}

theorem SectorAddr.other (h : SectorAddr a) : SectorAddr (otherSector a) := by
  rcases h with rfl | rfl
  · exact .inr rfl
  · exact .inl rfl

theorem SectorAddr.other_ne (h : SectorAddr a) : otherSector a ≠ a := by
  rcases h with rfl | rfl
  all_goals decide

theorem SectorAddr.other_other (h : SectorAddr a) : otherSector (otherSector a) = a := by
  rcases h with rfl | rfl
  all_goals rfl

theorem SectorAddr.eq_or_other {b : Nat} (h : SectorAddr a) (hb : SectorAddr b) :
    b = a ∨ b = otherSector a := by
  rcases h with rfl | rfl
  · exact hb
  · exact hb.symm

@[simp] theorem pair_self (a : Nat) (A B : SectorDesc) : pair a A B a = A :=
  if_pos rfl

theorem pair_other (ha : SectorAddr a) (A B : SectorDesc) : pair a A B (otherSector a) = B := by
  rw [pair, if_neg ha.other_ne, if_pos rfl]

theorem update_pair_self (a : Nat) (A B A' : SectorDesc) :
    Function.update (pair a A B) a A' = pair a A' B := by
  funext x
  by_cases hx : x = a
  · rw [hx, Function.update_self, pair_self]
  · rw [Function.update_of_ne hx, pair, pair, if_neg hx, if_neg hx]

theorem update_pair_other (ha : SectorAddr a) (A B B' : SectorDesc) :
    Function.update (pair a A B) (otherSector a) B' = pair a A B' := by
  funext x
  by_cases hx : x = otherSector a
  · rw [hx, Function.update_self, pair_other ha]
  · rw [Function.update_of_ne hx, pair, pair, if_neg hx, if_neg hx]

theorem pair_swap (ha : SectorAddr a) (A B : SectorDesc) :
    pair (otherSector a) B A = pair a A B := by
  funext x
  unfold pair
  rw [ha.other_other]
  split_ifs with hx hx'
  · exact absurd (hx.symm.trans hx') ha.other_ne
  · rfl
  · rfl
  · rfl

theorem countSectors_pair (ha : SectorAddr a) (A B : SectorDesc) (st : SectorStoreStatus) :
    countSectors (pair a A B) st =
      (if A.store = st then 1 else 0) + (if B.store = st then 1 else 0) := by
  rw [countSectors_eq]
  rcases ha with rfl | rfl
  · rw [pair_self, show SECTOR_SIZE = otherSector 0 from rfl, pair_other (.inl rfl)]
  · rw [pair_self, show (0 : Nat) = otherSector SECTOR_SIZE from rfl, pair_other (.inr rfl),
      Nat.add_comm]

/-- Only one of the two sectors takes the variable. -/
theorem firstFit_pair {st : SectorStoreStatus} {gc_request : Bool} {env_size : Nat}
    (ha : SectorAddr a) (hA : A.store = st ∧ A.Takes gc_request env_size)
    (hB : ¬(B.store = st ∧ B.Takes gc_request env_size)) :
    firstFit (pair a A B) st gc_request env_size = some a := by
  rw [firstFit_eq]
  rcases ha with rfl | rfl
  · rw [pair_self, if_pos hA]
  · rw [show (0 : Nat) = otherSector SECTOR_SIZE from rfl, pair_other (.inr rfl), if_neg hB,
      pair_self, if_pos hA]

theorem firstFit_pair_none {st : SectorStoreStatus} {gc_request : Bool} {env_size : Nat}
    (ha : SectorAddr a) (hA : ¬(A.store = st ∧ A.Takes gc_request env_size))
    (hB : ¬(B.store = st ∧ B.Takes gc_request env_size)) :
    firstFit (pair a A B) st gc_request env_size = none := by
  rw [firstFit_eq]
  rcases ha with rfl | rfl
  · rw [pair_self, if_neg hA, show SECTOR_SIZE = otherSector 0 from rfl, pair_other (.inl rfl),
      if_neg hB]
  · rw [show (0 : Nat) = otherSector SECTOR_SIZE from rfl, pair_other (.inr rfl), if_neg hB,
      pair_self, if_neg hA]

end Pair

/-! ## Variables that stay where they are -/

section Stay

variable {d : Nat → SectorDesc} {a x : Nat} {n n' : Node} {front back : List Node}

/-- Of two places in a list of variables, one is the other or is not touched by it. -/
theorem split_of_split {f b : List Node} (h : front ++ n :: back = f ++ n' :: b) :
    nodesLen f = nodesLen front ∧ n' = n ∨
      nodesLen f ≠ nodesLen front ∧ ∀ m : Node, m.len = n.len →
        ∃ f' b', front ++ m :: back = f' ++ n' :: b' ∧ nodesLen f' = nodesLen f := by
  have hpos := n.le_len
  induction front generalizing f with
  | nil =>
      cases f with
      | nil =>
          cases h
          exact .inl ⟨rfl, rfl⟩
      | cons y f =>
          cases h
          refine .inr ⟨by rw [nodesLen_cons, nodesLen_nil]; omega, ?_⟩
          intro m hm
          exact ⟨m :: f, b, rfl, by rw [nodesLen_cons, nodesLen_cons, hm]⟩
  | cons y front ih =>
      have hy := y.le_len
      cases f with
      | nil =>
          cases h
          refine .inr ⟨by rw [nodesLen_cons, nodesLen_nil]; omega, ?_⟩
          intro m hm
          exact ⟨[], front ++ m :: back, rfl, rfl⟩
      | cons z f =>
          obtain ⟨rfl, htail⟩ := List.cons.inj h
          rcases ih htail with ⟨hlen, hn⟩ | ⟨hlen, hall⟩
          · exact .inl ⟨by rw [nodesLen_cons, nodesLen_cons, hlen], hn⟩
          · refine .inr ⟨by rw [nodesLen_cons, nodesLen_cons]; omega, ?_⟩
            intro m hm
            obtain ⟨f', b', heq, hlen'⟩ := hall m hm
            exact ⟨y :: f', b', by rw [List.cons_append, heq]; rfl,
              by rw [nodesLen_cons, nodesLen_cons, hlen']⟩

/-- A variable that counts stays where it is when another one is marked. -/
theorem Live.mark (h : Live d x n') (hnodes : (d a).nodes = front ++ n :: back)
    (hother : n.status = .write → x ≠ a + SECTOR_HDR_DATA_SIZE + nodesLen front)
    (st : EnvStatus) : Live (Function.update d a ((d a).mark front n back st)) x n' := by
  obtain ⟨⟨sec, f, b, hsec, hsplit, rfl⟩, hstatus⟩ := h
  by_cases hab : sec = a
  · subst hab
    rcases split_of_split (hnodes.symm.trans hsplit) with ⟨hlen, rfl⟩ | ⟨-, hall⟩
    · exact absurd (by rw [hlen]) (hother hstatus)
    · obtain ⟨f', b', heq, hlen⟩ := hall { n with status := st } rfl
      refine ⟨⟨sec, f', b', hsec, ?_, by rw [hlen]⟩, hstatus⟩
      rw [Function.update_self]
      exact heq
  · refine ⟨⟨sec, f, b, hsec, ?_, rfl⟩, hstatus⟩
    rw [Function.update_of_ne hab]
    exact hsplit

/-- A variable that counts stays where it is when another one is added. -/
theorem Live.add (h : Live d x n') (a : Nat) (n : Node) :
    Live (Function.update d a ((d a).add n)) x n' := by
  obtain ⟨⟨sec, f, b, hsec, hsplit, rfl⟩, hstatus⟩ := h
  by_cases hab : sec = a
  · subst hab
    refine ⟨⟨sec, f, b ++ [n], hsec, ?_, rfl⟩, hstatus⟩
    rw [Function.update_self, SectorDesc.add, hsplit, List.append_assoc, List.cons_append]
  · refine ⟨⟨sec, f, b, hsec, ?_, rfl⟩, hstatus⟩
    rw [Function.update_of_ne hab]
    exact hsplit

/-- The variable that is added counts. -/
theorem live_added (ha : SectorAddr a) (hstatus : n.status = .write) :
    Live (Function.update d a ((d a).add n)) ((d a).free a) n := by
  refine ⟨⟨a, (d a).nodes, [], ha, ?_, rfl⟩, hstatus⟩
  rw [Function.update_self]
  rfl

/-- At one address there is one variable. -/
theorem eq_of_located {m : Memory} (himage : ∀ a, SectorAddr a → SectorImage m a (d a))
    (ha : SectorAddr a) (hnodes : (d a).nodes = front ++ n :: back)
    (h : Located d (a + SECTOR_HDR_DATA_SIZE + nodesLen front) n') : n' = n := by
  obtain ⟨sec, f, b, hsec, hsplit, haddr⟩ := h
  have hsize : SECTOR_SIZE = 4096 := rfl
  have hhdr : SECTOR_HDR_DATA_SIZE = 16 := rfl
  have hfits := (himage a ha).fits
  have hfits' := (himage sec hsec).fits
  rw [hnodes, nodesLen_append, nodesLen_cons] at hfits
  rw [hsplit, nodesLen_append, nodesLen_cons] at hfits'
  have hpos := n.le_len
  have hpos' := n'.le_len
  by_cases hab : sec = a
  · subst hab
    rcases split_of_split (hnodes.symm.trans hsplit) with ⟨-, heq⟩ | ⟨hne, -⟩
    · exact heq
    · omega
  · rcases ha.apart hsec hab with hapart | hapart
    all_goals omega

end Stay

/-! ## Moving one variable -/

/-- The cached addresses do not go astray when a variable that counts is marked: the entries
with other bits of the checksum stay right. -/
theorem EnvCacheOk.mark {d : Nat → SectorDesc} {m : Memory} {table : List EnvCacheNode} {a : Nat}
    {n : Node} {front back : List Node} (h : EnvCacheOk d table)
    (himage : ∀ a, SectorAddr a → SectorImage m a (d a)) (ha : SectorAddr a)
    (hnodes : (d a).nodes = front ++ n :: back) (st : EnvStatus) :
    EnvCached (fun c x => c ≠ nameCrc n.key.bytes → ∃ n',
      Live (Function.update d a ((d a).mark front n back st)) x n' ∧ nameCrc n'.key.bytes = c)
        (view table) := by
  apply h.mono
  rintro c x ⟨n', hn', rfl⟩ hne
  refine ⟨n', hn'.mark hnodes ?_ st, rfl⟩
  rintro - rfl
  rw [eq_of_located himage ha hnodes hn'.1] at hne
  exact hne rfl

/-- The cached addresses are right when the variable is written anew. -/
theorem envCacheOk_add {d : Nat → SectorDesc} {table : List EnvCacheNode} {a : Nat} {n : Node}
    (h : EnvCached (fun c x => c ≠ nameCrc n.key.bytes → ∃ n', Live d x n' ∧
      nameCrc n'.key.bytes = c) (view table))
    (ha : SectorAddr a) (hstatus : n.status = .write) :
    EnvCacheOk (Function.update d a ((d a).add n))
      (updateEnvCache table n.key.bytes ((d a).free a)) := by
  apply (envCached_update h n.key.bytes ((d a).free a)).mono
  rintro c x (⟨rfl, rfl⟩ | ⟨hne, hold⟩)
  · exact ⟨n, live_added ha hstatus, rfl⟩
  · obtain ⟨n', hn', hcrc⟩ := hold hne
    exact ⟨n', hn'.add a n, hcrc⟩

/-- The cached addresses stay right when a variable that does not count is marked. -/
theorem EnvCacheOk.mark_dead {d : Nat → SectorDesc} {table : List EnvCacheNode} {a : Nat}
    {n : Node} {front back : List Node} (h : EnvCacheOk d table)
    (hnodes : (d a).nodes = front ++ n :: back) (hstatus : n.status ≠ .write) (st : EnvStatus) :
    EnvCacheOk (Function.update d a ((d a).mark front n back st)) table := by
  apply h.mono
  rintro c x ⟨n', hn', rfl⟩
  exact ⟨n', hn'.mark hnodes (fun hyes => absurd hyes hstatus) st, rfl⟩

/-- One variable is moved: it is marked and deleted where it was, and stands behind the others
of the other sector. -/
theorem moveEnv_spec {s : Store} {a : Nat} {A B : SectorDesc} {front back : List Node} {n : Node}
    (h : Represents s (pair a A B)) (ha : SectorAddr a) (hdirty : A.dirty = .gc)
    (hnodes : A.nodes = front ++ n :: back) (hstatus : n.status = .write)
    (hclean : B.dirty = .false) (hst : B.store = .empty ∨ B.store = .inUse)
    (hroom : n.len < B.room) (hcache : EnvCacheOk (pair a A B) s.env_cache_table)
    (hgc : s.gc_request = Bool.true) (hrecovery : s.in_recovery_check = Bool.false) :
    ∃ m t e, moveEnv s (n.obj (a + SECTOR_HDR_DATA_SIZE + nodesLen front)) =
        ({ s with
          flash := m, sector_cache_table := t, env_cache_table := e
          last_is_complete_del := Bool.false }, .noErr) ∧
      Represents { s with flash := m, sector_cache_table := t }
        (pair a (A.mark front n back .deleted) (B.add n)) ∧
      EnvCacheOk (pair a (A.mark front n back .deleted) (B.add n)) e := by
  have hb := ha.other
  have hname : n.key.strlen ≤ EF_ENV_NAME_MAX := by
    refine (h.ok a ha).names n ?_
    rw [pair_self, hnodes]
    exact List.mem_append_right _ List.mem_cons_self
  let A₁ := A.mark front n back .preDelete
  have hnodes' : (pair a A B a).nodes = front ++ n :: back := by
    rw [pair_self]
    exact hnodes
  -- The variable is marked.
  obtain ⟨m₁, hdel, hrep₁⟩ := delEnvObj_spec h ha hnodes'
    (n.obj (a + SECTOR_HDR_DATA_SIZE + nodesLen front)) rfl none Bool.false
    (by rw [hstatus]; decide)
  have hcache₁ := hcache.mark h.image ha hnodes' .preDelete
  rw [pair_self, update_pair_self] at hrep₁ hcache₁
  change Represents _ (pair a A₁ B) at hrep₁
  rw [if_neg fun hall => absurd hall.1 Bool.false_ne_true] at hdel
  -- There is room in the other sector only.
  let s₁ : Store := { s with flash := m₁, last_is_complete_del := Bool.true }
  have hrep₁' : Represents s₁ (pair a A₁ B) := hrep₁.congr rfl rfl
  have hdirty₁ : A₁.dirty = .gc := by
    change (if A.dirty = .false then SectorDirtyStatus.true else A.dirty) = .gc
    rw [hdirty]
    rfl
  have hrefuses (st : SectorStoreStatus) : ¬(A₁.store = st ∧ A₁.Takes Bool.true n.len) := by
    rintro ⟨-, -, hbad⟩
    rw [hdirty₁] at hbad
    rcases hbad with hbad | ⟨hbad, -⟩
    all_goals cases hbad
  have htakes : B.Takes Bool.true n.len := ⟨hroom, .inl hclean⟩
  have hplace : allocPlace (pair a A₁ B) Bool.true n.len = some (otherSector a) := by
    rw [← pair_swap ha, allocPlace]
    rcases hst with hst | hst
    · have hnone : firstFit (pair (otherSector a) B A₁) .inUse Bool.true n.len = none := by
        apply firstFit_pair_none hb _ (hrefuses .inUse)
        rintro ⟨hbad, -⟩
        rw [hst] at hbad
        cases hbad
      have hcount : 0 < countSectors (pair (otherSector a) B A₁) .empty := by
        rw [countSectors_pair hb, if_pos hst]
        omega
      rw [hnone]
      dsimp only
      rw [if_pos (.inr ⟨hcount, rfl⟩)]
      exact firstFit_pair hb ⟨hst, htakes⟩ (hrefuses .empty)
    · rw [firstFit_pair hb ⟨hst, htakes⟩ (hrefuses .inUse)]
  obtain ⟨⟨t₂, hrep₂, hstate⟩, haddr, hsector⟩ := allocEnv_spec hrep₁' {} n.len
  have hgc₁ : s₁.gc_request = Bool.true := hgc
  rw [hgc₁, hplace] at haddr hsector
  rw [hgc₁, Bool.true_or] at hrep₂ hstate
  have hof : (allocEnv s₁ {} n.len).2.1.Of (otherSector a) (pair a A₁ B (otherSector a)) := by
    rw [hsector _ rfl]
    exact SectorDesc.read_of _ _
  -- The variable is copied.
  have hin : Located (pair a A₁ B) (a + SECTOR_HDR_DATA_SIZE + nodesLen front)
      { n with status := .preDelete } := by
    refine ⟨a, front, back, ha, ?_, rfl⟩
    rw [pair_self]
    rfl
  have hsize : SECTOR_SIZE = 4096 := rfl
  have hhdr : SECTOR_HDR_DATA_SIZE = 16 := rfl
  have hfits := (h.image a ha).fits
  rw [hnodes', nodesLen_append, nodesLen_cons] at hfits
  have hapart : a + SECTOR_HDR_DATA_SIZE + nodesLen front + n.len ≤ otherSector a ∨
      otherSector a + SECTOR_SIZE ≤ a + SECTOR_HDR_DATA_SIZE + nodesLen front := by
    rcases ha.apart hb ha.other_ne with hlow | hhigh
    · exact .inr (by omega)
    · exact .inl (by omega)
  obtain ⟨m₃, t₃, hmove, hrep₃⟩ := moveTo_spec hrep₂ hb hof
    (by rw [pair_other ha]; exact hst) (hrep₂.node hin).1 hname
    (by rw [pair_other ha]; exact hroom) hapart
  have hsame : { n with status := .write } = n := by rw [← hstatus]
  rw [pair_other ha, hsame, update_pair_other ha] at hrep₃
  rw [pair_other ha] at hmove
  have hcache₃ := envCacheOk_add hcache₁ hb hstatus
  rw [pair_other ha, update_pair_other ha] at hcache₃
  -- The old one is deleted.
  have hnodes₃ : (pair a A₁ (B.add n) a).nodes =
      front ++ { n with status := EnvStatus.preDelete } :: back := by
    rw [pair_self]
    rfl
  have hle : EnvStatus.preDelete.index ≤ (delStatus Bool.true).index := by decide
  have hdead : EnvStatus.preDelete ≠ .write := by decide
  let s₃ : Store := { s with
    flash := m₃
    sector_cache_table := t₃
    env_cache_table :=
      updateEnvCache s.env_cache_table n.key.bytes (B.free (otherSector a))
    gc_request := Bool.true
    last_is_complete_del := Bool.true }
  obtain ⟨m₄, hdel₄, hrep₄⟩ := delEnvObj_spec (s := s₃) (hrep₃.congr rfl rfl) ha hnodes₃
    (n.obj (a + SECTOR_HDR_DATA_SIZE + nodesLen front)) rfl none Bool.true hle
  have hcache₄ := hcache₃.mark_dead hnodes₃ hdead .deleted
  have hmark : A₁.mark front { n with status := .preDelete } back .deleted =
      A.mark front n back .deleted := by
    unfold SectorDesc.mark
    rw [hdirty₁, hdirty]
    rfl
  rw [pair_self, update_pair_self] at hrep₄ hcache₄
  rw [show delStatus Bool.true = .deleted from rfl, hmark] at hrep₄
  rw [hmark] at hcache₄
  refine ⟨m₄, t₃, _, ?_, hrep₄.congr rfl rfl, hcache₄⟩
  have hfree : (B.free (otherSector a)) ≠ FAILED_ADDR := by
    have hne := (hrep₂.image _ hb).free_ne_failed hb
    rwa [pair_other ha] at hne
  have haddr' : (allocEnv s₁ {} n.len).2.2 = B.free (otherSector a) := by
    rw [haddr]
    dsimp only
    rw [pair_other ha]
  have hs₁ : delEnvObj s none (n.obj (a + SECTOR_HDR_DATA_SIZE + nodesLen front)) Bool.false = s₁ :=
    hdel
  have hlen : (n.obj (a + SECTOR_HDR_DATA_SIZE + nodesLen front)).len = n.len := rfl
  have hrecovery₂ : (allocEnv s₁ {} n.len).1.in_recovery_check = Bool.false := by
    rw [hstate]
    exact hrecovery
  have hs₃ : moveTo (allocEnv s₁ {} n.len).1 (allocEnv s₁ {} n.len).2.1
      (n.obj (a + SECTOR_HDR_DATA_SIZE + nodesLen front)) (B.free (otherSector a)) = s₃ := by
    rw [hstate, hmove]
  unfold moveEnv
  rw [if_pos (show (n.obj _).status = .write from hstatus), hs₁, hlen]
  dsimp only
  rw [haddr', if_pos hfree, hrecovery₂, if_neg Bool.false_ne_true, if_neg Bool.false_ne_true, hs₃,
    hdel₄, if_neg fun hall => hall.2 rfl, show s₃.gc_request = s.gc_request from hgc.symm]
  rfl

/-! ## How a sector was filled -/

/-- A sector was declared full no earlier than with its last variable, except for one that took
a single variable. -/
structure SectorDesc.Packed (d : SectorDesc) : Prop where
  last : ∀ front n, d.nodes = front ++ [n] → front.length ≤ 1 ∨
    nodesLen front + EF_SEC_REMAIN_THRESHOLD ≤ SECTOR_SIZE - SECTOR_HDR_DATA_SIZE
  used : d.store = .inUse → d.nodes.length ≤ 1 ∨
    nodesLen d.nodes + EF_SEC_REMAIN_THRESHOLD ≤ SECTOR_SIZE - SECTOR_HDR_DATA_SIZE

theorem packed_formatted : formatted.Packed where
  last _ _ h := absurd h.symm (List.append_ne_nil_of_right_ne_nil _ (List.cons_ne_nil _ _))
  used h := by cases h

/-- What takes a variable stays packed. -/
theorem SectorDesc.Packed.add {d : SectorDesc} (h : d.Packed)
    (hst : d.store = .empty ∨ d.store = .inUse) (hempty : d.store = .empty → d.nodes = [])
    {n : Node} (hroom : n.len < d.room) : (d.add n).Packed := by
  have hcut : d.room = SECTOR_SIZE - SECTOR_HDR_DATA_SIZE - nodesLen d.nodes := rfl
  constructor
  · intro front n' hsplit
    obtain ⟨rfl, -⟩ := List.append_inj' hsplit rfl
    rcases hst with hst | hst
    · rw [hempty hst]
      exact .inl (Nat.zero_le 1)
    · exact h.used hst
  · intro hused
    rcases hst with hst | hst
    · refine .inl ?_
      change (d.nodes ++ [n]).length ≤ 1
      rw [hempty hst]
      exact Nat.le_refl 1
    · have hroomy : ¬(d.room < EF_SEC_REMAIN_THRESHOLD ∨
          d.room - n.len < EF_SEC_REMAIN_THRESHOLD) := by
        intro hfull
        change d.storeAfter n.len = .inUse at hused
        rw [SectorDesc.storeAfter, hst] at hused
        dsimp only at hused
        rw [if_pos hfull] at hused
        cases hused
      refine .inr ?_
      change nodesLen (d.nodes ++ [n]) + EF_SEC_REMAIN_THRESHOLD ≤ _
      rw [nodesLen_append, nodesLen_cons, nodesLen_nil]
      omega

/-- Marking a variable does not change how the sector was filled. -/
theorem SectorDesc.Packed.mark {d : SectorDesc} (h : d.Packed) {front back : List Node} {n : Node}
    (hnodes : d.nodes = front ++ n :: back) (st : EnvStatus) : (d.mark front n back st).Packed := by
  have hsame : ∀ front' n', front ++ { n with status := st } :: back = front' ++ [n'] →
      ∃ front'' n'', d.nodes = front'' ++ [n''] ∧ front''.length = front'.length ∧
        nodesLen front'' = nodesLen front' := by
    intro front' n' hsplit
    rcases List.eq_nil_or_concat back with rfl | ⟨back', y, rfl⟩
    · obtain ⟨rfl, -⟩ := List.append_inj' hsplit rfl
      exact ⟨front, n, hnodes, rfl, rfl⟩
    · rw [List.concat_eq_append] at hsplit hnodes
      rw [← List.cons_append, ← List.append_assoc] at hsplit hnodes
      obtain ⟨rfl, -⟩ := List.append_inj' hsplit rfl
      refine ⟨front ++ n :: back', y, hnodes, ?_, ?_⟩
      · rw [List.length_append, List.length_append]
        rfl
      · exact (nodesLen_mark front n back' st).symm
  constructor
  · intro front' n' hsplit
    obtain ⟨front'', n'', hsplit', hlength, hlen⟩ := hsame front' n' hsplit
    rw [← hlength, ← hlen]
    exact h.last front'' n'' hsplit'
  · intro hused
    have hkept := h.used hused
    rw [hnodes, List.length_append] at hkept
    change (front ++ { n with status := st } :: back).length ≤ 1 ∨
      nodesLen (front ++ { n with status := st } :: back) + EF_SEC_REMAIN_THRESHOLD ≤ _
    rw [nodesLen_mark, List.length_append]
    exact hkept

/-! ## The variables that a collection moves -/

/-- The variables that count. -/
def liveNodes (ns : List Node) : List Node :=
  ns.filter (·.status = .write)

/-- A sector that took variables one after the other. -/
def fill (ns : List Node) : SectorDesc :=
  ns.foldl SectorDesc.add formatted

/-- What a collection makes of the variables of a sector. -/
def collect (ns : List Node) : SectorDesc :=
  fill (liveNodes ns)

theorem fill_concat (ns : List Node) (n : Node) : fill (ns ++ [n]) = (fill ns).add n := by
  rw [fill, List.foldl_append]
  rfl

@[simp] theorem fill_nodes (ns : List Node) : (fill ns).nodes = ns := by
  induction ns using List.reverseRecOn with
  | nil => rfl
  | append_singleton ns n ih =>
      rw [fill_concat]
      change (fill ns).nodes ++ [n] = ns ++ [n]
      rw [ih]

@[simp] theorem fill_dirty (ns : List Node) : (fill ns).dirty = .false := by
  induction ns using List.reverseRecOn with
  | nil => rfl
  | append_singleton ns n ih =>
      rw [fill_concat]
      exact ih

/-- A sector is declared full with its second variable at the earliest, and only where little
room is left. -/
theorem fill_store (ns : List Node) :
    (fill ns).store = .empty ∧ ns = [] ∨ (fill ns).store = .inUse ∧ ns ≠ [] ∨
      (fill ns).store = .full ∧ 2 ≤ ns.length ∧
        SECTOR_SIZE - SECTOR_HDR_DATA_SIZE < nodesLen ns + EF_SEC_REMAIN_THRESHOLD := by
  induction ns using List.reverseRecOn with
  | nil => exact .inl ⟨rfl, rfl⟩
  | append_singleton ns n ih =>
      have hne : ns ++ [n] ≠ [] := List.append_ne_nil_of_right_ne_nil _ (List.cons_ne_nil _ _)
      have hstore : (fill (ns ++ [n])).store = (fill ns).storeAfter n.len := by
        rw [fill_concat]
        rfl
      have hroom : (fill ns).room = SECTOR_SIZE - SECTOR_HDR_DATA_SIZE - nodesLen ns := by
        rw [SectorDesc.room, fill_nodes]
      rw [hstore, SectorDesc.storeAfter, hroom, nodesLen_append, nodesLen_cons, nodesLen_nil,
        List.length_append, List.length_singleton]
      rcases ih with ⟨hst, -⟩ | ⟨hst, hnil⟩ | ⟨hst, hlen, hfull⟩
      · rw [hst]
        exact .inr (.inl ⟨rfl, hne⟩)
      · rw [hst]
        have hpos : 0 < ns.length := List.length_pos_iff.mpr hnil
        dsimp only
        split_ifs with hcut
        · exact .inr (.inr ⟨rfl, by omega, by omega⟩)
        · exact .inr (.inl ⟨rfl, hne⟩)
      · rw [hst]
        exact .inr (.inr ⟨rfl, by omega, by omega⟩)

theorem liveNodes_concat (ns : List Node) (n : Node) :
    liveNodes (ns ++ [n]) = if n.status = .write then liveNodes ns ++ [n] else liveNodes ns := by
  unfold liveNodes
  simp only [List.filter_append, List.filter_cons, List.filter_nil, decide_eq_true_eq]
  split_ifs
  · rfl
  · rw [List.append_nil]

theorem nodesLen_liveNodes_le (ns : List Node) : nodesLen (liveNodes ns) ≤ nodesLen ns := by
  induction ns with
  | nil => exact Nat.le_refl _
  | cons n ns ih =>
      unfold liveNodes at ih ⊢
      rw [List.filter_cons, nodesLen_cons]
      split_ifs
      · rw [nodesLen_cons]
        omega
      · omega

/-- There is room in the other sector for each variable that counts. -/
theorem collect_takes {d : SectorDesc} (hpacked : d.Packed)
    (hfits : nodesLen d.nodes < SECTOR_SIZE - SECTOR_HDR_DATA_SIZE) {done todo : List Node}
    {n : Node} (hnodes : d.nodes = done ++ n :: todo) :
    ((collect done).store = .empty ∨ (collect done).store = .inUse) ∧
      n.len < (collect done).room := by
  have hle := nodesLen_liveNodes_le done
  rw [hnodes, nodesLen_append, nodesLen_cons] at hfits
  refine ⟨?_, ?_⟩
  · rcases fill_store (liveNodes done) with ⟨hst, -⟩ | ⟨hst, -⟩ | ⟨-, hlen, hfull⟩
    · exact .inl hst
    · exact .inr hst
    · -- The first sector would have been full before this variable.
      have hlength : (liveNodes done).length ≤ done.length := List.length_filter_le _ _
      obtain ⟨rest, y, hrest⟩ : ∃ rest y, n :: todo = rest ++ [y] :=
        ⟨_, _, (List.dropLast_append_getLast (List.cons_ne_nil n todo)).symm⟩
      have hlast := hpacked.last (done ++ rest) y (by rw [hnodes, hrest, List.append_assoc])
      rw [List.length_append, nodesLen_append] at hlast
      omega
  · change n.len < (fill (liveNodes done)).room
    rw [SectorDesc.room, fill_nodes]
    omega

end EasyFlash

end WeatherStation
