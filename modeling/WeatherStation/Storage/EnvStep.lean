import WeatherStation.Storage.EnvFind

/-!
# One step of the store

What deleting, creating and moving a variable do to the description of the flash and to the
caches.

Main results:

- Theorem {lit}`delEnvObj_spec`: a variable is marked, and its sector is dirty.
- Theorem {lit}`updateSecStatus_spec`: the status of a sector that takes a variable.
- Theorem {lit}`writeEnvAt_spec`, {lit}`moveTo_spec`: a variable stands behind the others.
-/

open Foundation

namespace WeatherStation

namespace EasyFlash

/-! ## Changes of one sector -/

section

variable {s : Store} {d : Nat → SectorDesc} {a : Nat}

theorem SectorAddr.apart {b : Nat} (ha : SectorAddr a) (hb : SectorAddr b) (hne : b ≠ a) :
    b + SECTOR_SIZE ≤ a ∨ a + SECTOR_SIZE ≤ b := by
  rcases ha with rfl | rfl
  · rcases hb with rfl | rfl
    · exact absurd rfl hne
    · exact .inr (by omega)
  · rcases hb with rfl | rfl
    · exact .inl (by omega)
    · exact absurd rfl hne

/-- One sector is changed. -/
theorem Represents.update (h : Represents s d) (ha : SectorAddr a) {m : Memory}
    {table : List SectorCacheNode} {d' : SectorDesc} (himage : SectorImage m a d') (hok : d'.Ok)
    (hframe : ∀ x, ¬(a ≤ x ∧ x < a + SECTOR_SIZE) → m x = s.flash x)
    (hcached : SectorCached
      (fun b e => SectorAddr b → e = (if b = a then d'.free b else (d b).free b)) table) :
    Represents { s with flash := m, sector_cache_table := table } (Function.update d a d') := by
  constructor
  · exact h.running
  · intro b hb
    by_cases hab : b = a
    · subst hab
      rw [Function.update_self]
      exact himage
    · rw [Function.update_of_ne hab]
      apply (h.image b hb).congr
      intro x hx hx'
      rcases ha.apart hb hab with hapart | hapart
      all_goals exact hframe x (by omega)
  · intro b hb
    by_cases hab : b = a
    · subst hab
      rw [Function.update_self]
      exact hok
    · rw [Function.update_of_ne hab]
      exact h.ok b hb
  · apply hcached.mono
    intro b e he hb
    rw [he hb]
    by_cases hab : b = a
    · subst hab
      rw [if_pos rfl, Function.update_self]
    · rw [if_neg hab, Function.update_of_ne hab]

/-! ## Deleting a variable -/

/-- A sector in which a variable is marked. -/
def SectorDesc.mark (d : SectorDesc) (front : List Node) (n : Node) (back : List Node)
    (st : EnvStatus) : SectorDesc where
  store := d.store
  dirty := if d.dirty = .false then .true else d.dirty
  nodes := front ++ { n with status := st } :: back

theorem nodesLen_mark (front : List Node) (n : Node) (back : List Node) (st : EnvStatus) :
    nodesLen (front ++ { n with status := st } :: back) = nodesLen (front ++ n :: back) := by
  rw [nodesLen_append, nodesLen_append, nodesLen_cons, nodesLen_cons]
  rfl

theorem SectorImage.mark {m : Memory} {d : SectorDesc} (h : SectorImage m a d)
    {front back : List Node} {n : Node} (hnodes : d.nodes = front ++ n :: back) {st : EnvStatus}
    (hle : n.status.index ≤ st.index) :
    let m₁ := writeStatus m (a + SECTOR_HDR_DATA_SIZE + nodesLen front) ENV_STATUS_NUM st.index
    SectorImage (if readStatus m₁ (a + SECTOR_DIRTY_OFFSET) SECTOR_DIRTY_STATUS_NUM =
        SectorDirtyStatus.false.index then
      writeStatus m₁ (a + SECTOR_DIRTY_OFFSET) SECTOR_DIRTY_STATUS_NUM
        SectorDirtyStatus.true.index else m₁) a (d.mark front n back st) := by
  intro m₁
  have hset := h.setNode hnodes hle
  have hindex : d.dirty.index = SectorDirtyStatus.false.index ↔ d.dirty = .false := by
    cases d.dirty <;> decide
  rw [hset.dirty]
  dsimp only
  by_cases hclean : d.dirty = .false
  · rw [if_pos (hindex.mpr hclean)]
    have hdirty := hset.setDirty .true (by dsimp only; rw [hclean]; decide)
    unfold SectorDesc.mark
    rw [if_pos hclean]
    exact hdirty
  · rw [if_neg fun hyes => hclean (hindex.mp hyes)]
    unfold SectorDesc.mark
    rw [if_neg hclean]
    exact hset

/-- A variable is marked, and its sector is dirty. -/
theorem delEnvObj_spec (h : Represents s d) (ha : SectorAddr a) {front back : List Node} {n : Node}
    (hnodes : (d a).nodes = front ++ n :: back) (old_env : EnvNodeObj)
    (hstart : old_env.start = a + SECTOR_HDR_DATA_SIZE + nodesLen front) (key : Option CStr)
    (complete_del : Bool) (hle : n.status.index ≤ (delStatus complete_del).index) :
    ∃ m, delEnvObj s key old_env complete_del =
        { s with
          flash := m
          env_cache_table := if complete_del ∧ ¬s.last_is_complete_del then
            updateEnvCache s.env_cache_table (delName key old_env) FAILED_ADDR
          else s.env_cache_table
          last_is_complete_del := !complete_del } ∧
      Represents { s with flash := m }
        (Function.update d a ((d a).mark front n back (delStatus complete_del))) := by
  have himage := h.image a ha
  have hok := h.ok a ha
  have hsize : SECTOR_SIZE = 4096 := rfl
  have hhdr : SECTOR_HDR_DATA_SIZE = 16 := rfl
  have hoff : SECTOR_DIRTY_OFFSET = 1 := rfl
  have hfits := himage.fits
  have hpos := n.le_len
  have hin : nodesLen front + n.len ≤ nodesLen (d a).nodes := by
    rw [hnodes, nodesLen_append, nodesLen_cons]
    omega
  have halign : alignDown old_env.start = a := by
    rw [hstart]
    exact alignDown_of_mem ha (by omega) (by omega)
  have hlen : nodesLen ((d a).mark front n back (delStatus complete_del)).nodes =
      nodesLen (d a).nodes := by
    rw [hnodes]
    exact nodesLen_mark front n back _
  have hmark := himage.mark hnodes hle
  refine ⟨_, rfl, ?_⟩
  rw [halign, hstart]
  apply h.update ha hmark
  · refine ⟨hok.formatted, ?_, ?_⟩
    · intro n' hn'
      rcases List.mem_append.mp hn' with hn' | hn'
      · exact hok.names n' (by rw [hnodes]; exact List.mem_append_left _ hn')
      · rcases List.mem_cons.mp hn' with rfl | hn'
        · exact hok.names n (by rw [hnodes]; exact List.mem_append_right _ List.mem_cons_self)
        · refine hok.names n' ?_
          rw [hnodes]
          exact List.mem_append_right _ (List.mem_cons_of_mem n hn')
    · have hempty := hok.empty
      rw [hnodes] at hempty
      exact hempty.trans (iff_of_false (by simp) (by simp [SectorDesc.mark]))
  · intro x hx
    have hout : x ≠ a + SECTOR_HDR_DATA_SIZE + nodesLen front := by omega
    split_ifs
    · rw [writeStatus_of_ne _ SectorDirtyStatus.true.index_lt rfl (by omega),
        writeStatus_of_ne _ (delStatus complete_del).index_lt rfl hout]
    · rw [writeStatus_of_ne _ (delStatus complete_del).index_lt rfl hout]
  · apply h.cached.mono
    intro b e he hb
    rw [he hb]
    split_ifs with hab
    · subst hab
      unfold SectorDesc.free
      rw [hlen]
    · rfl

/-! ## Adding a variable -/

/-- The status of a sector that takes a variable. -/
def SectorDesc.storeAfter (d : SectorDesc) (len : Nat) : SectorStoreStatus :=
  match d.store with
  | .empty => .inUse
  | .inUse =>
      if d.room < EF_SEC_REMAIN_THRESHOLD ∨ d.room - len < EF_SEC_REMAIN_THRESHOLD then .full
      else .inUse
  | st => st

/-- A sector to which a variable is added. -/
def SectorDesc.add (d : SectorDesc) (n : Node) : SectorDesc where
  store := d.storeAfter n.len
  dirty := d.dirty
  nodes := d.nodes ++ [n]

/-- A sector that takes a variable is in use afterwards, or full. -/
theorem SectorDesc.storeAfter_or {d : SectorDesc} (hst : d.store = .empty ∨ d.store = .inUse)
    (len : Nat) : d.storeAfter len = .inUse ∨ d.storeAfter len = .full := by
  unfold SectorDesc.storeAfter
  rcases hst with hst | hst
  · rw [hst]
    exact .inl rfl
  · rw [hst]
    dsimp only
    split_ifs
    · exact .inr rfl
    · exact .inl rfl

/-- What the store has read of a sector before it changes its status. -/
structure SectorMeta.Of (sector : SectorMeta) (a : Nat) (d : SectorDesc) : Prop where
  store : sector.store = d.store
  addr : sector.addr = a
  remain : sector.remain = d.room

theorem SectorDesc.read_of (d : SectorDesc) (a : Nat) : (d.read a).Of a d :=
  ⟨rfl, rfl, rfl⟩

theorem SectorImage.room_le {m : Memory} {d : SectorDesc} (h : SectorImage m a d) :
    nodesLen d.nodes + d.room = SECTOR_SIZE - SECTOR_HDR_DATA_SIZE := by
  have hfits := h.fits
  unfold SectorDesc.room
  omega

/-- The status of a sector that takes a variable. -/
theorem updateSecStatus_spec (h : Represents s d) (ha : SectorAddr a) {sector : SectorMeta}
    (hsector : sector.Of a (d a)) (hst : (d a).store = .empty ∨ (d a).store = .inUse) {len : Nat}
    (hroom : len < (d a).room) :
    ∃ m table, (updateSecStatus s sector len).1 =
        { s with flash := m, sector_cache_table := table } ∧
      (updateSecStatus s sector len).2.getD Bool.false = decide ((d a).storeAfter len = .full) ∧
      SectorImage m a { d a with store := (d a).storeAfter len } ∧
      (∀ x, x ≠ a → m x = s.flash x) ∧
      SectorCached (fun b e => b ≠ a → SectorAddr b → e = (d b).free b) table ∧
      ((d a).storeAfter len = .full →
        SectorCached (fun b e => b ≠ a ∧ (SectorAddr b → e = (d b).free b)) table) := by
  have himage := h.image a ha
  have hsize : SECTOR_SIZE = 4096 := rfl
  have hhdr : SECTOR_HDR_DATA_SIZE = 16 := rfl
  have hfits := himage.room_le
  have hsub : sub32 (d a).room len = (d a).room - len := by
    unfold sub32
    omega
  have hkept : SectorCached (fun b e => b ≠ a → SectorAddr b → e = (d b).free b)
      s.sector_cache_table := h.cached.mono fun b e he _ => he
  obtain ⟨hstore, rfl, hremain⟩ := hsector
  have hwrite (st : SectorStoreStatus) (x : Nat) (hx : x ≠ sector.addr) :
      writeStatus s.flash sector.addr SECTOR_STORE_STATUS_NUM st.index x = s.flash x :=
    writeStatus_of_ne _ st.index_lt rfl hx
  unfold updateSecStatus SectorDesc.storeAfter
  rw [hstore, hremain]
  rcases hst with hst | hst
  · rw [hst]
    exact ⟨_, _, rfl, rfl, himage.setStore (by rw [hst]; decide), hwrite .inUse, hkept,
      fun hfull => by cases hfull⟩
  · rw [hst, hsub]
    dsimp only
    by_cases hfull : (d sector.addr).room < EF_SEC_REMAIN_THRESHOLD ∨
        (d sector.addr).room - len < EF_SEC_REMAIN_THRESHOLD
    · rw [if_pos hfull, if_pos hfull]
      have hrange : ¬(sector.addr + SECTOR_SIZE > sector.addr ∧
          sector.addr + SECTOR_SIZE < sector.addr + SECTOR_SIZE) := by omega
      have hdeleted := sectorCached_delete h.cached hrange
      refine ⟨_, _, rfl, rfl, himage.setStore (by rw [hst]; decide), hwrite .full, ?_, ?_⟩
      · exact hdeleted.mono fun b e he _ => he.2
      · intro _
        exact hdeleted
    · rw [if_neg hfull, if_neg hfull]
      refine ⟨s.flash, s.sector_cache_table, rfl, rfl, ?_, fun x _ => rfl, hkept,
        fun hno => by cases hno⟩
      have hsame : { d sector.addr with store := .inUse } = d sector.addr := by rw [← hst]
      rw [hsame]
      exact himage

/-- A variable stands behind the others of its sector, in the flash and in the cache. -/
theorem Represents.add (h : Represents s d) (ha : SectorAddr a) {n : Node}
    (hname : n.key.strlen ≤ EF_ENV_NAME_MAX) (hst : (d a).store = .empty ∨ (d a).store = .inUse)
    (hroom : n.len < (d a).room) {m m' : Memory}
    (himage : SectorImage m a { d a with store := (d a).storeAfter n.len })
    (hkept : ∀ x, x ≠ a → m x = s.flash x) (hn : NodeAt m' ((d a).free a) n)
    (hframe : ∀ x, ¬((d a).free a ≤ x ∧ x < (d a).free a + n.len) → m' x = m x)
    {table : List SectorCacheNode}
    (hcached : SectorCached (fun b e => SectorAddr b →
      e = (if b = a then (d a).free a + n.len else (d b).free b)) table) :
    Represents { s with flash := m', sector_cache_table := table }
      (Function.update d a ((d a).add n)) := by
  have hsize : SECTOR_SIZE = 4096 := rfl
  have hhdr : SECTOR_HDR_DATA_SIZE = 16 := rfl
  have hfits := himage.fits
  have hok := h.ok a ha
  have hfree : (d a).free a = a + SECTOR_HDR_DATA_SIZE + nodesLen (d a).nodes := rfl
  have hleft := (h.image a ha).room_le
  have hlen : ((d a).add n).free a = (d a).free a + n.len := by
    unfold SectorDesc.free SectorDesc.add
    rw [nodesLen_append, nodesLen_cons, nodesLen_nil]
    omega
  have hstore : (d a).storeAfter n.len ≠ .empty ∧ (d a).storeAfter n.len ≠ .unused := by
    rcases SectorDesc.storeAfter_or hst n.len with hafter | hafter
    all_goals
      rw [hafter]
      decide
  apply h.update ha (himage.append hn hroom hframe)
  · refine ⟨hstore.2, ?_, iff_of_false hstore.1 (List.append_ne_nil_of_right_ne_nil _ (by simp))⟩
    intro n' hn'
    rcases List.mem_append.mp hn' with hn' | hn'
    · exact hok.names n' hn'
    · rw [List.mem_singleton.mp hn']
      exact hname
  · intro x hx
    rw [hframe x (by omega), hkept x (by omega)]
  · apply hcached.mono
    intro b e he hb
    rw [he hb]
    split_ifs with hab
    · subst hab
      exact hlen.symm
    · rfl

/-- The free space of the sector that took a variable is cached. -/
theorem sectorCached_add {d : Nat → SectorDesc} {table : List SectorCacheNode} {empty_addr : Nat}
    (h : SectorCached (fun b e => b ≠ a → SectorAddr b → e = (d b).free b) table)
    (hrange : empty_addr > a ∧ empty_addr < a + SECTOR_SIZE) :
    SectorCached (fun b e => SectorAddr b → e = (if b = a then empty_addr else (d b).free b))
      (updateSectorCache table a empty_addr) := by
  apply (sectorCached_update h hrange).mono
  rintro b e (⟨rfl, rfl⟩ | ⟨hne, he⟩) hb
  · rw [if_pos rfl]
  · rw [if_neg hne]
    exact he hne hb

/-- A variable that is created stands behind the others. -/
theorem writeEnvAt_spec (h : Represents s d) (ha : SectorAddr a) {sector : SectorMeta}
    (hsector : sector.Of a (d a)) (hst : (d a).store = .empty ∨ (d a).store = .inUse)
    {key : CStr} (value : List UInt8) (hname : key.strlen ≤ EF_ENV_NAME_MAX)
    (hroom : (Node.mk .write key value).len < (d a).room) :
    ∃ m table, writeEnvAt s sector key value ((d a).free a) =
        { s with
          flash := m
          sector_cache_table := table
          env_cache_table := updateEnvCache s.env_cache_table key.bytes ((d a).free a)
          gc_request := s.gc_request ||
            decide ((d a).storeAfter (Node.mk .write key value).len = .full) } ∧
      Represents { s with flash := m, sector_cache_table := table }
        (Function.update d a ((d a).add ⟨.write, key, value⟩)) := by
  have hsize : SECTOR_SIZE = 4096 := rfl
  have hhdr : SECTOR_HDR_DATA_SIZE = 16 := rfl
  have hlen : (envHdrOf key value).len = (Node.mk .write key value).len := rfl
  have hleft := (h.image a ha).room_le
  have hfree : (d a).free a = a + SECTOR_HDR_DATA_SIZE + nodesLen (d a).nodes := rfl
  obtain ⟨m, table, hstate, hfull, himage, hkept, hcached, hdeleted⟩ :=
    updateSecStatus_spec h ha hsector hst hroom
  have hend : (d a).free a + ENV_HDR_DATA_SIZE + (envHdrOf key value).name_len +
      (envHdrOf key value).value_len = (d a).free a + (Node.mk .write key value).len := by
    have hdef :
        (Node.mk .write key value).len = ENV_HDR_DATA_SIZE + key.strlen + value.length := rfl
    have hname_len : (envHdrOf key value).name_len = key.strlen := rfl
    have hvalue_len : (envHdrOf key value).value_len = value.length := rfl
    omega
  have hones : ∀ x, (d a).free a ≤ x → x < (d a).free a + (Node.mk .write key value).len →
      m x = 0xFF := by
    intro x hx hx'
    exact himage.erased x hx (by omega)
  obtain ⟨hn, hframe⟩ := nodeAt_written hones
  unfold writeEnvAt
  dsimp only
  rw [hlen, hstate, hfull, hsector.addr]
  dsimp only
  rw [hend]
  by_cases hisfull : (d a).storeAfter (Node.mk .write key value).len = .full
  · rw [decide_eq_true hisfull, if_pos rfl, if_pos rfl, Bool.or_true]
    refine ⟨_, _, rfl, ?_⟩
    apply h.add ha hname hst hroom himage hkept hn hframe
    apply (hdeleted hisfull).mono
    rintro b e ⟨hne, he⟩ hb
    rw [if_neg hne]
    exact he hb
  · rw [decide_eq_false hisfull, if_neg Bool.false_ne_true, if_neg Bool.false_ne_true,
      Bool.or_false]
    refine ⟨_, _, rfl, ?_⟩
    apply h.add ha hname hst hroom himage hkept hn hframe
    exact sectorCached_add hcached (by omega)

/-- A variable that is moved stands behind the others of its new sector. -/
theorem moveTo_spec (h : Represents s d) (ha : SectorAddr a) {sector : SectorMeta}
    (hsector : sector.Of a (d a)) (hst : (d a).store = .empty ∨ (d a).store = .inUse)
    {source : Nat} {n : Node} {st : EnvStatus} (hn : NodeAt s.flash source { n with status := st })
    (hname : n.key.strlen ≤ EF_ENV_NAME_MAX) (hroom : n.len < (d a).room)
    (hapart : source + n.len ≤ a ∨ a + SECTOR_SIZE ≤ source) :
    ∃ m table, moveTo s sector (n.obj source) ((d a).free a) =
        { s with
          flash := m
          sector_cache_table := table
          env_cache_table := updateEnvCache s.env_cache_table n.key.bytes ((d a).free a) } ∧
      Represents { s with flash := m, sector_cache_table := table }
        (Function.update d a ((d a).add { n with status := .write })) := by
  have hsize : SECTOR_SIZE = 4096 := rfl
  have hhdr : SECTOR_HDR_DATA_SIZE = 16 := rfl
  have hleft := (h.image a ha).room_le
  have hpos := n.le_len
  have hfree : (d a).free a = a + SECTOR_HDR_DATA_SIZE + nodesLen (d a).nodes := rfl
  obtain ⟨m, table, hstate, -, himage, hkept, hcached, -⟩ :=
    updateSecStatus_spec h ha hsector hst hroom
  have hend : (d a).free a + ENV_HDR_DATA_SIZE + (n.obj source).name_len +
      (n.obj source).value_len = (d a).free a + n.len := by
    have hdef : n.len = ENV_HDR_DATA_SIZE + n.key.strlen + n.value.length := rfl
    have hname_len : (n.obj source).name_len = n.key.strlen := rfl
    have hvalue_len : (n.obj source).value_len = n.value.length := rfl
    omega
  have hcut : (n.obj source).name.take (n.obj source).name_len = n.key.bytes :=
    List.take_of_length_le (Nat.le_refl _)
  have halign : alignDown ((d a).free a) = a := alignDown_of_mem ha (by omega) (by omega)
  have hones : ∀ x, (d a).free a ≤ x → x < (d a).free a + n.len → m x = 0xFF := by
    intro x hx hx'
    exact himage.erased x hx (by omega)
  have hsource : NodeAt m source { n with status := st } := by
    apply hn.congr
    intro x hx hx'
    have hx'' : x < source + n.len := hx'
    exact hkept x (by omega)
  obtain ⟨hcopied, hframe⟩ := nodeAt_copied hsource hones
    (show source + n.len ≤ (d a).free a ∨ (d a).free a + n.len ≤ source by omega)
  have hlen : (n.obj source).len = n.len := rfl
  have hrange : (d a).free a + n.len > a ∧ (d a).free a + n.len < a + SECTOR_SIZE := by omega
  unfold moveTo
  dsimp only
  rw [hlen, hstate, hcut, halign, hend]
  refine ⟨_, _, rfl, ?_⟩
  apply h.add (n := { n with status := .write }) ha hname hst hroom himage hkept hcopied hframe
  exact sectorCached_add hcached hrange

end

end EasyFlash

end WeatherStation
