import WeatherStation.Storage.EnvAlloc

/-!
# Changes of a sector

Every write of the store changes the description of one sector in one place: a status of a
variable or of the sector goes on, a variable is added behind the others, or the sector is
erased.  What lies elsewhere in the flash stays as it is.

Main results:

- Theorem {lit}`SectorImage.setNode`: a status of a variable.
- Theorem {lit}`SectorImage.append`: a variable behind the others.
- Theorem {lit}`nodeAt_written`, {lit}`nodeAt_copied`: a variable that is created or moved.
- Theorem {lit}`SectorImage.format`: a sector that is erased.
-/

open Foundation

namespace WeatherStation

namespace EasyFlash

/-! ## Statuses -/

/-- A status that is written is read, where it does not lie before the one that was there. -/
theorem readStatus_writeStatus_of_le {m : Memory} {addr status_num k : Nat}
    (hlt : k < status_num) (hle : readStatus m addr status_num ≤ k) :
    readStatus (writeStatus m addr status_num k) addr status_num = k := by
  rw [readStatus_writeStatus m hlt, Nat.max_eq_right hle]

theorem EnvStatus.index_lt (st : EnvStatus) : st.index < ENV_STATUS_NUM := by
  cases st <;> decide

theorem SectorStoreStatus.index_lt (st : SectorStoreStatus) :
    st.index < SECTOR_STORE_STATUS_NUM := by
  cases st <;> decide

theorem SectorDirtyStatus.index_lt (st : SectorDirtyStatus) :
    st.index < SECTOR_DIRTY_STATUS_NUM := by
  cases st <;> decide

/-- Outside of a table of one byte nothing changes. -/
theorem writeStatus_of_ne (m : Memory) {addr status_num k x : Nat} (hlt : k < status_num)
    (hsize : statusTableSize status_num = 1) (hx : x ≠ addr) :
    writeStatus m addr status_num k x = m x :=
  writeStatus_of_not_mem m hlt (by omega)

theorem readStatus_of_holds {m : Memory} {a : Nat} {b : UInt8} (h : m.Holds a [b])
    (status_num : Nat) (hsize : statusTableSize status_num = 1) :
    readStatus m a status_num = getStatus [b] status_num := by
  rw [readStatus, h.read_eq (hsize.symm ▸ rfl)]

/-- A status of a variable goes on. -/
theorem NodeAt.setStatus {m : Memory} {a : Nat} {n : Node} (h : NodeAt m a n) {st : EnvStatus}
    (hle : n.status.index ≤ st.index) :
    NodeAt (writeStatus m a ENV_STATUS_NUM st.index) a { n with status := st } := by
  constructor
  · apply readStatus_writeStatus_of_le st.index_lt
    rw [h.status]
    exact hle
  · apply Memory.Holds.congr h.tail
    intro x hx hx'
    exact writeStatus_of_ne m st.index_lt rfl (by omega)

namespace SectorImage

variable {m : Memory} {a : Nat} {d : SectorDesc}

/-- The status of a variable in a sector goes on. -/
theorem setNode (h : SectorImage m a d) {front back : List Node} {n : Node}
    (hnodes : d.nodes = front ++ n :: back) {st : EnvStatus} (hle : n.status.index ≤ st.index) :
    SectorImage (writeStatus m (a + SECTOR_HDR_DATA_SIZE + nodesLen front) ENV_STATUS_NUM st.index)
      a { d with nodes := front ++ { n with status := st } :: back } := by
  have hhdr : SECTOR_HDR_DATA_SIZE = 16 := rfl
  have hsize : SECTOR_SIZE = 4096 := rfl
  have hmag : SECTOR_MAGIC_OFFSET = 4 := rfl
  have hcom : SECTOR_COMBINED_OFFSET = 8 := rfl
  have hoff : SECTOR_DIRTY_OFFSET = 1 := rfl
  have hpos := n.le_len
  have hframe {x : Nat} (hx : x ≠ a + SECTOR_HDR_DATA_SIZE + nodesLen front) :
      writeStatus m (a + SECTOR_HDR_DATA_SIZE + nodesLen front) ENV_STATUS_NUM st.index x = m x :=
    writeStatus_of_ne m st.index_lt rfl hx
  have hlen : nodesLen (front ++ { n with status := st } :: back) = nodesLen d.nodes := by
    rw [hnodes, nodesLen_append, nodesLen_append, nodesLen_cons, nodesLen_cons]
    rfl
  have hall := h.nodes
  rw [hnodes, nodesAt_append, NodesAt] at hall
  have htable : statusTableSize 4 = 1 := rfl
  refine ⟨?_, ?_, ?_, ?_, ?_, ?_, ?_⟩
  · rw [← h.magic]
    apply Memory.word_congr
    intro x hx hx'
    exact hframe (by omega)
  · rw [← h.combined]
    apply Memory.word_congr
    intro x hx hx'
    exact hframe (by omega)
  · rw [← h.store]
    apply readStatus_congr
    intro x hx hx'
    exact hframe (by unfold SECTOR_STORE_STATUS_NUM at hx'; omega)
  · rw [← h.dirty]
    apply readStatus_congr
    intro x hx hx'
    exact hframe (by unfold SECTOR_DIRTY_STATUS_NUM at hx'; omega)
  · rw [nodesAt_append, NodesAt]
    refine ⟨hall.1.congr ?_, hall.2.1.setStatus hle, hall.2.2.congr ?_⟩
    · intro x hx hx'
      exact hframe (by omega)
    · intro x hx hx'
      exact hframe (by omega)
  · intro x hx hx'
    unfold SectorDesc.free at hx
    dsimp only at hx
    rw [hlen] at hx
    have hfront : nodesLen front < nodesLen d.nodes := by
      rw [hnodes, nodesLen_append, nodesLen_cons]
      omega
    rw [hframe (by omega)]
    exact h.erased x hx hx'
  · dsimp only
    rw [hlen]
    exact h.fits

/-- A sector in which the bytes behind the header are kept. -/
theorem setHeader (h : SectorImage m a d) {m' : Memory} {store : SectorStoreStatus}
    {dirty : SectorDirtyStatus}
    (hstore : readStatus m' a SECTOR_STORE_STATUS_NUM = store.index)
    (hdirty : readStatus m' (a + SECTOR_DIRTY_OFFSET) SECTOR_DIRTY_STATUS_NUM = dirty.index)
    (hframe : ∀ x, a + SECTOR_MAGIC_OFFSET ≤ x → x < a + SECTOR_SIZE → m' x = m x) :
    SectorImage m' a { d with store := store, dirty := dirty } := by
  have hhdr : SECTOR_HDR_DATA_SIZE = 16 := rfl
  have hsize : SECTOR_SIZE = 4096 := rfl
  have hmag : SECTOR_MAGIC_OFFSET = 4 := rfl
  have hcom : SECTOR_COMBINED_OFFSET = 8 := rfl
  have hfits := h.fits
  refine ⟨?_, ?_, hstore, hdirty, ?_, ?_, h.fits⟩
  · rw [← h.magic]
    apply Memory.word_congr
    intro x hx hx'
    exact hframe x (by omega) (by omega)
  · rw [← h.combined]
    apply Memory.word_congr
    intro x hx hx'
    exact hframe x (by omega) (by omega)
  · apply h.nodes.congr
    intro x hx hx'
    exact hframe x (by omega) (by omega)
  · intro x hx hx'
    rw [hframe x (by unfold SectorDesc.free at hx; omega) hx']
    exact h.erased x hx hx'

/-- The store status of a sector goes on. -/
theorem setStore (h : SectorImage m a d) {st : SectorStoreStatus}
    (hle : d.store.index ≤ st.index) :
    SectorImage (writeStatus m a SECTOR_STORE_STATUS_NUM st.index) a { d with store := st } := by
  have hmag : SECTOR_MAGIC_OFFSET = 4 := rfl
  have hoff : SECTOR_DIRTY_OFFSET = 1 := rfl
  apply h.setHeader
  · apply readStatus_writeStatus_of_le st.index_lt
    rw [h.store]
    exact hle
  · rw [← h.dirty]
    apply readStatus_congr
    intro x hx hx'
    exact writeStatus_of_ne m st.index_lt rfl (by omega)
  · intro x hx hx'
    exact writeStatus_of_ne m st.index_lt rfl (by omega)

/-- The dirty status of a sector goes on. -/
theorem setDirty (h : SectorImage m a d) (st : SectorDirtyStatus)
    (hle : d.dirty.index ≤ st.index) :
    SectorImage (writeStatus m (a + SECTOR_DIRTY_OFFSET) SECTOR_DIRTY_STATUS_NUM st.index) a
      { d with dirty := st } := by
  have hmag : SECTOR_MAGIC_OFFSET = 4 := rfl
  have hoff : SECTOR_DIRTY_OFFSET = 1 := rfl
  apply h.setHeader
  · rw [← h.store]
    apply readStatus_congr
    intro x hx hx'
    have htable : statusTableSize SECTOR_STORE_STATUS_NUM = 1 := rfl
    exact writeStatus_of_ne m st.index_lt rfl (by omega)
  · apply readStatus_writeStatus_of_le st.index_lt
    rw [h.dirty]
    exact hle
  · intro x hx hx'
    exact writeStatus_of_ne m st.index_lt rfl (by omega)

/-- A variable is added behind the others. -/
theorem append (h : SectorImage m a d) {m' : Memory} {n : Node} (hn : NodeAt m' (d.free a) n)
    (hroom : n.len < d.room)
    (hframe : ∀ x, ¬(d.free a ≤ x ∧ x < d.free a + n.len) → m' x = m x) :
    SectorImage m' a { d with nodes := d.nodes ++ [n] } := by
  have hhdr : SECTOR_HDR_DATA_SIZE = 16 := rfl
  have hsize : SECTOR_SIZE = 4096 := rfl
  have hmag : SECTOR_MAGIC_OFFSET = 4 := rfl
  have hcom : SECTOR_COMBINED_OFFSET = 8 := rfl
  have hoff : SECTOR_DIRTY_OFFSET = 1 := rfl
  have hfree : d.free a = a + SECTOR_HDR_DATA_SIZE + nodesLen d.nodes := rfl
  have hroom' : d.room = SECTOR_SIZE - SECTOR_HDR_DATA_SIZE - nodesLen d.nodes := rfl
  have htable : statusTableSize 4 = 1 := rfl
  have hlen : nodesLen (d.nodes ++ [n]) = nodesLen d.nodes + n.len := by
    rw [nodesLen_append, nodesLen_cons, nodesLen_nil, Nat.add_zero]
  refine ⟨?_, ?_, ?_, ?_, ?_, ?_, ?_⟩
  · rw [← h.magic]
    apply Memory.word_congr
    intro x hx hx'
    exact hframe x (by omega)
  · rw [← h.combined]
    apply Memory.word_congr
    intro x hx hx'
    exact hframe x (by omega)
  · rw [← h.store]
    apply readStatus_congr
    intro x hx hx'
    exact hframe x (by unfold SECTOR_STORE_STATUS_NUM at hx'; omega)
  · rw [← h.dirty]
    apply readStatus_congr
    intro x hx hx'
    exact hframe x (by unfold SECTOR_DIRTY_STATUS_NUM at hx'; omega)
  · rw [nodesAt_append]
    refine ⟨h.nodes.congr ?_, hn, trivial⟩
    intro x hx hx'
    exact hframe x (by omega)
  · intro x hx hx'
    unfold SectorDesc.free at hx
    dsimp only at hx
    rw [hlen] at hx
    rw [hframe x (by omega)]
    exact h.erased x (by omega) hx'
  · dsimp only
    rw [hlen]
    omega

/-- The header that {lit}`format_sector` writes. -/
theorem format (m : Memory) (a : Nat) :
    SectorImage ((m.erase a SECTOR_SIZE).program a (sectorHdrBytes SECTOR_NOT_COMBINED)) a
      ⟨.empty, .false, []⟩ := by
  have hhdr : SECTOR_HDR_DATA_SIZE = 16 := rfl
  have hsize : SECTOR_SIZE = 4096 := rfl
  have hlen : (sectorHdrBytes SECTOR_NOT_COMBINED).length = 16 := by decide
  have hones : ∀ x, a ≤ x → x < a + SECTOR_SIZE → m.erase a SECTOR_SIZE x = 0xFF :=
    Memory.holds_replicate_iff.mp (m.holds_erase a SECTOR_SIZE)
  have hbytes : ((m.erase a SECTOR_SIZE).program a (sectorHdrBytes SECTOR_NOT_COMBINED)).Holds a
      (sectorHdrBytes SECTOR_NOT_COMBINED) := by
    apply Memory.Holds.program_erased
    apply Memory.holds_replicate_iff.mpr
    intro x hx hx'
    exact hones x hx (by omega)
  have hsplit : sectorHdrBytes SECTOR_NOT_COMBINED = [0x7F] ++ ([0x7F] ++ ([0xFF, 0xFF] ++
      (Memory.wordBytes SECTOR_MAGIC_WORD ++ (Memory.wordBytes SECTOR_NOT_COMBINED ++
        Memory.wordBytes 0xFFFFFFFF)))) := by decide
  rw [hsplit, Memory.holds_append, Memory.holds_append, Memory.holds_append, Memory.holds_append,
    Memory.holds_append, ← hsplit] at hbytes
  obtain ⟨hstore, hdirty, -, hmagic, hcombined, -⟩ := hbytes
  refine ⟨?_, ?_, ?_, ?_, trivial, ?_, by decide⟩
  · exact Memory.word_of_holds hmagic (by decide)
  · exact Memory.word_of_holds hcombined (by decide)
  · exact readStatus_of_holds hstore SECTOR_STORE_STATUS_NUM rfl
  · exact readStatus_of_holds hdirty SECTOR_DIRTY_STATUS_NUM rfl
  · intro x hx hx'
    unfold SectorDesc.free at hx
    rw [nodesLen_nil] at hx
    rw [Memory.program_of_not_mem _ (by omega)]
    exact hones x (by omega) hx'

end SectorImage

/-! ## A variable that is written -/

/-- Between the statuses, the header, the name and the value come into the flash. -/
theorem nodeAt_of_holds {m m' : Memory} {a : Nat} (key : CStr) (value : List UInt8)
    (herased : ∀ x, a ≤ x → x < a + ENV_MAGIC_OFFSET → m x = 0xFF)
    (hbytes : m'.Holds (a + ENV_MAGIC_OFFSET)
      ((envHdrOf key value).bytes ++ (key.bytes ++ value)))
    (hframe : ∀ x, ¬(a + ENV_MAGIC_OFFSET ≤ x ∧
      x < a + (Node.mk .write key value).len) →
        m' x = writeStatus m a ENV_STATUS_NUM EnvStatus.preWrite.index x) :
    NodeAt (writeStatus m' a ENV_STATUS_NUM EnvStatus.write.index) a ⟨.write, key, value⟩ ∧
      ∀ x, ¬(a ≤ x ∧ x < a + (Node.mk .write key value).len) →
        writeStatus m' a ENV_STATUS_NUM EnvStatus.write.index x = m x := by
  have hmag : ENV_MAGIC_OFFSET = 4 := rfl
  have htable : statusTableSize ENV_STATUS_NUM = 1 := rfl
  have hle := (Node.mk .write key value).le_len
  have hfirst : readStatus m a ENV_STATUS_NUM = 0 := by
    rw [readStatus_of_holds (b := 0xFF) _ _ rfl]
    · rfl
    · rw [Memory.holds_cons]
      exact ⟨herased a (Nat.le_refl a) (by omega), Memory.holds_nil _ _⟩
  have hpre : readStatus m' a ENV_STATUS_NUM = 1 := by
    rw [readStatus_congr (m := writeStatus m a ENV_STATUS_NUM EnvStatus.preWrite.index)]
    · apply readStatus_writeStatus_of_le EnvStatus.preWrite.index_lt
      rw [hfirst]
      exact Nat.zero_le _
    · intro x hx hx'
      exact hframe x (by omega)
  refine ⟨⟨?_, ?_⟩, ?_⟩
  · apply readStatus_writeStatus_of_le EnvStatus.write.index_lt
    rw [hpre]
    decide
  · -- The three bytes behind the status are not written.
    have hpad : m'.Holds (a + 1) [0xFF, 0xFF, 0xFF] := by
      apply (Memory.holds_replicate_iff (n := 3)).mpr
      intro x hx hx'
      rw [hframe x (by omega), writeStatus_of_ne m EnvStatus.preWrite.index_lt rfl (by omega)]
      exact herased x (by omega) (by omega)
    have htail : m'.Holds (a + 1) (Node.mk .write key value).tail :=
      Memory.holds_append.mpr ⟨hpad, hbytes⟩
    apply htail.congr
    intro x hx hx'
    exact writeStatus_of_ne m' EnvStatus.write.index_lt rfl (by omega)
  · intro x hx
    rw [writeStatus_of_ne m' EnvStatus.write.index_lt rfl (by omega), hframe x (by omega),
      writeStatus_of_ne m EnvStatus.preWrite.index_lt rfl (by omega)]

/-- The writes of {lit}`create_env_blob`. -/
theorem nodeAt_written {m : Memory} {a : Nat} {key : CStr} {value : List UInt8}
    (herased : ∀ x, a ≤ x → x < a + (Node.mk .write key value).len → m x = 0xFF) :
    let m' := ((writeEnvHdr m a (envHdrOf key value)).program (a + ENV_HDR_DATA_SIZE)
      key.bytes).program (a + ENV_HDR_DATA_SIZE + key.strlen) value
    NodeAt (writeStatus m' a ENV_STATUS_NUM EnvStatus.write.index) a ⟨.write, key, value⟩ ∧
      ∀ x, ¬(a ≤ x ∧ x < a + (Node.mk .write key value).len) →
        writeStatus m' a ENV_STATUS_NUM EnvStatus.write.index x = m x := by
  intro m'
  have hmag : ENV_MAGIC_OFFSET = 4 := rfl
  have hhdr : ENV_HDR_DATA_SIZE = 24 := rfl
  have hbytes : (envHdrOf key value).bytes.length = 20 := rfl
  have hkey : key.bytes.length = key.strlen := rfl
  have hlen : (Node.mk .write key value).len = 24 + key.strlen + value.length := rfl
  let m₀ := writeStatus m a ENV_STATUS_NUM EnvStatus.preWrite.index
  let m₁ := m₀.program (a + ENV_MAGIC_OFFSET) (envHdrOf key value).bytes
  let m₂ := m₁.program (a + ENV_HDR_DATA_SIZE) key.bytes
  have hm' : m' = m₂.program (a + ENV_HDR_DATA_SIZE + key.strlen) value := rfl
  have hkept₀ : ∀ x, x ≠ a → m₀ x = m x := fun x hx =>
    writeStatus_of_ne m EnvStatus.preWrite.index_lt rfl hx
  have hkept₁ : ∀ x, ¬(a + 4 ≤ x ∧ x < a + 24) → m₁ x = m₀ x := fun x hx =>
    Memory.program_of_not_mem m₀ (by omega)
  have hkept₂ : ∀ x, ¬(a + 24 ≤ x ∧ x < a + 24 + key.strlen) → m₂ x = m₁ x := fun x hx =>
    Memory.program_of_not_mem m₁ (by omega)
  have hheader : m₁.Holds (a + ENV_MAGIC_OFFSET) (envHdrOf key value).bytes := by
    apply Memory.Holds.program_erased
    apply Memory.holds_replicate_iff.mpr
    intro x hx hx'
    rw [hkept₀ x (by omega)]
    exact herased x (by omega) (by omega)
  have hname : m₂.Holds (a + ENV_HDR_DATA_SIZE) key.bytes := by
    apply Memory.Holds.program_erased
    apply Memory.holds_replicate_iff.mpr
    intro x hx hx'
    rw [hkept₁ x (by omega), hkept₀ x (by omega)]
    exact herased x (by omega) (by omega)
  have hvalue : m'.Holds (a + ENV_HDR_DATA_SIZE + key.strlen) value := by
    rw [hm']
    apply Memory.Holds.program_erased
    apply Memory.holds_replicate_iff.mpr
    intro x hx hx'
    rw [hkept₂ x (by omega), hkept₁ x (by omega), hkept₀ x (by omega)]
    exact herased x (by omega) (by omega)
  apply nodeAt_of_holds
  · intro x hx hx'
    exact herased x hx (by omega)
  · rw [Memory.holds_append, Memory.holds_append, hbytes]
    refine ⟨?_, ?_, hvalue⟩
    · exact (hheader.program_of_disjoint (by omega)).program_of_disjoint (by omega)
    · exact hname.program_of_disjoint (by omega)
  · intro x hx
    rw [hm', Memory.program_of_not_mem _ (by omega), hkept₂ x (by omega), hkept₁ x (by omega)]

/-- The loop of {lit}`move_env` copies what it reads, and leaves the rest alone. -/
theorem copyLoop_spec {m : Memory} (source : Nat) {target n len : Nat} (hle : len ≤ n)
    (herased : ∀ x, target + ENV_MAGIC_OFFSET + len ≤ x → x < target + ENV_MAGIC_OFFSET + n →
      m x = 0xFF)
    (hapart : source + ENV_MAGIC_OFFSET + n ≤ target + ENV_MAGIC_OFFSET ∨
      target + ENV_MAGIC_OFFSET + n ≤ source + ENV_MAGIC_OFFSET) :
    (copyLoop m source target n len).Holds (target + ENV_MAGIC_OFFSET + len)
        (m.read (source + ENV_MAGIC_OFFSET + len) (n - len)) ∧
      ∀ x, ¬(target + ENV_MAGIC_OFFSET + len ≤ x ∧ x < target + ENV_MAGIC_OFFSET + n) →
        copyLoop m source target n len x = m x := by
  fun_induction copyLoop m source target n len with
  | case1 m len hlt size ih =>
      have hsize : 0 < size ∧ len + size ≤ n := by
        by_cases hchunk : len + 32 < n
        · have hval : size = 32 := if_pos hchunk
          omega
        · have hval : size = n - len := if_neg hchunk
          omega
      let chunk := m.read (source + ENV_MAGIC_OFFSET + len) size
      have hchunk : chunk.length = size := Memory.length_read _ _ _
      let m₁ := m.program (target + ENV_MAGIC_OFFSET + len) chunk
      have hkept : ∀ x, ¬(target + ENV_MAGIC_OFFSET + len ≤ x ∧
          x < target + ENV_MAGIC_OFFSET + len + size) → m₁ x = m x := by
        intro x hx
        exact Memory.program_of_not_mem m (by omega)
      have hfirst : m₁.Holds (target + ENV_MAGIC_OFFSET + len) chunk := by
        apply Memory.Holds.program_erased
        apply Memory.holds_replicate_iff.mpr
        intro x hx hx'
        exact herased x hx (by omega)
      have herased₁ : ∀ x, target + ENV_MAGIC_OFFSET + (len + size) ≤ x →
          x < target + ENV_MAGIC_OFFSET + n → m₁ x = 0xFF := by
        intro x hx hx'
        rw [hkept x (by omega)]
        exact herased x (by omega) hx'
      obtain ⟨hrest, hframe⟩ := ih hsize.2 herased₁
      have hsource : m₁.read (source + ENV_MAGIC_OFFSET + (len + size)) (n - (len + size)) =
          m.read (source + ENV_MAGIC_OFFSET + len + size) (n - (len + size)) := by
        rw [← Nat.add_assoc]
        apply Memory.read_congr
        intro x hx hx'
        exact hkept x (by omega)
      refine ⟨?_, ?_⟩
      · rw [show n - len = size + (n - (len + size)) by omega, Memory.read_add,
          Memory.holds_append]
        refine ⟨?_, ?_⟩
        · apply hfirst.congr
          intro x hx hx'
          exact hframe x (by omega)
        · rw [Memory.length_read, ← hsource, Nat.add_assoc _ len size]
          exact hrest
      · intro x hx
        rw [hframe x (by omega)]
        exact hkept x (by omega)
  | case2 m len hge =>
      rw [show n - len = 0 by omega]
      exact ⟨Memory.holds_nil _ _, fun x _ => rfl⟩

/-- The writes of {lit}`move_env`. -/
theorem nodeAt_copied {m : Memory} {source a : Nat} {n : Node} (hn : NodeAt m source n)
    (herased : ∀ x, a ≤ x → x < a + n.len → m x = 0xFF)
    (hapart : source + n.len ≤ a ∨ a + n.len ≤ source) :
    let m' := copyLoop (writeStatus m a ENV_STATUS_NUM EnvStatus.preWrite.index) source a
      (n.len - ENV_MAGIC_OFFSET) 0
    NodeAt (writeStatus m' a ENV_STATUS_NUM EnvStatus.write.index) a { n with status := .write } ∧
      ∀ x, ¬(a ≤ x ∧ x < a + n.len) →
        writeStatus m' a ENV_STATUS_NUM EnvStatus.write.index x = m x := by
  intro m'
  have hmag : ENV_MAGIC_OFFSET = 4 := rfl
  have hle := n.le_len
  have htail := n.length_tail
  let m₀ := writeStatus m a ENV_STATUS_NUM EnvStatus.preWrite.index
  have hkept : ∀ x, x ≠ a → m₀ x = m x := fun x hx =>
    writeStatus_of_ne m EnvStatus.preWrite.index_lt rfl hx
  have herased₀ : ∀ x, a + ENV_MAGIC_OFFSET + 0 ≤ x →
      x < a + ENV_MAGIC_OFFSET + (n.len - ENV_MAGIC_OFFSET) → m₀ x = 0xFF := by
    intro x hx hx'
    rw [hkept x (by omega)]
    exact herased x (by omega) (by omega)
  obtain ⟨hcopy, hframe⟩ := copyLoop_spec source (Nat.zero_le _) herased₀ (by omega)
  have hsource : m.Holds (source + ENV_MAGIC_OFFSET)
      ((envHdrOf n.key n.value).bytes ++ (n.key.bytes ++ n.value)) :=
    (Memory.holds_append.mp hn.tail).2
  have hlen : ((envHdrOf n.key n.value).bytes ++ (n.key.bytes ++ n.value)).length =
      n.len - ENV_MAGIC_OFFSET := by
    have hsplit : n.tail.length = 3 +
        ((envHdrOf n.key n.value).bytes ++ (n.key.bytes ++ n.value)).length := by
      rw [Node.tail, List.length_append]
      rfl
    omega
  have hread : m₀.read (source + ENV_MAGIC_OFFSET) (n.len - ENV_MAGIC_OFFSET) =
      (envHdrOf n.key n.value).bytes ++ (n.key.bytes ++ n.value) := by
    rw [← hsource.read_eq hlen]
    apply Memory.read_congr
    intro x hx hx'
    exact hkept x (by omega)
  rw [Nat.add_zero, Nat.add_zero, Nat.sub_zero, hread] at hcopy
  apply nodeAt_of_holds n.key n.value _ hcopy
  · intro x hx
    have hlen' : (Node.mk .write n.key n.value).len = n.len := rfl
    exact hframe x (by omega)
  · intro x hx hx'
    exact herased x hx (by omega)

end EasyFlash

end WeatherStation
