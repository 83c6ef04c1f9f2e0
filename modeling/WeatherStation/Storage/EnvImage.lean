import WeatherStation.Storage.EnvWrite

/-!
# What the flash of the store holds

A sector that is in order holds a header, variables one behind the other, and erased bytes.
Such a sector is described by its statuses and the list of its variables; what the store
reads of it follows from the description.

Main results:

- Theorem {lit}`readEnv_node`: a variable that was written is read as it was written.
- Theorem {lit}`forEachEnv_nodes`: the iteration over a sector visits its variables in their
  order.
-/

open Foundation

namespace WeatherStation

namespace EasyFlash

/-! ## Variables -/

/-- A variable in the flash. -/
structure Node where
  status : EnvStatus
  key : CStr
  value : List UInt8

namespace Node

/-- The length of a variable with its header. -/
def len (n : Node) : Nat :=
  ENV_HDR_DATA_SIZE + n.key.strlen + n.value.length

/-- The bytes of a variable behind its status. -/
def tail (n : Node) : List UInt8 :=
  [0xFF, 0xFF, 0xFF] ++ ((envHdrOf n.key n.value).bytes ++ (n.key.bytes ++ n.value))

/-- What the store reads of a variable. -/
def obj (n : Node) (a : Nat) : EnvNodeObj where
  status := n.status
  crc_is_ok := true
  name_len := n.key.strlen
  len := n.len
  value_len := n.value.length
  name := n.key.bytes
  start := a
  value := a + ENV_HDR_DATA_SIZE + n.key.strlen

/-- A variable has a name of a permitted length and fits into a sector. -/
structure Fits (n : Node) : Prop where
  name : n.key.strlen ≤ EF_ENV_NAME_MAX
  len : n.len ≤ SECTOR_SIZE - SECTOR_HDR_DATA_SIZE

theorem le_len (n : Node) : 24 ≤ n.len := by
  have hhdr : ENV_HDR_DATA_SIZE = 24 := rfl
  unfold len
  omega

theorem length_tail (n : Node) : n.tail.length + 1 = n.len := by
  have hhdr : ENV_HDR_DATA_SIZE = 24 := rfl
  have hbytes : (envHdrOf n.key n.value).bytes.length = 20 := rfl
  rw [tail, len, List.length_append, List.length_append, List.length_append, hbytes, hhdr,
    CStr.strlen]
  simp only [List.length_cons, List.length_nil]
  omega

end Node

/-- The variable lies at an address. -/
structure NodeAt (m : Memory) (a : Nat) (n : Node) : Prop where
  status : readStatus m a ENV_STATUS_NUM = n.status.index
  tail : m.Holds (a + 1) n.tail

theorem readStatus_congr {m m' : Memory} {a status_num : Nat}
    (h : ∀ x, a ≤ x → x < a + statusTableSize status_num → m' x = m x) :
    readStatus m' a status_num = readStatus m a status_num := by
  unfold readStatus
  rw [Memory.read_congr h]

namespace NodeAt

variable {m : Memory} {a : Nat} {n : Node}

/-- A variable does not depend on the bytes before and behind it. -/
theorem congr {m' : Memory} (hn : NodeAt m a n) (h : ∀ x, a ≤ x → x < a + n.len → m' x = m x) :
    NodeAt m' a n := by
  have hlen := n.length_tail
  constructor
  · rw [← hn.status]
    apply readStatus_congr
    intro x hx hx'
    have hsize : statusTableSize ENV_STATUS_NUM = 1 := rfl
    exact h x hx (by omega)
  · apply hn.tail.congr
    intro x hx hx'
    exact h x (by omega) (by omega)

/-- The parts of a variable. -/
theorem parts (hn : NodeAt m a n) :
    m.Holds (a + 4) (Memory.wordBytes ENV_MAGIC_WORD) ∧ m.Holds (a + 8) (Memory.wordBytes n.len) ∧
      m.Holds (a + 12) (Memory.wordBytes (envHdrOf n.key n.value).crc32.toNat) ∧
      m.Holds (a + 16) ((envHdrOf n.key n.value).lens ++ (n.key.bytes ++ n.value)) := by
  have htail := hn.tail
  rw [Node.tail, Memory.holds_append, EnvHdrData.bytes] at htail
  have hparts := htail.2
  simp only [List.append_assoc] at hparts
  rw [Memory.holds_append, Memory.holds_append, Memory.holds_append] at hparts
  obtain ⟨hmagic, hlen, hcrc, hrest⟩ := hparts
  exact ⟨hmagic, hlen, hcrc, hrest⟩

theorem magicAt (hn : NodeAt m a n) : MagicAt m a :=
  Memory.word_of_holds hn.parts.1 (by decide)

theorem word_len (hn : NodeAt m a n) (hfits : n.Fits) : m.word (a + ENV_LEN_OFFSET) = n.len := by
  have hsize : SECTOR_SIZE = 4096 := rfl
  have hlen := hfits.len
  exact Memory.word_of_holds hn.parts.2.1 (by omega)

theorem word_crc32 (hn : NodeAt m a n) :
    m.word (a + ENV_CRC32_OFFSET) = (envHdrOf n.key n.value).crc32.toNat :=
  Memory.word_of_holds hn.parts.2.2.1 (UInt32.toNat_lt _)

/-- The fields behind the checksum, the name and the value. -/
theorem fields (hn : NodeAt m a n) :
    m (a + 16) = UInt8.ofNat n.key.strlen ∧
      m.Holds (a + 20) (Memory.wordBytes n.value.length) ∧
      m.Holds (a + 24) n.key.bytes ∧ m.Holds (a + 24 + n.key.strlen) n.value := by
  have hrest := hn.parts.2.2.2
  rw [Memory.holds_append, Memory.holds_append, EnvHdrData.lens, Memory.holds_append,
    Memory.holds_cons] at hrest
  obtain ⟨⟨⟨hname, -⟩, hvalue⟩, hkey, hbytes⟩ := hrest
  exact ⟨hname, hvalue, hkey, hbytes⟩

end NodeAt

/-- The loop of {lit}`read_env` computes the checksum of the bytes. -/
theorem readEnvCrcLoop_eq {m : Memory} {addr n len : Nat} (h : len ≤ n) (crc : UInt32) :
    readEnvCrcLoop m addr n len crc =
      efCalcCrc32 crc (m.read (addr + ENV_NAME_LEN_OFFSET + len) (n - len)) := by
  fun_induction readEnvCrcLoop m addr n len crc with
  | case1 len crc hlt size ih =>
      have hsize : 0 < size ∧ len + size ≤ n := by
        by_cases hchunk : len + 32 < n
        · have hval : size = 32 := if_pos hchunk
          omega
        · have hval : size = n - len := if_neg hchunk
          omega
      rw [ih hsize.2, ← efCalcCrc32_append, ← Nat.add_assoc _ len size, ← Memory.read_add,
        show size + (n - (len + size)) = n - len by omega]
  | case2 len crc hge =>
      rw [show n - len = 0 by omega]
      exact (efCalcCrc32_nil crc).symm

/-- The checksum of a variable is right. -/
theorem NodeAt.crc {m : Memory} {a : Nat} {n : Node} (hn : NodeAt m a n) :
    readEnvCrcLoop m a (n.len - ENV_NAME_LEN_OFFSET) 0 0 = (envHdrOf n.key n.value).crc32 := by
  have hlen : ((envHdrOf n.key n.value).lens ++ (n.key.bytes ++ n.value)).length =
      n.len - ENV_NAME_LEN_OFFSET := by
    have hoff : ENV_NAME_LEN_OFFSET = 16 := rfl
    have hhdr : ENV_HDR_DATA_SIZE = 24 := rfl
    have hlens : (envHdrOf n.key n.value).lens.length = 8 := rfl
    rw [List.length_append, List.length_append, hlens, Node.len, CStr.strlen]
    omega
  rw [readEnvCrcLoop_eq (Nat.zero_le _), Nat.add_zero, Nat.sub_zero]
  have hread := hn.parts.2.2.2.read_eq hlen
  change efCalcCrc32 0 (m.read (a + 16) (n.len - ENV_NAME_LEN_OFFSET)) = _
  rw [hread, efCalcCrc32_append, efCalcCrc32_append]
  rfl

/-- A variable that was written is read as it was written. -/
theorem readEnv_node {s : Store} {a : Nat} {n : Node} (hn : NodeAt s.flash a n) (hfits : n.Fits)
    {env : EnvNodeObj} (hstart : env.start = a) : readEnv s env = (s, n.obj a) := by
  subst hstart
  have hsize : SECTOR_SIZE = 4096 := rfl
  have hhdr : SECTOR_HDR_DATA_SIZE = 16 := rfl
  have harea : ENV_AREA_SIZE = 8192 := rfl
  have hoff : ENV_NAME_LEN_OFFSET = 16 := rfl
  have hname := hfits.name
  have hmax : EF_ENV_NAME_MAX = 32 := rfl
  have hlen := hfits.len
  have hle := n.le_len
  obtain ⟨hbyte, hvalue, hkey, -⟩ := hn.fields
  have hname_len : (s.flash (env.start + ENV_NAME_LEN_OFFSET)).toNat = n.key.strlen := by
    change (s.flash (env.start + 16)).toNat = _
    rw [hbyte, UInt8.toNat_ofNat']
    exact Nat.mod_eq_of_lt (by omega)
  have hvalue_len : s.flash.word (env.start + ENV_VALUE_LEN_OFFSET) = n.value.length := by
    apply Memory.word_of_holds hvalue
    have hdef : n.len = 24 + n.key.strlen + n.value.length := rfl
    omega
  have hread : s.flash.read (env.start + ENV_HDR_DATA_SIZE) n.key.strlen = n.key.bytes :=
    hkey.read_eq rfl
  have hassert : ¬(n.len > SECTOR_SIZE - SECTOR_HDR_DATA_SIZE ∧ n.len < ENV_AREA_SIZE) := by omega
  have hwritten : ¬(n.len = 0xFFFFFFFF ∨ n.len > ENV_AREA_SIZE ∨ n.len < ENV_NAME_LEN_OFFSET) := by
    omega
  have hcrc : ¬(envHdrOf n.key n.value).crc32.toNat ≠ (envHdrOf n.key n.value).crc32.toNat :=
    not_not.mpr rfl
  unfold readEnv
  dsimp only
  rw [hn.word_len hfits, if_neg hwritten, if_neg hassert, hn.crc, hn.word_crc32, if_neg hcrc,
    hname_len, hvalue_len, hread, hn.status, EnvStatus.ofIndex_index, if_neg (by omega)]
  rfl

/-! ## Variables one behind the other -/

/-- The length of several variables. -/
def nodesLen : List Node → Nat
  | [] => 0
  | n :: ns => n.len + nodesLen ns

@[simp] theorem nodesLen_nil : nodesLen [] = 0 :=
  rfl

@[simp] theorem nodesLen_cons (n : Node) (ns : List Node) :
    nodesLen (n :: ns) = n.len + nodesLen ns :=
  rfl

@[simp] theorem nodesLen_append (ns ns' : List Node) :
    nodesLen (ns ++ ns') = nodesLen ns + nodesLen ns' := by
  induction ns with
  | nil => rw [List.nil_append, nodesLen_nil, Nat.zero_add]
  | cons n ns ih => rw [List.cons_append, nodesLen_cons, nodesLen_cons, ih, Nat.add_assoc]

/-- The variables lie one behind the other from an address on. -/
def NodesAt (m : Memory) : Nat → List Node → Prop
  | _, [] => True
  | a, n :: ns => NodeAt m a n ∧ NodesAt m (a + n.len) ns

theorem nodesAt_append {m : Memory} {a : Nat} {ns ns' : List Node} :
    NodesAt m a (ns ++ ns') ↔ NodesAt m a ns ∧ NodesAt m (a + nodesLen ns) ns' := by
  induction ns generalizing a with
  | nil => simp only [List.nil_append, NodesAt, true_and, nodesLen_nil, Nat.add_zero]
  | cons n ns ih =>
      rw [List.cons_append, NodesAt, NodesAt, ih, nodesLen_cons, Nat.add_assoc, and_assoc]

theorem NodesAt.congr {m m' : Memory} {a : Nat} {ns : List Node} (h : NodesAt m a ns)
    (hagree : ∀ x, a ≤ x → x < a + nodesLen ns → m' x = m x) : NodesAt m' a ns := by
  induction ns generalizing a with
  | nil => trivial
  | cons n ns ih =>
      rw [nodesLen_cons] at hagree
      refine ⟨h.1.congr ?_, ih h.2 ?_⟩
      · intro x hx hx'
        exact hagree x hx (by omega)
      · intro x hx hx'
        exact hagree x (by omega) (by omega)

theorem length_le_nodesLen (ns : List Node) : 24 * ns.length ≤ nodesLen ns := by
  induction ns with
  | nil => exact Nat.le_refl 0
  | cons n ns ih =>
      have hle := n.le_len
      rw [nodesLen_cons, List.length_cons]
      omega

/-! ## Sectors -/

/-- The address of a sector. -/
def SectorAddr (a : Nat) : Prop :=
  a = 0 ∨ a = SECTOR_SIZE

/-- The sector of an address. -/
theorem alignDown_of_mem {a x : Nat} (ha : SectorAddr a) (hx : a ≤ x) (hx' : x < a + SECTOR_SIZE) :
    alignDown x = a := by
  have hsize : SECTOR_SIZE = 4096 := rfl
  unfold alignDown
  rw [hsize] at hx' ⊢
  rcases ha with rfl | rfl
  · omega
  · rw [hsize] at hx hx' ⊢
    omega

/-- The description of a sector that is in order. -/
structure SectorDesc where
  store : SectorStoreStatus
  dirty : SectorDirtyStatus
  nodes : List Node

namespace SectorDesc

/-- The address behind the last variable of a sector. -/
def free (d : SectorDesc) (a : Nat) : Nat :=
  a + SECTOR_HDR_DATA_SIZE + nodesLen d.nodes

/-- The room behind the last variable. -/
def room (d : SectorDesc) : Nat :=
  SECTOR_SIZE - SECTOR_HDR_DATA_SIZE - nodesLen d.nodes

/-- A description is in order: the sector was formatted, the names have a permitted length, and
there is no variable exactly in an empty sector. -/
structure Ok (d : SectorDesc) : Prop where
  formatted : d.store ≠ .unused
  names : ∀ n ∈ d.nodes, n.key.strlen ≤ EF_ENV_NAME_MAX
  empty : d.store = .empty ↔ d.nodes = []

end SectorDesc

/-- The sector at an address is as described. -/
structure SectorImage (m : Memory) (a : Nat) (d : SectorDesc) : Prop where
  magic : m.word (a + SECTOR_MAGIC_OFFSET) = SECTOR_MAGIC_WORD
  combined : m.word (a + SECTOR_COMBINED_OFFSET) = SECTOR_NOT_COMBINED
  store : readStatus m a SECTOR_STORE_STATUS_NUM = d.store.index
  dirty : readStatus m (a + SECTOR_DIRTY_OFFSET) SECTOR_DIRTY_STATUS_NUM = d.dirty.index
  nodes : NodesAt m (a + SECTOR_HDR_DATA_SIZE) d.nodes
  erased : ∀ x, d.free a ≤ x → x < a + SECTOR_SIZE → m x = 0xFF
  fits : nodesLen d.nodes < SECTOR_SIZE - SECTOR_HDR_DATA_SIZE

section Sector

variable {m : Memory} {a : Nat} {d : SectorDesc}

/-- A sector does not depend on the bytes outside of it. -/
theorem SectorImage.congr {m' : Memory} (h : SectorImage m a d)
    (hagree : ∀ x, a ≤ x → x < a + SECTOR_SIZE → m' x = m x) : SectorImage m' a d := by
  have hsize : SECTOR_SIZE = 4096 := rfl
  have hhdr : SECTOR_HDR_DATA_SIZE = 16 := rfl
  have hmag : SECTOR_MAGIC_OFFSET = 4 := rfl
  have hcom : SECTOR_COMBINED_OFFSET = 8 := rfl
  have hoff : SECTOR_DIRTY_OFFSET = 1 := rfl
  have hfits := h.fits
  have htable : statusTableSize 4 = 1 := rfl
  refine ⟨?_, ?_, ?_, ?_, ?_, ?_, h.fits⟩
  · rw [← h.magic]
    apply Memory.word_congr
    intro x hx hx'
    exact hagree x (by omega) (by omega)
  · rw [← h.combined]
    apply Memory.word_congr
    intro x hx hx'
    exact hagree x (by omega) (by omega)
  · rw [← h.store]
    apply readStatus_congr
    intro x hx hx'
    exact hagree x (by omega) (by unfold SECTOR_STORE_STATUS_NUM at hx'; omega)
  · rw [← h.dirty]
    apply readStatus_congr
    intro x hx hx'
    exact hagree x (by omega) (by unfold SECTOR_DIRTY_STATUS_NUM at hx'; omega)
  · apply h.nodes.congr
    intro x hx hx'
    exact hagree x (by omega) (by omega)
  · intro x hx hx'
    rw [hagree x (by unfold SectorDesc.free at hx; omega) hx']
    exact h.erased x hx hx'

end Sector

/-! ## The iteration over a sector -/

/-- The variables of a sector can be visited: they lie in the flash, and the cache does not
say otherwise. -/
structure Visitable (s : Store) (a : Nat) (ns : List Node) : Prop where
  running : s.halted = Bool.false
  sector : SectorAddr a
  nodes : NodesAt s.flash (a + SECTOR_HDR_DATA_SIZE) ns
  erased : ∀ x, a + SECTOR_HDR_DATA_SIZE + nodesLen ns ≤ x → x < a + SECTOR_SIZE →
    s.flash x = 0xFF
  fits : nodesLen ns < SECTOR_SIZE - SECTOR_HDR_DATA_SIZE
  names : ∀ n ∈ ns, n.key.strlen ≤ EF_ENV_NAME_MAX
  cached : ∀ e, getSectorFromCache s.sector_cache_table a = some e →
    e = a + SECTOR_HDR_DATA_SIZE + nodesLen ns

namespace Visitable

variable {s : Store} {a : Nat} {front back : List Node} {n : Node}

theorem node (h : Visitable s a (front ++ n :: back)) :
    NodeAt s.flash (a + SECTOR_HDR_DATA_SIZE + nodesLen front) n :=
  (nodesAt_append.mp h.nodes).2.1

theorem node_fits (h : Visitable s a (front ++ n :: back)) : n.Fits := by
  have hmem : n ∈ front ++ n :: back := List.mem_append_right _ List.mem_cons_self
  have hfits := h.fits
  rw [nodesLen_append, nodesLen_cons] at hfits
  exact ⟨h.names n hmem, by omega⟩

/-- The search behind a variable finds the next one, or nothing behind the last one. -/
theorem findNextEnvAddr_eq (h : Visitable s a (front ++ back)) (hfront : 0 < nodesLen front) :
    findNextEnvAddr s (a + SECTOR_HDR_DATA_SIZE + nodesLen front)
        (a + SECTOR_SIZE - SECTOR_HDR_DATA_SIZE) =
      if back = [] then FAILED_ADDR else a + SECTOR_HDR_DATA_SIZE + nodesLen front := by
  have hsize : SECTOR_SIZE = 4096 := rfl
  have hhdr : SECTOR_HDR_DATA_SIZE = 16 := rfl
  have hmag : ENV_MAGIC_OFFSET = 4 := rfl
  have hfits := h.fits
  rw [nodesLen_append] at hfits
  have halign : alignDown (a + SECTOR_HDR_DATA_SIZE + nodesLen front) = a :=
    alignDown_of_mem h.sector (by omega) (by omega)
  unfold findNextEnvAddr
  rw [halign]
  cases back with
  | nil =>
      rw [if_pos rfl]
      split_ifs
      · rfl
      · apply findMagicLoop_of_none
        intro p hp hp'
        rw [Memory.word_of_erased]
        · decide
        · intro x hx hx'
          refine h.erased x ?_ (by omega)
          rw [List.append_nil]
          omega
  | cons n back =>
      have hle := n.le_len
      rw [nodesLen_cons] at hfits
      rw [if_neg (List.cons_ne_nil n back), if_neg]
      · refine findMagicLoop_of_first (by omega) h.node.magicAt (Nat.le_refl _) (by omega) ?_
        intro p hp hp' hbak
        omega
      · intro hhit
        have hend := h.cached _ hhit
        rw [nodesLen_append, nodesLen_cons] at hend
        omega

/-- From one variable to the next. -/
theorem getNextEnvAddr_obj (h : Visitable s a (front ++ n :: back)) {sector : SectorMeta}
    (haddr : sector.addr = a) (hstore : sector.store ≠ .empty) :
    getNextEnvAddr s sector (n.obj (a + SECTOR_HDR_DATA_SIZE + nodesLen front)) =
      if back = [] then FAILED_ADDR else a + SECTOR_HDR_DATA_SIZE + nodesLen (front ++ [n]) := by
  have hsize : SECTOR_SIZE = 4096 := rfl
  have hhdr : SECTOR_HDR_DATA_SIZE = 16 := rfl
  have hfail : FAILED_ADDR = 4294967295 := rfl
  have hfits := h.fits
  have hle := n.le_len
  rw [nodesLen_append, nodesLen_cons] at hfits
  have hsec : a ≤ SECTOR_SIZE := by
    rcases h.sector with rfl | rfl
    all_goals omega
  have hsplit : Visitable s a ((front ++ [n]) ++ back) := by
    rw [List.append_assoc]
    exact h
  have hnext := findNextEnvAddr_eq hsplit
    (by rw [nodesLen_append, nodesLen_cons]; omega)
  have hlen : nodesLen (front ++ [n]) = nodesLen front + n.len := by
    rw [nodesLen_append, nodesLen_cons, nodesLen_nil, Nat.add_zero]
  have hlive : (n.obj (a + SECTOR_HDR_DATA_SIZE + nodesLen front)).start ≠ FAILED_ADDR := by
    change a + SECTOR_HDR_DATA_SIZE + nodesLen front ≠ FAILED_ADDR
    omega
  have hin : (n.obj (a + SECTOR_HDR_DATA_SIZE + nodesLen front)).start ≤ a + SECTOR_SIZE := by
    change a + SECTOR_HDR_DATA_SIZE + nodesLen front ≤ a + SECTOR_SIZE
    omega
  have hbehind : (n.obj (a + SECTOR_HDR_DATA_SIZE + nodesLen front)).start +
      (n.obj (a + SECTOR_HDR_DATA_SIZE + nodesLen front)).len =
        a + SECTOR_HDR_DATA_SIZE + nodesLen (front ++ [n]) := by
    change a + SECTOR_HDR_DATA_SIZE + nodesLen front + n.len = _
    omega
  have hpos : (n.obj (a + SECTOR_HDR_DATA_SIZE + nodesLen front)).len ≠ 0 := by
    change n.len ≠ 0
    omega
  unfold getNextEnvAddr
  rw [haddr, if_neg hstore, if_neg hlive, if_pos hin]
  dsimp only
  rw [if_pos (show (n.obj _).crc_is_ok = true from rfl), hbehind, hnext]
  split_ifs with hback hcase hcase
  · rfl
  · rfl
  · omega
  · rfl

end Visitable

section Nodes

variable {α : Type} {sector : SectorMeta} {body : Store → EnvNodeObj → α → Store × α × Bool}

/-- One round of the loop, at a variable. -/
theorem forEachEnv_round {fuel : Nat} {s : Store} {env : EnvNodeObj} {acc : α} {a : Nat}
    {n : Node} (hrunning : s.halted = Bool.false) (haddr : getNextEnvAddr s sector env = a)
    (hne : a ≠ FAILED_ADDR) (hn : NodeAt s.flash a n) (hfits : n.Fits) :
    forEachEnv sector body (fuel + 1) s env acc =
      if (body s (n.obj a) acc).2.2 then
        ((body s (n.obj a) acc).1, n.obj a, (body s (n.obj a) acc).2.1, Bool.true)
      else forEachEnv sector body fuel (body s (n.obj a) acc).1 (n.obj a)
        (body s (n.obj a) acc).2.1 := by
  rw [forEachEnv]
  dsimp only
  rw [haddr, if_neg hne, readEnv_node hn hfits rfl, if_neg (Bool.eq_false_iff.mp hrunning)]

section Visits

variable {I : List Node → List Node → Store → α → Prop} {Q : Store → EnvNodeObj → α → Prop}
  {a : Nat}

/-- The loop from the next variable on. -/
theorem forEachEnv_nodes_of_next (haddr : sector.addr = a) (hstore : sector.store ≠ .empty)
    (hvisit : ∀ front back s acc, I front back s acc → Visitable s a (front ++ back))
    (hstep : ∀ front n back s acc, I front (n :: back) s acc →
      let b := body s (n.obj (a + SECTOR_HDR_DATA_SIZE + nodesLen front)) acc
      (b.2.2 = Bool.true → Q b.1 (n.obj (a + SECTOR_HDR_DATA_SIZE + nodesLen front)) b.2.1) ∧
      (b.2.2 = Bool.false →
        ∃ n', n'.len = n.len ∧ I (front ++ [n']) back b.1 b.2.1))
    {fuel : Nat} {front back : List Node} {s : Store} {env : EnvNodeObj} {acc : α}
    (hfuel : back.length < fuel) (hI : I front back s acc)
    (hnext : getNextEnvAddr s sector env =
      if back = [] then FAILED_ADDR else a + SECTOR_HDR_DATA_SIZE + nodesLen front) :
    let r := forEachEnv sector body fuel s env acc
    r.2.2.2 = Bool.true ∧ Q r.1 r.2.1 r.2.2.1 ∨
      r.2.2.2 = Bool.false ∧ ∃ front, I front [] r.1 r.2.2.1 := by
  induction back generalizing fuel front s env acc with
  | nil =>
      obtain ⟨fuel, rfl⟩ := Nat.exists_eq_add_one.mpr hfuel
      rw [forEachEnv_of_failed hnext]
      exact .inr ⟨rfl, front, hI⟩
  | cons n back ih =>
      obtain ⟨fuel, rfl⟩ := Nat.exists_eq_add_one.mpr (Nat.zero_lt_of_lt hfuel)
      have hsees := hvisit _ _ _ _ hI
      have hsize : SECTOR_SIZE = 4096 := rfl
      have hhdr : SECTOR_HDR_DATA_SIZE = 16 := rfl
      have hfail : FAILED_ADDR = 4294967295 := rfl
      have hne : a + SECTOR_HDR_DATA_SIZE + nodesLen front ≠ FAILED_ADDR := by
        have hfits := hsees.fits
        rw [nodesLen_append] at hfits
        rcases hsees.sector with rfl | rfl
        all_goals omega
      rw [if_neg (List.cons_ne_nil n back)] at hnext
      rw [forEachEnv_round hsees.running hnext hne hsees.node hsees.node_fits]
      have hb := hstep _ _ _ _ _ hI
      dsimp only at hb ⊢
      split_ifs with hstop
      · exact .inl ⟨rfl, hb.1 hstop⟩
      · obtain ⟨n', hlen, hI'⟩ := hb.2 (Bool.eq_false_iff.mpr hstop)
        have hsees' : Visitable (body s (n.obj (a + SECTOR_HDR_DATA_SIZE + nodesLen front)) acc).1 a
            (front ++ n' :: back) := by
          have hall := hvisit _ _ _ _ hI'
          rwa [List.append_assoc] at hall
        apply ih (Nat.lt_of_succ_lt_succ hfuel) hI'
        have hobj := hsees'.getNextEnvAddr_obj haddr hstore
        -- The loop goes on from what was read before the body changed it.
        rw [← hobj]
        unfold getNextEnvAddr Node.obj
        rw [hlen]

/-- The iteration over a sector visits its variables in their order. -/
theorem forEachEnv_nodes (body : Store → EnvNodeObj → α → Store × α × Bool)
    (haddr : sector.addr = a) (hstore : sector.store ≠ .empty)
    (hvisit : ∀ front back s acc, I front back s acc → Visitable s a (front ++ back))
    (hstep : ∀ front n back s acc, I front (n :: back) s acc →
      let b := body s (n.obj (a + SECTOR_HDR_DATA_SIZE + nodesLen front)) acc
      (b.2.2 = Bool.true → Q b.1 (n.obj (a + SECTOR_HDR_DATA_SIZE + nodesLen front)) b.2.1) ∧
      (b.2.2 = Bool.false →
        ∃ n', n'.len = n.len ∧ I (front ++ [n']) back b.1 b.2.1))
    {nodes : List Node} (hnodes : nodes ≠ []) (s : Store) (acc : α) (hI : I [] nodes s acc)
    (env : EnvNodeObj) :
    let r := forEachEnv sector body SECTOR_SIZE s { env with start := FAILED_ADDR } acc
    r.2.2.2 = Bool.true ∧ Q r.1 r.2.1 r.2.2.1 ∨
      r.2.2.2 = Bool.false ∧ ∃ front, I front [] r.1 r.2.2.1 := by
  apply forEachEnv_nodes_of_next haddr hstore hvisit hstep _ hI
  · rw [if_neg hnodes, getNextEnvAddr, if_neg hstore, if_pos rfl, haddr]
    rfl
  · have hsize : SECTOR_SIZE = 4096 := rfl
    have hfits := (hvisit _ _ _ _ hI).fits
    have hle := length_le_nodesLen nodes
    rw [List.nil_append] at hfits
    omega

end Visits

end Nodes

end EasyFlash

end WeatherStation
