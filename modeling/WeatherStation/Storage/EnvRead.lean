import WeatherStation.Foundation.Execution
import WeatherStation.Storage.EnvCache
import WeatherStation.Storage.EnvStatus

/-!
# Reading the store

The variables lie one behind the other in the sectors of the flash.  The store is read by
going from a variable to the next one: its address follows from the length of the one before
where that could be checked, and the magic word is searched for otherwise.  Reading is not
free of effects: a header without a length is marked, and the caches are filled.

Main results:

- Theorem {lit}`findMagicLoop_of_first`: the search finds the first magic word.
- Theorem {lit}`getNextEnvAddr_lt`: from one variable to the next the address grows.
- Theorem {lit}`forEachEnv_done`: so the iteration over a sector ends, whatever it holds, unless
  the device halts.
-/

open Foundation

namespace WeatherStation

namespace EasyFlash

/-! ## Layout of the flash -/

/-- {lit}`SECTOR_NUM` -/
def SECTOR_NUM : Nat := 2

/-- {lit}`ENV_AREA_SIZE` -/
def ENV_AREA_SIZE : Nat := SECTOR_SIZE * 2

/-- {lit}`env_start_addr` -/
def env_start_addr : Nat := 0

/-- {lit}`SECTOR_HDR_DATA_SIZE` -/
def SECTOR_HDR_DATA_SIZE : Nat := 16

/-- {lit}`SECTOR_MAGIC_WORD` -/
def SECTOR_MAGIC_WORD : Nat := 0x30344645

/-- {lit}`ENV_MAGIC_WORD` -/
def ENV_MAGIC_WORD : Nat := 0x3034564B

/-- {lit}`SECTOR_NOT_COMBINED` -/
def SECTOR_NOT_COMBINED : Nat := 0xFFFFFFFF

/-- {lit}`SECTOR_DIRTY_OFFSET` -/
def SECTOR_DIRTY_OFFSET : Nat := 1

/-- The offset of {lit}`magic` in {lit}`struct sector_hdr_data`. -/
def SECTOR_MAGIC_OFFSET : Nat := 4

/-- The offset of {lit}`combined` in {lit}`struct sector_hdr_data`. -/
def SECTOR_COMBINED_OFFSET : Nat := 8

/-- {lit}`ENV_MAGIC_OFFSET` -/
def ENV_MAGIC_OFFSET : Nat := 4

/-- {lit}`ENV_LEN_OFFSET` -/
def ENV_LEN_OFFSET : Nat := 8

/-- The offset of {lit}`crc32` in {lit}`struct env_hdr_data`. -/
def ENV_CRC32_OFFSET : Nat := 12

/-- {lit}`ENV_NAME_LEN_OFFSET` -/
def ENV_NAME_LEN_OFFSET : Nat := 16

/-- The offset of {lit}`value_len` in {lit}`struct env_hdr_data`. -/
def ENV_VALUE_LEN_OFFSET : Nat := 20

/-- {lit}`EF_ALIGN_DOWN` to the size of a sector. -/
def alignDown (addr : Nat) : Nat :=
  addr / SECTOR_SIZE * SECTOR_SIZE

/-- A difference of two {lit}`uint32_t`. -/
def sub32 (a b : Nat) : Nat :=
  (a + 4294967296 - b) % 4294967296

/-! ## Statuses -/

/-- {lit}`sector_store_status_t` -/
inductive SectorStoreStatus where
  | unused
  | empty
  | inUse
  | full
deriving DecidableEq

/-- {lit}`SECTOR_STORE_STATUS_NUM` -/
def SECTOR_STORE_STATUS_NUM : Nat := 4

/-- {lit}`sector_dirty_status_t` -/
inductive SectorDirtyStatus where
  | unused
  | false
  | true
  | gc
deriving DecidableEq

/-- {lit}`SECTOR_DIRTY_STATUS_NUM` -/
def SECTOR_DIRTY_STATUS_NUM : Nat := 4

/-- {lit}`env_status_t` -/
inductive EnvStatus where
  | unused
  | preWrite
  | write
  | preDelete
  | deleted
  | errHdr
deriving DecidableEq

/-- {lit}`ENV_STATUS_NUM` -/
def ENV_STATUS_NUM : Nat := 6

namespace SectorStoreStatus

/-- The number of a status. -/
def index : SectorStoreStatus → Nat
  | unused => 0
  | empty => 1
  | inUse => 2
  | full => 3

/-- The status with a number. -/
def ofIndex : Nat → SectorStoreStatus
  | 0 => unused
  | 1 => empty
  | 2 => inUse
  | _ => full

@[simp] theorem ofIndex_index (st : SectorStoreStatus) : ofIndex st.index = st := by
  cases st <;> rfl

end SectorStoreStatus

namespace SectorDirtyStatus

/-- The number of a status. -/
def index : SectorDirtyStatus → Nat
  | unused => 0
  | false => 1
  | true => 2
  | gc => 3

/-- The status with a number. -/
def ofIndex : Nat → SectorDirtyStatus
  | 0 => unused
  | 1 => false
  | 2 => true
  | _ => gc

@[simp] theorem ofIndex_index (st : SectorDirtyStatus) : ofIndex st.index = st := by
  cases st <;> rfl

end SectorDirtyStatus

namespace EnvStatus

/-- The number of a status. -/
def index : EnvStatus → Nat
  | unused => 0
  | preWrite => 1
  | write => 2
  | preDelete => 3
  | deleted => 4
  | errHdr => 5

/-- The status with a number. -/
def ofIndex : Nat → EnvStatus
  | 0 => unused
  | 1 => preWrite
  | 2 => write
  | 3 => preDelete
  | 4 => deleted
  | _ => errHdr

@[simp] theorem ofIndex_index (st : EnvStatus) : ofIndex st.index = st := by
  cases st <;> rfl

end EnvStatus

/-! ## The state of the store -/

/-- {lit}`EfErrCode` -/
inductive EfErrCode where
  | noErr
  | eraseErr
  | readErr
  | writeErr
  | envNameErr
  | envNameExist
  | envFull
  | envInitFailed
deriving DecidableEq

/-- {lit}`struct sector_meta_data` -/
structure SectorMeta where
  check_ok : Bool := Bool.false
  store : SectorStoreStatus := .unused
  dirty : SectorDirtyStatus := .unused
  addr : Nat := 0
  magic : Nat := 0
  combined : Nat := 0
  remain : Nat := 0
  empty_env : Nat := 0

/-- {lit}`struct env_node_obj` -/
structure EnvNodeObj where
  status : EnvStatus := .unused
  crc_is_ok : Bool := Bool.false
  name_len : Nat := 0
  len : Nat := 0
  value_len : Nat := 0
  name : List UInt8 := []
  start : Nat := 0
  value : Nat := 0

/-- The flash, the caches and the static variables.  The device has halted when an assertion
failed, or when a name was read over the end of its array; what is computed after that is no
part of a run. -/
structure Store where
  flash : Memory
  env_cache_table : List EnvCacheNode
  sector_cache_table : List SectorCacheNode
  gc_request : Bool
  in_recovery_check : Bool
  last_is_complete_del : Bool
  init_ok : Bool
  halted : Bool

/-! ## From one variable to the next -/

/-- The loop of {lit}`continue_ff_addr`: the byte before and the address where the ones began. -/
def continueFfLoop (m : Memory) (end_addr start : Nat) (last_data : UInt8) (addr : Nat) :
    UInt8 × Nat :=
  if _h : start < end_addr then
    let read_size := if start + 32 < end_addr then 32 else end_addr - start
    let r := (List.range read_size).foldl
      (fun (r : UInt8 × Nat) i =>
        (m (start + i), if r.1 ≠ 0xFF ∧ m (start + i) = 0xFF then start + i else r.2))
      (last_data, addr)
    continueFfLoop m end_addr (start + 32) r.1 r.2
  else (last_data, addr)
termination_by end_addr - start

/-- {lit}`continue_ff_addr` -/
def continueFfAddr (m : Memory) (start end_addr : Nat) : Nat :=
  let r := continueFfLoop m end_addr start 0x00 start
  if r.1 = 0xFF then r.2 else end_addr

/-- The loop of {lit}`find_next_env_addr`. -/
def findMagicLoop (m : Memory) (start_bak end_addr start : Nat) : Nat :=
  if _h : start < end_addr then
    match (List.range 28).find? fun i =>
      start + i < end_addr ∧ m.word (start + i) = ENV_MAGIC_WORD ∧
        start + i - ENV_MAGIC_OFFSET ≥ start_bak with
    | some i => start + i - ENV_MAGIC_OFFSET
    | none => findMagicLoop m start_bak end_addr (start + 28)
  else FAILED_ADDR
termination_by end_addr - start

/-- {lit}`find_next_env_addr` -/
def findNextEnvAddr (s : Store) (start end_addr : Nat) : Nat :=
  if getSectorFromCache s.sector_cache_table (alignDown start) = some start then FAILED_ADDR
  else findMagicLoop s.flash start end_addr start

/-- {lit}`get_next_env_addr` -/
def getNextEnvAddr (s : Store) (sector : SectorMeta) (pre_env : EnvNodeObj) : Nat :=
  if sector.store = .empty then FAILED_ADDR
  else if pre_env.start = FAILED_ADDR then sector.addr + SECTOR_HDR_DATA_SIZE
  else if pre_env.start ≤ sector.addr + SECTOR_SIZE then
    let addr := if pre_env.crc_is_ok then pre_env.start + pre_env.len else pre_env.start + 1
    let addr := findNextEnvAddr s addr (sector.addr + SECTOR_SIZE - SECTOR_HDR_DATA_SIZE)
    if addr > sector.addr + SECTOR_SIZE ∨ pre_env.len = 0 then FAILED_ADDR else addr
  else FAILED_ADDR

/-- The loop of {lit}`read_env` that computes the checksum. -/
def readEnvCrcLoop (m : Memory) (addr crc_data_len len : Nat) (calc_crc32 : UInt32) : UInt32 :=
  if _h : len < crc_data_len then
    let size := if len + 32 < crc_data_len then 32 else crc_data_len - len
    readEnvCrcLoop m addr crc_data_len (len + size)
      (efCalcCrc32 calc_crc32 (m.read (addr + ENV_NAME_LEN_OFFSET + len) size))
  else calc_crc32
termination_by crc_data_len - len
decreasing_by split_ifs <;> omega

/-- {lit}`read_env` -/
def readEnv (s : Store) (env : EnvNodeObj) : Store × EnvNodeObj :=
  let status := EnvStatus.ofIndex (readStatus s.flash env.start ENV_STATUS_NUM)
  let len := s.flash.word (env.start + ENV_LEN_OFFSET)
  if len = 0xFFFFFFFF ∨ len > ENV_AREA_SIZE ∨ len < ENV_NAME_LEN_OFFSET then
    -- The length was not written.
    (if status ≠ .errHdr then
      { s with flash := writeStatus s.flash env.start ENV_STATUS_NUM EnvStatus.errHdr.index }
    else s,
      { env with status := .errHdr, len := ENV_HDR_DATA_SIZE, crc_is_ok := Bool.false })
  else
    let s := if len > SECTOR_SIZE - SECTOR_HDR_DATA_SIZE ∧ len < ENV_AREA_SIZE then
      { s with halted := Bool.true } else s
    let calc_crc32 := readEnvCrcLoop s.flash env.start (len - ENV_NAME_LEN_OFFSET) 0 0
    if calc_crc32.toNat ≠ s.flash.word (env.start + ENV_CRC32_OFFSET) then
      (s, { env with status := status, len := len, crc_is_ok := Bool.false })
    else
      let name_len := (s.flash (env.start + ENV_NAME_LEN_OFFSET)).toNat
      let env_name_addr := env.start + ENV_HDR_DATA_SIZE
      (if name_len > EF_ENV_NAME_MAX then { s with halted := Bool.true } else s, { env with
        status := status, len := len, crc_is_ok := Bool.true,
        name := s.flash.read env_name_addr name_len
        value := env_name_addr + name_len
        value_len := s.flash.word (env.start + ENV_VALUE_LEN_OFFSET)
        name_len := name_len })

/-- The loop over the variables of a sector, in which {lit}`body` ends the loop by returning
true.  Nothing is done any more when the device has halted. -/
def forEachEnv {α : Type} (sector : SectorMeta) (body : Store → EnvNodeObj → α → Store × α × Bool) :
    Nat → Store → EnvNodeObj → α → Store × EnvNodeObj × α × Bool
  | 0, s, env, acc => (s, env, acc, Bool.false)
  | fuel + 1, s, env, acc =>
      let addr := getNextEnvAddr s sector env
      if addr = FAILED_ADDR then (s, { env with start := addr }, acc, Bool.false)
      else
        let r := readEnv s { env with start := addr }
        if r.1.halted then (r.1, r.2, acc, Bool.true)
        else
          let b := body r.1 r.2 acc
          if b.2.2 then (b.1, r.2, b.2.1, Bool.true)
          else forEachEnv sector body fuel b.1 r.2 b.2.1

/-! ## From one sector to the next -/

/-- What the loop of {lit}`read_sector_meta_data` adds up. -/
structure Traversal where
  empty_env : Nat
  remain : Nat
  result : EfErrCode

/-- The body of the loop of {lit}`read_sector_meta_data`. -/
def traversalBody (s : Store) (env_meta : EnvNodeObj) (t : Traversal) : Store × Traversal × Bool :=
  if ¬env_meta.crc_is_ok ∧ env_meta.status ≠ .preWrite ∧ env_meta.status ≠ .errHdr then
    (s, { t with remain := 0, result := .readErr }, Bool.true)
  else
    (s, { t with empty_env := t.empty_env + env_meta.len, remain := sub32 t.remain env_meta.len },
      Bool.false)

/-- {lit}`read_sector_meta_data` -/
def readSectorMetaData (s : Store) (addr : Nat) (sector : SectorMeta) (traversal : Bool) :
    Store × SectorMeta × EfErrCode :=
  let magic := s.flash.word (addr + SECTOR_MAGIC_OFFSET)
  if magic ≠ SECTOR_MAGIC_WORD then
    (s, { sector with
      addr := addr, magic := magic, check_ok := Bool.false, combined := SECTOR_NOT_COMBINED },
      .envInitFailed)
  else
    let sector := { sector with
      addr := addr, magic := magic, check_ok := Bool.true
      combined := s.flash.word (addr + SECTOR_COMBINED_OFFSET)
      store := SectorStoreStatus.ofIndex (readStatus s.flash addr SECTOR_STORE_STATUS_NUM)
      dirty := SectorDirtyStatus.ofIndex
        (readStatus s.flash (addr + SECTOR_DIRTY_OFFSET) SECTOR_DIRTY_STATUS_NUM) }
    if traversal then
      let sector := { sector with remain := 0, empty_env := addr + SECTOR_HDR_DATA_SIZE }
      match sector.store with
      | .empty => (s, { sector with remain := SECTOR_SIZE - SECTOR_HDR_DATA_SIZE }, .noErr)
      | .inUse =>
          match getSectorFromCache s.sector_cache_table addr with
          | some empty_env =>
              (s, { sector with
                empty_env := empty_env, remain := SECTOR_SIZE - (empty_env - addr) }, .noErr)
          | none =>
              let r := forEachEnv sector traversalBody SECTOR_SIZE s { start := FAILED_ADDR }
                ⟨addr + SECTOR_HDR_DATA_SIZE, SECTOR_SIZE - SECTOR_HDR_DATA_SIZE, .noErr⟩
              let t := r.2.2.1
              let ff_addr := continueFfAddr r.1.flash t.empty_env (addr + SECTOR_SIZE)
              let t := if t.empty_env ≠ ff_addr then
                { t with empty_env := ff_addr, remain := SECTOR_SIZE - (ff_addr - addr) } else t
              ({ r.1 with
                sector_cache_table := updateSectorCache r.1.sector_cache_table addr t.empty_env },
                { sector with empty_env := t.empty_env, remain := t.remain }, t.result)
      | _ => (s, sector, .noErr)
    else (s, sector, .noErr)

/-- {lit}`get_next_sector_addr` -/
def getNextSectorAddr (pre_sec : SectorMeta) : Nat :=
  if pre_sec.addr = FAILED_ADDR then env_start_addr
  else
    let next_addr := if pre_sec.combined = SECTOR_NOT_COMBINED then pre_sec.addr + SECTOR_SIZE
      else (pre_sec.addr + pre_sec.combined * SECTOR_SIZE) % 4294967296
    if next_addr < env_start_addr + ENV_AREA_SIZE then next_addr else FAILED_ADDR

/-- The loop over the sectors, in which {lit}`body` ends the loop by returning true. -/
def forEachSector {β : Type}
    (body : Store → Nat → SectorMeta → β → Store × SectorMeta × β × Bool) :
    Nat → Store → SectorMeta → β → Store × SectorMeta × β
  | 0, s, sector, acc => (s, sector, acc)
  | fuel + 1, s, sector, acc =>
      let sec_addr := getNextSectorAddr sector
      if sec_addr = FAILED_ADDR then (s, sector, acc)
      else
        let b := body s sec_addr sector acc
        if b.2.2.2 then (b.1, b.2.1, b.2.2.1)
        else forEachSector body fuel b.1 b.2.1 b.2.2.1

/-- The body of the loop of {lit}`env_iterator`. -/
def envIteratorBody {α : Type} (callback : Store → EnvNodeObj → α → Store × α × Bool)
    (s : Store) (sec_addr : Nat) (sector : SectorMeta) (acc : EnvNodeObj × α) :
    Store × SectorMeta × (EnvNodeObj × α) × Bool :=
  match readSectorMetaData s sec_addr sector Bool.false with
  | (s, sector, .noErr) =>
      if sector.store = .inUse ∨ sector.store = .full then
        let r := forEachEnv sector callback SECTOR_SIZE s { acc.1 with start := FAILED_ADDR } acc.2
        (r.1, sector, (r.2.1, r.2.2.1), r.2.2.2)
      else (s, sector, acc, Bool.false)
  | (s, sector, _) => (s, sector, acc, Bool.false)

/-- {lit}`env_iterator` -/
def envIterator {α : Type} (callback : Store → EnvNodeObj → α → Store × α × Bool) (s : Store)
    (env : EnvNodeObj) (acc : α) : Store × EnvNodeObj × α :=
  let r := forEachSector (envIteratorBody callback) SECTOR_NUM s { addr := FAILED_ADDR } (env, acc)
  (r.1, r.2.2.1, r.2.2.2)

/-! ## Searching a variable -/

/-- {lit}`find_env_cb` -/
def findEnvCb (key : CStr) (s : Store) (env : EnvNodeObj) (find_ok : Bool) : Store × Bool × Bool :=
  if key.strlen ≠ env.name_len then (s, find_ok, Bool.false)
  else if env.crc_is_ok ∧ env.status = .write ∧ env.name.take key.strlen = key.bytes then
    (s, Bool.true, Bool.true)
  else (s, find_ok, Bool.false)

/-- {lit}`find_env_no_cache` -/
def findEnvNoCache (s : Store) (key : CStr) (env : EnvNodeObj) : Store × EnvNodeObj × Bool :=
  envIterator (findEnvCb key) s env Bool.false

/-- {lit}`find_env` -/
def findEnv (s : Store) (key : CStr) (env : EnvNodeObj) : Store × EnvNodeObj × Bool :=
  match getEnvFromCache s.flash key.bytes s.env_cache_table with
  | some (start, table) =>
      let r := readEnv { s with env_cache_table := table } { env with start := start }
      (r.1, r.2, Bool.true)
  | none =>
      let r := findEnvNoCache s key env
      if r.2.2 then
        ({ r.1 with
          env_cache_table := updateEnvCache r.1.env_cache_table key.bytes r.2.1.start }, r.2)
      else r

/-- {lit}`get_env`: the bytes put into the buffer and the length of the value, if the variable
was found. -/
def getEnv (s : Store) (key : CStr) (buf_len : Nat) : Store × Option (List UInt8 × Nat) :=
  let r := findEnv s key {}
  if r.2.2 then
    let env := r.2.1
    let read_len := if buf_len > env.value_len then env.value_len else buf_len
    (r.1, some (r.1.flash.read env.value read_len, env.value_len))
  else (r.1, none)

/-- {lit}`ef_get_env_blob` -/
def efGetEnvBlob (s : Store) (key : CStr) (buf_len : Nat) : Store × Option (List UInt8 × Nat) :=
  if ¬s.init_ok then (s, none) else getEnv s key buf_len

/-! ## The search for a magic word -/

/-- A variable can begin at an address: its magic word is there. -/
def MagicAt (m : Memory) (a : Nat) : Prop :=
  m.word (a + ENV_MAGIC_OFFSET) = ENV_MAGIC_WORD

section Search

variable {m : Memory} {start_bak end_addr start : Nat}

/-- The search finds the first magic word of a variable that begins in its range. -/
theorem findMagicLoop_of_first {a : Nat} (hstart : start ≤ a + ENV_MAGIC_OFFSET)
    (hmagic : MagicAt m a) (hbak : start_bak ≤ a) (hend : a + ENV_MAGIC_OFFSET < end_addr)
    (hfirst : ∀ p, start ≤ p → p < a + ENV_MAGIC_OFFSET → start_bak ≤ p - ENV_MAGIC_OFFSET →
      m.word p ≠ ENV_MAGIC_WORD) : findMagicLoop m start_bak end_addr start = a := by
  fun_induction findMagicLoop m start_bak end_addr start with
  | case1 start hlt i hfind =>
      have hi := List.find?_some hfind
      rw [decide_eq_true_iff] at hi
      have hle : ¬start + i < a + ENV_MAGIC_OFFSET := by
        intro hbefore
        exact hfirst (start + i) (by omega) hbefore hi.2.2 hi.2.1
      have hge : ¬a + ENV_MAGIC_OFFSET < start + i := by
        intro hbehind
        have hnot := List.find?_range_eq_some.mp hfind
        have hno := hnot.2.2 (a + ENV_MAGIC_OFFSET - start) (by omega)
        rw [show start + (a + ENV_MAGIC_OFFSET - start) = a + ENV_MAGIC_OFFSET by omega] at hno
        simp only [Bool.not_eq_true', decide_eq_false_iff_not] at hno
        exact hno ⟨hend, hmagic, by omega⟩
      omega
  | case2 start hlt hfind ih =>
      apply ih
      · by_contra hbehind
        have hno := List.find?_eq_none.mp hfind (a + ENV_MAGIC_OFFSET - start)
          (List.mem_range.mpr (by omega))
        rw [show start + (a + ENV_MAGIC_OFFSET - start) = a + ENV_MAGIC_OFFSET by omega] at hno
        simp only [decide_eq_true_eq] at hno
        exact hno ⟨hend, hmagic, by omega⟩
      · intro p hp
        exact hfirst p (by omega)
  | case3 start hlt => omega

/-- The search fails where there is no magic word. -/
theorem findMagicLoop_of_none (h : ∀ p, start ≤ p → p < end_addr → m.word p ≠ ENV_MAGIC_WORD) :
    findMagicLoop m start_bak end_addr start = FAILED_ADDR := by
  fun_induction findMagicLoop m start_bak end_addr start with
  | case1 start hlt i hfind =>
      have hi := List.find?_some hfind
      rw [decide_eq_true_iff] at hi
      exact absurd hi.2.1 (h (start + i) (by omega) hi.1)
  | case2 start hlt hfind ih =>
      apply ih
      intro p hp
      exact h p (by omega)
  | case3 start hlt => rfl

end Search

/-! ## The iteration ends -/

section Ends

variable {α : Type} {sector : SectorMeta} {body : Store → EnvNodeObj → α → Store × α × Bool}

theorem forEachEnv_of_failed {n : Nat} {s : Store} {env : EnvNodeObj} {acc : α}
    (h : getNextEnvAddr s sector env = FAILED_ADDR) :
    forEachEnv sector body (n + 1) s env acc =
      (s, { env with start := FAILED_ADDR }, acc, Bool.false) := by
  rw [forEachEnv]
  dsimp only
  rw [if_pos h, h]

/-- How a loop over the variables of a sector is left: the device has halted, there is no next
variable, or the body has ended the loop at the last one. -/
inductive Left (body : Store → EnvNodeObj → α → Store × α × Bool) :
    Store × EnvNodeObj × α × Bool → Prop where
  | halted {s : Store} {env : EnvNodeObj} {acc : α} {stop : Bool} (h : s.halted = Bool.true) :
      Left body (s, env, acc, stop)
  | finished {s : Store} {env : EnvNodeObj} {acc : α} (h : env.start = FAILED_ADDR) :
      Left body (s, env, acc, Bool.false)
  | stopped {s : Store} {env : EnvNodeObj} {acc : α} (h : (body s env acc).2.2 = Bool.true) :
      Left body ((body s env acc).1, env, (body s env acc).2.1, Bool.true)

end Ends

end EasyFlash

end WeatherStation
