import WeatherStation.Storage.EnvRead

/-!
# Writing the store

A variable is replaced by writing the new one behind the others: the old one is marked, the
new one is written, and the old one is deleted.  Where no sector has room, the variables of a
sector that holds deleted ones are moved to the sector that was kept empty, and the sector
is erased.
-/

open Foundation

namespace WeatherStation

namespace EasyFlash

/-- {lit}`EF_SEC_REMAIN_THRESHOLD` -/
def EF_SEC_REMAIN_THRESHOLD : Nat := ENV_HDR_DATA_SIZE + EF_ENV_NAME_MAX

/-- {lit}`EF_GC_EMPTY_SEC_THRESHOLD` -/
def EF_GC_EMPTY_SEC_THRESHOLD : Nat := 1

/-! ## Headers -/

/-- {lit}`struct env_hdr_data` without the status table. -/
structure EnvHdrData where
  magic : Nat
  len : Nat
  crc32 : UInt32
  name_len : Nat
  value_len : Nat

/-- The fields of a header from {lit}`name_len` on, between which the bytes are set. -/
def EnvHdrData.lens (env_hdr : EnvHdrData) : List UInt8 :=
  [UInt8.ofNat env_hdr.name_len, 0xFF, 0xFF, 0xFF] ++ Memory.wordBytes env_hdr.value_len

/-- The bytes of a header from {lit}`magic` on. -/
def EnvHdrData.bytes (env_hdr : EnvHdrData) : List UInt8 :=
  Memory.wordBytes env_hdr.magic ++ Memory.wordBytes env_hdr.len ++
    Memory.wordBytes env_hdr.crc32.toNat ++ env_hdr.lens

/-- {lit}`write_env_hdr` -/
def writeEnvHdr (m : Memory) (addr : Nat) (env_hdr : EnvHdrData) : Memory :=
  (writeStatus m addr ENV_STATUS_NUM EnvStatus.preWrite.index).program (addr + ENV_MAGIC_OFFSET)
    env_hdr.bytes

/-- The header that {lit}`format_sector` writes. -/
def sectorHdrBytes (combined_value : Nat) : List UInt8 :=
  (setStatus SECTOR_STORE_STATUS_NUM SectorStoreStatus.empty.index).1 ++
    (setStatus SECTOR_DIRTY_STATUS_NUM SectorDirtyStatus.false.index).1 ++ [0xFF, 0xFF] ++
    Memory.wordBytes SECTOR_MAGIC_WORD ++ Memory.wordBytes combined_value ++
    Memory.wordBytes 0xFFFFFFFF

/-- {lit}`format_sector` -/
def formatSector (s : Store) (addr combined_value : Nat) : Store :=
  { s with
    flash := (s.flash.erase addr SECTOR_SIZE).program addr (sectorHdrBytes combined_value)
    sector_cache_table := updateSectorCache s.sector_cache_table addr (addr + SECTOR_SIZE) }

/-- {lit}`update_sec_status`: the state, and whether the sector is full as far as the function
says. -/
def updateSecStatus (s : Store) (sector : SectorMeta) (new_env_len : Nat) : Store × Option Bool :=
  match sector.store with
  | .empty =>
      ({ s with
        flash := writeStatus s.flash sector.addr SECTOR_STORE_STATUS_NUM
          SectorStoreStatus.inUse.index }, none)
  | .inUse =>
      if sector.remain < EF_SEC_REMAIN_THRESHOLD ∨
          sub32 sector.remain new_env_len < EF_SEC_REMAIN_THRESHOLD then
        ({ s with
          flash := writeStatus s.flash sector.addr SECTOR_STORE_STATUS_NUM
            SectorStoreStatus.full.index
          sector_cache_table := updateSectorCache s.sector_cache_table sector.addr
            (sector.addr + SECTOR_SIZE) }, some Bool.true)
      else (s, some Bool.false)
  | _ => (s, none)

/-! ## Looking for room -/

/-- The body of the loop of {lit}`sector_iterator`. -/
def sectorIteratorBody {α : Type} (status : SectorStoreStatus)
    (callback : Store → SectorMeta → α → Store × α × Bool) (traversal_env : Bool)
    (s : Store) (sec_addr : Nat) (sector : SectorMeta) (acc : α) : Store × SectorMeta × α × Bool :=
  let r := readSectorMetaData s sec_addr sector Bool.false
  if status = .unused ∨ status = r.2.1.store then
    let r := if traversal_env then readSectorMetaData r.1 sec_addr r.2.1 traversal_env else r
    let b := callback r.1 r.2.1 acc
    (b.1, r.2.1, b.2.1, b.2.2)
  else (r.1, r.2.1, acc, Bool.false)

/-- {lit}`sector_iterator` -/
def sectorIterator {α : Type} (s : Store) (sector : SectorMeta) (status : SectorStoreStatus)
    (acc : α) (callback : Store → SectorMeta → α → Store × α × Bool) (traversal_env : Bool) :
    Store × SectorMeta × α :=
  forEachSector (sectorIteratorBody status callback traversal_env) SECTOR_NUM s
    { sector with addr := FAILED_ADDR } acc

/-- The numbers of empty sectors and of sectors in use. -/
structure Statistics where
  empty_sector : Nat
  using_sector : Nat

/-- {lit}`sector_statistics_cb` -/
def sectorStatisticsCb (s : Store) (sector : SectorMeta) (n : Statistics) :
    Store × Statistics × Bool :=
  if sector.check_ok ∧ sector.store = .empty then
    (s, { n with empty_sector := n.empty_sector + 1 }, Bool.false)
  else if sector.check_ok ∧ sector.store = .inUse then
    (s, { n with using_sector := n.using_sector + 1 }, Bool.false)
  else (s, n, Bool.false)

/-- {lit}`alloc_env_cb` -/
def allocEnvCb (env_size : Nat) (s : Store) (sector : SectorMeta) (empty_env : Nat) :
    Store × Nat × Bool :=
  if sector.check_ok ∧ sector.remain > env_size ∧
      (sector.dirty = .false ∨ sector.dirty = .true ∧ ¬s.gc_request) then
    (s, sector.empty_env, Bool.true)
  else (s, empty_env, Bool.false)

/-- {lit}`alloc_env` -/
def allocEnv (s : Store) (sector : SectorMeta) (env_size : Nat) : Store × SectorMeta × Nat :=
  let r := sectorIterator s sector .unused (⟨0, 0⟩ : Statistics) sectorStatisticsCb Bool.false
  let n := r.2.2
  let r : Store × SectorMeta × Nat := if n.using_sector > 0 then
    sectorIterator r.1 r.2.1 .inUse FAILED_ADDR (allocEnvCb env_size) Bool.true
  else (r.1, r.2.1, FAILED_ADDR)
  if n.empty_sector > 0 ∧ r.2.2 = FAILED_ADDR then
    if n.empty_sector > EF_GC_EMPTY_SEC_THRESHOLD ∨ r.1.gc_request then
      sectorIterator r.1 r.2.1 .empty FAILED_ADDR (allocEnvCb env_size) Bool.true
    else ({ r.1 with gc_request := Bool.true }, r.2)
  else r

/-! ## Deleting and moving -/

/-- The status that {lit}`del_env` writes. -/
def delStatus (complete_del : Bool) : EnvStatus :=
  if complete_del then .deleted else .preDelete

/-- The name that {lit}`del_env` takes out of the cache. -/
def delName (key : Option CStr) (old_env : EnvNodeObj) : List UInt8 :=
  match key with
  | some key => key.bytes
  | none => old_env.name.take old_env.name_len

/-- The part of {lit}`del_env` behind the search.  The cache is left alone where the deletion
before was not complete. -/
def delEnvObj (s : Store) (key : Option CStr) (old_env : EnvNodeObj) (complete_del : Bool) :
    Store :=
  let m := writeStatus s.flash old_env.start ENV_STATUS_NUM (delStatus complete_del).index
  let dirty_status_addr := alignDown old_env.start + SECTOR_DIRTY_OFFSET
  { s with
    flash := if readStatus m dirty_status_addr SECTOR_DIRTY_STATUS_NUM =
        SectorDirtyStatus.false.index then
      writeStatus m dirty_status_addr SECTOR_DIRTY_STATUS_NUM SectorDirtyStatus.true.index else m
    env_cache_table := if complete_del ∧ ¬s.last_is_complete_del then
      updateEnvCache s.env_cache_table (delName key old_env) FAILED_ADDR else s.env_cache_table
    last_is_complete_del := !complete_del }

/-- {lit}`del_env` with a key and without a variable. -/
def delEnv (s : Store) (key : CStr) (complete_del : Bool) : Store × EfErrCode :=
  let r := findEnv s key {}
  if r.2.2 then (delEnvObj r.1 (some key) r.2.1 complete_del, .noErr)
  else (r.1, .envNameErr)

/-- The loop of {lit}`move_env` that copies a variable without its status. -/
def copyLoop (m : Memory) (source target env_len len : Nat) : Memory :=
  if _h : len < env_len then
    let size := if len + 32 < env_len then 32 else env_len - len
    copyLoop (m.program (target + ENV_MAGIC_OFFSET + len)
      (m.read (source + ENV_MAGIC_OFFSET + len) size)) source target env_len (len + size)
  else m
termination_by env_len - len
decreasing_by split_ifs <;> omega

/-- The part of {lit}`move_env` that writes the variable to its new place. -/
def moveTo (s : Store) (sector : SectorMeta) (env : EnvNodeObj) (env_addr : Nat) : Store :=
  let s := (updateSecStatus s sector env.len).1
  let m := writeStatus s.flash env_addr ENV_STATUS_NUM EnvStatus.preWrite.index
  let m := copyLoop m env.start env_addr (env.len - ENV_MAGIC_OFFSET) 0
  { s with
    flash := writeStatus m env_addr ENV_STATUS_NUM EnvStatus.write.index
    sector_cache_table := updateSectorCache s.sector_cache_table (alignDown env_addr)
      (env_addr + ENV_HDR_DATA_SIZE + env.name_len + env.value_len)
    env_cache_table := updateEnvCache s.env_cache_table (env.name.take env.name_len) env_addr }

/-- {lit}`move_env` -/
def moveEnv (s : Store) (env : EnvNodeObj) : Store × EfErrCode :=
  let s := if env.status = .write then delEnvObj s none env Bool.false else s
  let r := allocEnv s {} env.len
  let s := r.1
  let env_addr := r.2.2
  if env_addr ≠ FAILED_ADDR then
    let found := if s.in_recovery_check then
      findEnvNoCache s (CStr.ofBytes (env.name.take env.name_len)) {} else (s, {}, Bool.false)
    let s := if found.2.2 then found.1 else moveTo found.1 r.2.1 env env_addr
    (delEnvObj s none env Bool.true, .noErr)
  else (s, .envFull)

/-! ## Collecting a sector -/

/-- The body of the loop of {lit}`do_gc`. -/
def doGcBody (s : Store) (env : EnvNodeObj) (_ : Unit) : Store × Unit × Bool :=
  if env.crc_is_ok ∧ (env.status = .write ∨ env.status = .preDelete) then
    ((moveEnv s env).1, (), Bool.false)
  else (s, (), Bool.false)

/-- {lit}`do_gc` -/
def doGc (s : Store) (sector : SectorMeta) (_ : Unit) : Store × Unit × Bool :=
  if sector.check_ok ∧ (sector.dirty = .true ∨ sector.dirty = .gc) then
    let s := { s with
      flash := writeStatus s.flash (sector.addr + SECTOR_DIRTY_OFFSET) SECTOR_DIRTY_STATUS_NUM
        SectorDirtyStatus.gc.index }
    let r := forEachEnv sector doGcBody SECTOR_SIZE s { start := FAILED_ADDR } ()
    (formatSector r.1 sector.addr SECTOR_NOT_COMBINED, (), Bool.false)
  else (s, (), Bool.false)

/-- {lit}`gc_check_cb` -/
def gcCheckCb (s : Store) (sector : SectorMeta) (empty_sec : Nat) : Store × Nat × Bool :=
  if sector.check_ok then (s, empty_sec + 1, Bool.false) else (s, empty_sec, Bool.false)

/-- {lit}`gc_collect` -/
def gcCollect (s : Store) : Store :=
  let r := sectorIterator s {} .empty 0 gcCheckCb Bool.false
  let s := if r.2.2 ≤ EF_GC_EMPTY_SEC_THRESHOLD then
    (sectorIterator r.1 r.2.1 .unused () doGc Bool.false).1 else r.1
  { s with gc_request := Bool.false }

/-- {lit}`new_env` -/
def newEnv (s : Store) (sector : SectorMeta) (env_size : Nat) : Store × SectorMeta × Nat :=
  let r := allocEnv s sector env_size
  if r.2.2 = FAILED_ADDR ∧ r.1.gc_request then allocEnv (gcCollect r.1) r.2.1 env_size else r

/-- {lit}`new_env_by_kv` -/
def newEnvByKv (s : Store) (sector : SectorMeta) (key_len buf_len : Nat) :
    Store × SectorMeta × Nat :=
  newEnv s sector (ENV_HDR_DATA_SIZE + key_len + buf_len)

/-! ## Setting a variable -/

/-- The header that {lit}`create_env_blob` fills in. -/
def envHdrOf (key : CStr) (value : List UInt8) : EnvHdrData :=
  let env_hdr : EnvHdrData := {
    magic := ENV_MAGIC_WORD
    len := ENV_HDR_DATA_SIZE + key.strlen + value.length
    crc32 := 0
    name_len := key.strlen
    value_len := value.length }
  { env_hdr with
    crc32 := efCalcCrc32 (efCalcCrc32 (efCalcCrc32 0 env_hdr.lens) key.bytes) value }

/-- The part of {lit}`create_env_blob` that writes the variable. -/
def writeEnvAt (s : Store) (sector : SectorMeta) (key : CStr) (value : List UInt8)
    (env_addr : Nat) : Store :=
  let env_hdr := envHdrOf key value
  let r := updateSecStatus s sector env_hdr.len
  let s := r.1
  let is_full := r.2.getD Bool.false
  let m := writeEnvHdr s.flash env_addr env_hdr
  let m := m.program (env_addr + ENV_HDR_DATA_SIZE) key.bytes
  let m := m.program (env_addr + ENV_HDR_DATA_SIZE + env_hdr.name_len) value
  { s with
    flash := writeStatus m env_addr ENV_STATUS_NUM EnvStatus.write.index
    sector_cache_table := if is_full then s.sector_cache_table
      else updateSectorCache s.sector_cache_table sector.addr
        (env_addr + ENV_HDR_DATA_SIZE + env_hdr.name_len + env_hdr.value_len)
    env_cache_table := updateEnvCache s.env_cache_table key.bytes env_addr
    gc_request := if is_full then Bool.true else s.gc_request }

/-- {lit}`create_env_blob` -/
def createEnvBlob (s : Store) (sector : SectorMeta) (key : CStr) (value : List UInt8) :
    Store × EfErrCode :=
  if key.strlen > EF_ENV_NAME_MAX then (s, .envNameErr)
  else if (envHdrOf key value).len > SECTOR_SIZE - SECTOR_HDR_DATA_SIZE then (s, .envFull)
  else if sector.empty_env ≠ FAILED_ADDR then
    (writeEnvAt s sector key value sector.empty_env, .noErr)
  else
    let r := newEnv s sector (envHdrOf key value).len
    if r.2.2 ≠ FAILED_ADDR then (writeEnvAt r.1 r.2.1 key value r.2.2, .noErr)
    else (r.1, .envFull)

/-- {lit}`ef_del_env` -/
def efDelEnv (s : Store) (key : CStr) : Store × EfErrCode :=
  if ¬s.init_ok then (s, .envInitFailed) else delEnv s key Bool.true

/-- {lit}`set_env` with a value. -/
def setEnv (s : Store) (key : CStr) (value : List UInt8) : Store × EfErrCode :=
  let r := newEnvByKv s {} key.strlen value.length
  let sector := r.2.1
  if r.2.2 = FAILED_ADDR then (r.1, .envFull)
  else
    let f := findEnv r.1 key {}
    let s := if f.2.2 then delEnvObj f.1 (some key) f.2.1 Bool.false else f.1
    let c := createEnvBlob s sector key value
    let s := if f.2.2 ∧ c.2 = .noErr then delEnvObj c.1 (some key) f.2.1 Bool.true else c.1
    (if s.gc_request then gcCollect s else s, c.2)

/-- {lit}`ef_set_env_blob` with a value. -/
def efSetEnvBlob (s : Store) (key : CStr) (value : List UInt8) : Store × EfErrCode :=
  if ¬s.init_ok then (s, .envInitFailed) else setEnv s key value

/-! ## Starting the store -/

/-- A variable of the default set; a length of zero stands for a string. -/
structure EfEnv where
  key : CStr
  value : List UInt8
  value_len : Nat

/-- The default set of {lit}`ef_port_init`. -/
def defaultEnvSet : List EfEnv :=
  [⟨.ofChars "boot_times".toList, [0x30], 0⟩]

/-- The bytes of the value of a variable of the default set. -/
def EfEnv.bytes (env : EfEnv) : List UInt8 :=
  if env.value_len = 0 then (CStr.ofBytes env.value).bytes else env.value.take env.value_len

/-- {lit}`ef_env_set_default` -/
def efEnvSetDefault (s : Store) (default_env_set : List EfEnv) : Store :=
  let s := (List.range SECTOR_NUM).foldl
    (fun s i => formatSector s (env_start_addr + i * SECTOR_SIZE) SECTOR_NOT_COMBINED) s
  default_env_set.foldl
    (fun s env => (createEnvBlob s { empty_env := FAILED_ADDR } env.key env.bytes).1) s

/-- {lit}`check_sec_hdr_cb` -/
def checkSecHdrCb (s : Store) (sector : SectorMeta) (failed_count : Nat) : Store × Nat × Bool :=
  if ¬sector.check_ok then
    (formatSector s sector.addr SECTOR_NOT_COMBINED, failed_count + 1, Bool.false)
  else (s, failed_count, Bool.false)

/-- {lit}`check_and_recovery_gc_cb` -/
def checkAndRecoveryGcCb (s : Store) (sector : SectorMeta) (_ : Unit) : Store × Unit × Bool :=
  if sector.check_ok ∧ sector.dirty = .gc then
    (gcCollect { s with gc_request := Bool.true }, (), Bool.false)
  else (s, (), Bool.false)

/-- {lit}`check_and_recovery_env_cb` -/
def checkAndRecoveryEnvCb (s : Store) (env : EnvNodeObj) (_ : Unit) : Store × Unit × Bool :=
  if env.crc_is_ok ∧ env.status = .preDelete then
    let r := moveEnv s env
    (r.1, (), decide (r.2 ≠ .noErr))
  else if env.status = .preWrite then
    ({ s with flash := writeStatus s.flash env.start ENV_STATUS_NUM EnvStatus.errHdr.index }, (),
      Bool.true)
  else (s, (), Bool.false)

/-- The rounds of {lit}`ef_load_env` from the label on; none when they have not ended. -/
def loadRetry : Nat → Store → EnvNodeObj → Option Store
  | 0, _, _ => none
  | n + 1, s, env =>
      let r := envIterator checkAndRecoveryEnvCb s env ()
      if r.1.gc_request then loadRetry n (gcCollect r.1) r.2.1 else some r.1

/-- {lit}`ef_load_env` -/
def efLoadEnv (rounds : Nat) (default_env_set : List EfEnv) (s : Store) : Option Store :=
  let s := { s with in_recovery_check := Bool.true }
  let r := sectorIterator s {} .unused 0 checkSecHdrCb Bool.false
  let s := if r.2.2 = SECTOR_NUM then efEnvSetDefault r.1 default_env_set else r.1
  let s := (sectorIterator s r.2.1 .unused () checkAndRecoveryGcCb Bool.false).1
  (loadRetry rounds s {}).map fun s => { s with in_recovery_check := Bool.false }

/-- The static variables when the device starts. -/
def Store.boot (flash : Memory) : Store where
  flash := flash
  env_cache_table := List.replicate EF_ENV_CACHE_TABLE_SIZE ⟨0, 0, 0⟩
  sector_cache_table := List.replicate EF_SECTOR_CACHE_TABLE_SIZE ⟨0, 0⟩
  gc_request := Bool.false
  in_recovery_check := Bool.false
  last_is_complete_del := Bool.false
  init_ok := Bool.false
  halted := Bool.false

/-- {lit}`ef_env_init` -/
def efEnvInit (rounds : Nat) (default_env_set : List EfEnv) (s : Store) : Option Store :=
  if s.init_ok then some s
  else
    let s := { s with
      sector_cache_table := s.sector_cache_table.map fun e => { e with addr := FAILED_ADDR }
      env_cache_table := s.env_cache_table.map fun e => { e with addr := FAILED_ADDR } }
    (efLoadEnv rounds default_env_set s).map fun s => { s with init_ok := Bool.true }

end EasyFlash

end WeatherStation
