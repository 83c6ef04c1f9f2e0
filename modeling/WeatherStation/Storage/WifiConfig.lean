import Mathlib.Logic.Function.Basic
import WeatherStation.Foundation.Memory

/-!
# The stored Wi-Fi configuration

{lit}`write_cfg` stores the length and the content of the configuration under two keys of
the environment, one after the other.  {lit}`get_len` and {lit}`read_cfg` take a key for
absent when {lit}`saved_len` is 0, which the environment does not set for an absent key.

Main results:

- Theorem {lit}`reload_of_info`: what is read back when both keys are there.
- Theorem {lit}`reload_writeCfg`: a completed configuration is read back.
- Theorem {lit}`restores_iff`: the histories of writes, with a power failure in the last one,
  after which the configuration is restored.
-/

open Foundation

namespace WeatherStation

/-! ## The environment -/

/-- The keys of the configuration. -/
inductive EnvKey where
  | wlan_cfg_len
  | wlan_cfg_info
deriving DecidableEq

/-- The blobs in flash. -/
abbrev Env := EnvKey → Option (List UInt8)

namespace Env

/-- The environment of a new device. -/
def empty : Env := fun _ => none

/-- {lit}`ef_set_env_blob`, which replaces a blob as a whole. -/
def efSetEnvBlob (env : Env) (key : EnvKey) (value : List UInt8) : Env :=
  Function.update env key (some value)

/-- {lit}`ef_get_env_blob`: the buffer and the out-parameter after the call, which are left
alone when the key is absent. -/
def efGetEnvBlob (env : Env) (key : EnvKey) (value_buf : Memory) (buf_len saved_value_len : Nat) :
    Memory × Nat :=
  match env key with
  | none => (value_buf, saved_value_len)
  | some value => (value_buf.write 0 (value.take buf_len), value.length)

/-! ## The configuration -/

/-- {lit}`read_cfg`, from what its local {lit}`saved_len` holds: the buffer and the result. -/
def readCfg (env : Env) (buff : Memory) (len : Int) (saved_len : Nat) : Memory × Int :=
  let (buff, saved_len) :=
    env.efGetEnvBlob .wlan_cfg_info buff (len % 4294967296).toNat saved_len
  (buff, if saved_len = 0 then 0 else len)

/-- {lit}`get_len`, from what its locals hold. -/
def getLen (env : Env) (len : Memory) (saved_len : Nat) : Int :=
  let (len, saved_len) := env.efGetEnvBlob .wlan_cfg_len len 4 saved_len
  if saved_len = 0 then 0 else len.readInt32 0

end Env

/-- A configuration whose length is an {lit}`int`. -/
structure CfgBlob where
  bytes : List UInt8
  length_lt : bytes.length < 2147483648

namespace Env

/-- The first half of {lit}`write_cfg`. -/
def writeLen (env : Env) (c : CfgBlob) : Env :=
  env.efSetEnvBlob .wlan_cfg_len (Memory.int32Bytes c.bytes.length)

/-- {lit}`write_cfg` -/
def writeCfg (env : Env) (c : CfgBlob) : Env :=
  (env.writeLen c).efSetEnvBlob .wlan_cfg_info c.bytes

/-- What the uninitialised locals of {lit}`get_len` and {lit}`read_cfg` and the buffer of the
caller hold. -/
structure Garbage where
  len : Memory
  len_saved : Nat
  info_saved : Nat
  buff : Memory

/-- {lit}`n = get_len(); read_cfg(b, n)`: the bytes in the buffer, as many as
{lit}`read_cfg` says. -/
def reload (env : Env) (g : Garbage) : List UInt8 :=
  let n := env.getLen g.len g.len_saved
  let (buff, ret) := env.readCfg g.buff n g.info_saved
  buff.read 0 ret.toNat

end Env

/-- Calls of {lit}`write_cfg` on a new device: those that were completed and possibly a last
one that lost power between its two blobs. -/
structure CfgHistory where
  completed : List CfgBlob
  interrupted : Option CfgBlob

namespace CfgHistory

/-- The environment after the calls. -/
def env (h : CfgHistory) : Env :=
  let env := h.completed.foldl Env.writeCfg Env.empty
  match h.interrupted with
  | none => env
  | some c => env.writeLen c

/-- The configuration is restored: it is the one of the last completed call or of the
interrupted one; and the length is 0 when there was no call. -/
def Restores (h : CfgHistory) (g : Env.Garbage) : Prop :=
  match h.completed.getLast?, h.interrupted with
  | none, none => h.env.getLen g.len g.len_saved = 0
  | some c, none => h.env.reload g = c.bytes
  | none, some c' => h.env.reload g = c'.bytes
  | some c, some c' => h.env.reload g = c.bytes ∨ h.env.reload g = c'.bytes

/-- After completed calls nothing is asked.  Without any call a local of {lit}`get_len` has
to be 0.  After an interrupted first call the configuration has to be empty, or the buffer
to hold it already with {lit}`saved_len` not 0.  After a later interrupted call the last
completed configuration has to be empty or as long as the new one, or the new one consists
of its beginning and of what the buffer holds behind it. -/
def Restorable (h : CfgHistory) (g : Env.Garbage) : Prop :=
  match h.completed.getLast?, h.interrupted with
  | none, none => g.len_saved = 0 ∨ g.len.readInt32 0 = 0
  | some _, none => True
  | none, some c' => c'.bytes = [] ∨
      g.info_saved ≠ 0 ∧ g.buff.read 0 c'.bytes.length = c'.bytes
  | some c, some c' => c.bytes = [] ∨ c.bytes.length = c'.bytes.length ∨
      c.bytes.take c'.bytes.length ++ (g.buff.read 0 c'.bytes.length).drop c.bytes.length =
        c'.bytes

end CfgHistory

/-! ## Reading back -/

namespace Env

variable {env : Env} {g : Garbage}

@[simp] theorem writeLen_len (env : Env) (c : CfgBlob) :
    env.writeLen c .wlan_cfg_len = some (Memory.int32Bytes c.bytes.length) := by
  simp [writeLen, efSetEnvBlob]

@[simp] theorem writeLen_info (env : Env) (c : CfgBlob) :
    env.writeLen c .wlan_cfg_info = env .wlan_cfg_info := by
  simp [writeLen, efSetEnvBlob]

@[simp] theorem writeCfg_len (env : Env) (c : CfgBlob) :
    env.writeCfg c .wlan_cfg_len = some (Memory.int32Bytes c.bytes.length) := by
  simp [writeCfg, writeLen, efSetEnvBlob]

@[simp] theorem writeCfg_info (env : Env) (c : CfgBlob) :
    env.writeCfg c .wlan_cfg_info = some c.bytes := by
  simp [writeCfg, efSetEnvBlob]

/-- A stored length is read back. -/
theorem getLen_of_len {c : CfgBlob}
    (h : env .wlan_cfg_len = some (Memory.int32Bytes c.bytes.length)) (len : Memory)
    (saved_len : Nat) : env.getLen len saved_len = c.bytes.length := by
  have hlt := c.length_lt
  simp only [getLen, efGetEnvBlob, h, Memory.length_int32Bytes]
  rw [if_neg (by decide), List.take_of_length_le (by rw [Memory.length_int32Bytes])]
  exact Memory.readInt32_write_int32Bytes _ _ (by omega) (by omega)

/-- Without a stored length the locals decide. -/
theorem getLen_of_none (h : env .wlan_cfg_len = none) (len : Memory) (saved_len : Nat) :
    env.getLen len saved_len = if saved_len = 0 then 0 else len.readInt32 0 := by
  simp only [getLen, efGetEnvBlob, h]

/-- What is read back when both keys are there: as many bytes as the stored length, first
those of the stored content, then those of the buffer. -/
theorem reload_of_info {c : CfgBlob} {value : List UInt8}
    (hlen : env .wlan_cfg_len = some (Memory.int32Bytes c.bytes.length))
    (hinfo : env .wlan_cfg_info = some value) :
    env.reload g = if value = [] then [] else
      value.take c.bytes.length ++ (g.buff.read 0 c.bytes.length).drop value.length := by
  have hlt := c.length_lt
  have hsize : ((c.bytes.length : Int) % 4294967296).toNat = c.bytes.length := by omega
  simp only [reload, getLen_of_len hlen, readCfg, efGetEnvBlob, hinfo, hsize,
    List.length_eq_zero_iff]
  by_cases hvalue : value = []
  · rw [if_pos hvalue, if_pos hvalue]
    rfl
  · rw [if_neg hvalue, if_neg hvalue, Int.toNat_natCast,
      Memory.read_write_front _ _ (by rw [List.length_take]; exact Nat.min_le_left _ _)]
    congr 1
    rw [List.length_take]
    by_cases hshort : value.length ≤ c.bytes.length
    · rw [Nat.min_eq_right hshort]
    · -- The buffer has no byte behind a longer content.
      rw [List.drop_eq_nil_of_le (by rw [Memory.length_read]; omega),
        List.drop_eq_nil_of_le (by rw [Memory.length_read]; omega)]

/-- A content of the stored length is read back as it is. -/
theorem take_append_drop_read (value : List UInt8) (buff : Memory) :
    value.take value.length ++ (buff.read 0 value.length).drop value.length = value := by
  rw [List.take_length, List.drop_eq_nil_of_le (by rw [Memory.length_read]), List.append_nil]

/-- What is read back when only the length is there. -/
theorem reload_of_len {c : CfgBlob}
    (hlen : env .wlan_cfg_len = some (Memory.int32Bytes c.bytes.length))
    (hinfo : env .wlan_cfg_info = none) :
    env.reload g = if g.info_saved = 0 then [] else g.buff.read 0 c.bytes.length := by
  simp only [reload, getLen_of_len hlen, readCfg, efGetEnvBlob, hinfo]
  by_cases hsaved : g.info_saved = 0
  · rw [if_pos hsaved, if_pos hsaved]
    rfl
  · rw [if_neg hsaved, if_neg hsaved, Int.toNat_natCast]

/-- A completed configuration is read back. -/
theorem reload_writeCfg (env : Env) (c : CfgBlob) : (env.writeCfg c).reload g = c.bytes := by
  rw [reload_of_info (env.writeCfg_len c) (env.writeCfg_info c), take_append_drop_read]
  by_cases hempty : c.bytes = [] <;> simp [hempty]

/-- When the first call of all is interrupted, only the length is there. -/
theorem reload_first_interrupted_iff (c : CfgBlob) :
    (empty.writeLen c).reload g = c.bytes ↔
      c.bytes = [] ∨ g.info_saved ≠ 0 ∧ g.buff.read 0 c.bytes.length = c.bytes := by
  rw [reload_of_len (empty.writeLen_len c) (empty.writeLen_info c)]
  by_cases hsaved : g.info_saved = 0
  · rw [if_pos hsaved]
    simp [hsaved, eq_comm]
  · rw [if_neg hsaved]
    have hempty (hc : c.bytes = []) : g.buff.read 0 c.bytes.length = c.bytes := by
      rw [hc]
      rfl
    simp only [ne_eq, hsaved, not_false_eq_true, true_and]
    exact ⟨.inr, fun hc => hc.elim hempty id⟩

/-- When a later call is interrupted, the new length meets the old content. -/
theorem reload_later_interrupted_iff (env : Env) (c c' : CfgBlob) :
    (((env.writeCfg c).writeLen c').reload g = c.bytes ∨
      ((env.writeCfg c).writeLen c').reload g = c'.bytes) ↔
    c.bytes = [] ∨ c.bytes.length = c'.bytes.length ∨
      c.bytes.take c'.bytes.length ++ (g.buff.read 0 c'.bytes.length).drop c.bytes.length =
        c'.bytes := by
  have hinfo : (env.writeCfg c).writeLen c' .wlan_cfg_info = some c.bytes := by
    rw [writeLen_info, writeCfg_info]
  rw [reload_of_info (writeLen_len _ c') hinfo]
  by_cases hempty : c.bytes = []
  · rw [if_pos hempty]
    exact iff_of_true (.inl hempty.symm) (.inl hempty)
  · rw [if_neg hempty]
    simp only [hempty, false_or]
    refine or_congr_left' fun _ => ⟨fun hold => ?_, fun hlength => ?_⟩
    · -- As many bytes are read as the new configuration has.
      have hlen := congrArg List.length hold
      rw [List.length_append, List.length_take, List.length_drop, Memory.length_read] at hlen
      omega
    · rw [← hlength]
      exact take_append_drop_read _ _

end Env

/-! ## Histories -/

namespace CfgHistory

variable {h : CfgHistory}

/-- The environment after the completed calls, by the last of them. -/
theorem foldl_writeCfg {completed : List CfgBlob} {c : CfgBlob}
    (hlast : completed.getLast? = some c) :
    ∃ env : Env, completed.foldl Env.writeCfg Env.empty = env.writeCfg c := by
  rcases List.getLast?_eq_some_iff.mp hlast with ⟨earlier, hsplit⟩
  refine ⟨earlier.foldl Env.writeCfg Env.empty, ?_⟩
  rw [hsplit, List.foldl_append]
  rfl

/-- After every history of calls, with a power failure in the last one, whatever the locals
and the buffer hold: the configuration is restored exactly in the described cases. -/
theorem restores_iff (h : CfgHistory) (g : Env.Garbage) : h.Restores g ↔ h.Restorable g := by
  rcases h with ⟨completed, interrupted⟩
  unfold Restores Restorable
  cases hlast : completed.getLast? with
  | none =>
      have hnone : completed = [] := List.getLast?_eq_none_iff.mp hlast
      subst hnone
      cases interrupted with
      | none =>
          show Env.getLen Env.empty g.len g.len_saved = 0 ↔ _
          rw [Env.getLen_of_none rfl]
          by_cases hsaved : g.len_saved = 0 <;> simp [hsaved]
      | some c' => exact Env.reload_first_interrupted_iff c'
  | some c =>
      rcases foldl_writeCfg hlast with ⟨env, henv⟩
      cases interrupted with
      | none =>
          show (completed.foldl Env.writeCfg Env.empty).reload g = c.bytes ↔ True
          rw [henv]
          exact iff_of_true (env.reload_writeCfg c) trivial
      | some c' =>
          show (((completed.foldl Env.writeCfg Env.empty).writeLen c').reload g = c.bytes ∨
            ((completed.foldl Env.writeCfg Env.empty).writeLen c').reload g = c'.bytes) ↔ _
          rw [henv]
          exact env.reload_later_interrupted_iff c c'

/-- On a new device {lit}`get_len` returns 5 when its locals happen to hold 1 and 5. -/
theorem not_restores_new_device : ¬∀ (h : CfgHistory) (g : Env.Garbage), h.Restores g := by
  intro h
  have hnew : Env.getLen Env.empty (fun a => if a = 0 then 5 else 0) 1 = 0 :=
    h ⟨[], none⟩ ⟨fun a => if a = 0 then 5 else 0, 1, 0, fun _ => 0⟩
  exact absurd hnew (by decide)

end CfgHistory

end WeatherStation
