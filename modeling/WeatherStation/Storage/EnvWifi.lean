import WeatherStation.Storage.EnvCapacity
import WeatherStation.Storage.WifiConfig

/-!
# The Wi-Fi configuration in flash

The environment in which the Wi-Fi configuration is kept is the store in flash: whatever was
written before, and over any power cycles between the calls, the two blobs are read as the
environment has them.

Main results:

- Theorem {lit}`env_after`: the calls of {lit}`write_cfg` change the map as the environment.
- Theorem {lit}`wifiCfg_run`: what is read of the configuration after any steps.
-/

open Foundation

namespace WeatherStation

namespace EasyFlash

/-! ## Runs in two parts -/

section Parts

variable {K : KeySet}

/-- The map after some calls. -/
def Contents.after (c : Contents) : List (Call K) → Contents
  | [] => c
  | x :: calls => ((c.call x).1).after calls

theorem Contents.after_append (c : Contents) (calls calls' : List (Call K)) :
    c.after (calls ++ calls') = (c.after calls).after calls' := by
  induction calls generalizing c with
  | nil => rfl
  | cons x calls ih => exact ih (c.call x).1

/-- The answers of a run whose first part is not looked at. -/
theorem drop_answers (c : Contents) (calls calls' : List (Call K)) :
    (answers Contents.call c (calls ++ calls')).drop calls.length =
      answers Contents.call (c.after calls) calls' := by
  induction calls generalizing c with
  | nil => rfl
  | cons x calls ih => exact ih (c.call x).1

end Parts

/-! ## The names of the configuration -/

/-- The names under which the configuration is stored. -/
def name : EnvKey → CStr
  | .wlan_cfg_len => .ofChars "wlan_cfg_len".toList
  | .wlan_cfg_info => .ofChars "wlan_cfg_info".toList

/-- The names that the device uses. -/
def wifiKeys : KeySet where
  keys := [bootTimes, name .wlan_cfg_len, name .wlan_cfg_info]
  noClash := by
    have hall : ∀ key ∈ [bootTimes, name .wlan_cfg_len, name .wlan_cfg_info],
        ∀ key' ∈ [bootTimes, name .wlan_cfg_len, name .wlan_cfg_info],
          key.bytes <+: key'.bytes → key = key' := by decide
    intro key key' hkey hkey' _ hbegins
    exact hall key hkey key' hkey' hbegins
  le_max := by decide

theorem mem_wifiKeys (key : EnvKey) : wifiKeys.Mem (name key) := by
  cases key
  · exact List.mem_cons_of_mem _ List.mem_cons_self
  · exact List.mem_cons_of_mem _ (List.mem_cons_of_mem _ List.mem_cons_self)

theorem name_ne_bootTimes (key : EnvKey) : name key ≠ bootTimes := by
  cases key
  all_goals decide

theorem name_injective {key key' : EnvKey} (h : name key = name key') : key = key' := by
  have hne : name .wlan_cfg_len ≠ name .wlan_cfg_info := by decide
  cases key with
  | wlan_cfg_len =>
      cases key' with
      | wlan_cfg_len => rfl
      | wlan_cfg_info => exact absurd h hne
  | wlan_cfg_info =>
      cases key' with
      | wlan_cfg_len => exact absurd h.symm hne
      | wlan_cfg_info => rfl

/-- The longest configuration for which there is always room. -/
def cfgMax : Nat := 1900

/-- The lengths of the values. -/
def wifiQuota : Quota wifiKeys where
  bound key := if key = bootTimes then 1 else if key = name .wlan_cfg_len then 4 else cfgMax
  fits := by decide

/-! ## Steps of the device -/

/-- A step of the device: a configuration is written, or the power is switched off and on. -/
inductive WifiStep where
  | write (c : CfgBlob) (h : c.bytes.length ≤ cfgMax)
  | restart

/-- The calls of a step. -/
def WifiStep.calls : WifiStep → List (Call wifiKeys)
  | .write c _ =>
      [.set ⟨name .wlan_cfg_len, mem_wifiKeys _⟩ (Memory.int32Bytes c.bytes.length),
        .set ⟨name .wlan_cfg_info, mem_wifiKeys _⟩ c.bytes]
  | .restart => [.restart]

/-- What a step does to the environment. -/
def WifiStep.env (env : Env) : WifiStep → Env
  | .write c _ => env.writeCfg c
  | .restart => env

/-- The environment of a map. -/
def Contents.env (c : Contents) : Env := fun key => c (name key)

theorem env_update (c : Contents) (key : EnvKey) (value : List UInt8) :
    Contents.env (Function.update c (name key) (some value)) = c.env.efSetEnvBlob key value := by
  funext key'
  unfold Contents.env Env.efSetEnvBlob
  by_cases heq : key' = key
  · rw [heq, Function.update_self, Function.update_self]
  · rw [Function.update_of_ne heq, Function.update_of_ne fun hname => heq (name_injective hname)]

/-- The calls of a step change the map as the step changes the environment. -/
theorem env_step (c : Contents) (step : WifiStep) :
    (c.after step.calls).env = step.env c.env := by
  cases step with
  | write cfg h =>
      change Contents.env (Function.update (Function.update c _ _) _ _) = _
      rw [env_update, env_update]
      rfl
  | restart => rfl

theorem env_after (c : Contents) (steps : List WifiStep) :
    (c.after (steps.flatMap WifiStep.calls)).env = steps.foldl WifiStep.env c.env := by
  induction steps generalizing c with
  | nil => rfl
  | cons step steps ih =>
      rw [List.flatMap_cons, Contents.after_append, ih, List.foldl_cons, env_step]

theorem WifiStep.within (step : WifiStep) : ∀ x ∈ step.calls, x.Within wifiQuota := by
  intro x hx
  cases step with
  | write c h =>
      have hlen : wifiQuota.bound (name .wlan_cfg_len) = 4 := by decide
      have hinfo : wifiQuota.bound (name .wlan_cfg_info) = cfgMax := by decide
      rcases List.mem_cons.mp hx with rfl | hx
      · change (Memory.int32Bytes c.bytes.length).length ≤ wifiQuota.bound (name .wlan_cfg_len)
        rw [hlen, Memory.length_int32Bytes]
      · rw [List.mem_singleton.mp hx]
        change c.bytes.length ≤ wifiQuota.bound (name .wlan_cfg_info)
        rw [hinfo]
        exact h
  | restart =>
      rw [List.mem_singleton.mp hx]
      trivial

/-! ## Reading the configuration -/

/-- The calls of {lit}`get_len` and {lit}`read_cfg`. -/
def readCalls (len : Nat) : List (Call wifiKeys) :=
  [.get ⟨name .wlan_cfg_len, mem_wifiKeys _⟩ 4, .get ⟨name .wlan_cfg_info, mem_wifiKeys _⟩ len]

/-- What an environment hands out of a blob. -/
def Env.answer (env : Env) (key : EnvKey) (buf_len : Nat) : Answer :=
  .blob ((env key).map fun value => (value.take buf_len, value.length))

/-- The first start, and any steps of the device after it: what is read of the configuration is
what the environment has after these steps, and the device has not halted. -/
theorem wifiCfg_run {flash : Memory} (hzero : NoHeader flash 0)
    (hsize : NoHeader flash SECTOR_SIZE) :
    ∃ s, efEnvInit 1 defaultEnvSet (Store.boot flash) = some s ∧
      ∀ (steps : List WifiStep) (len : Nat),
        (answers Store.call s (steps.flatMap WifiStep.calls ++ readCalls len)).drop
            (steps.flatMap WifiStep.calls).length =
          [Env.answer (steps.foldl WifiStep.env WeatherStation.Env.empty) .wlan_cfg_len 4,
            Env.answer (steps.foldl WifiStep.env WeatherStation.Env.empty) .wlan_cfg_info len] ∧
        (s.after (steps.flatMap WifiStep.calls ++ readCalls len)).halted = Bool.false := by
  have hmem : wifiKeys.Mem bootTimes := List.mem_cons_self
  have hone : 1 ≤ wifiQuota.bound bootTimes := by decide
  obtain ⟨s, A, hinit, hrest, hcontents, -⟩ := efEnvInit_fresh hmem hzero hsize 0
  have hwithin : (contents A.nodes).Within wifiQuota := by
    rw [hcontents]
    exact within_bootTimes hone
  have hcalls (steps : List WifiStep) (len : Nat) :
      ∀ x ∈ steps.flatMap WifiStep.calls ++ readCalls len, x.Within wifiQuota := by
    intro x hx
    rcases List.mem_append.mp hx with hx | hx
    · obtain ⟨step, -, hx⟩ := List.mem_flatMap.mp hx
      exact step.within x hx
    · rcases List.mem_cons.mp hx with rfl | hx
      · trivial
      · rw [List.mem_singleton.mp hx]
        trivial
  have hempty : (contents A.nodes).env = WeatherStation.Env.empty := by
    funext key
    rw [hcontents]
    exact Function.update_of_ne (name_ne_bootTimes key) _ _
  refine ⟨s, hinit, fun steps len => ?_⟩
  obtain ⟨hanswers, b, B, hafter⟩ := hrest.run_within hwithin _ (hcalls steps len)
  rw [hanswers, drop_answers, ← hempty, ← env_after]
  exact ⟨rfl, hafter.represents.running⟩

/-- Two configurations, and a power cycle behind each. -/
def sampleSteps : List WifiStep :=
  [.write ⟨[1, 2], by decide⟩ (by decide), .restart,
    .write ⟨[3, 4, 5], by decide⟩ (by decide), .restart]

/-- The second configuration is read on what was an erased flash. -/
theorem wifiCfg_run_erased :
    ∃ s, efEnvInit 1 defaultEnvSet (Store.boot fun _ => 0xFF) = some s ∧
      (answers Store.call s (sampleSteps.flatMap WifiStep.calls ++ readCalls 3)).drop 6 =
        [.blob (some ([3, 0, 0, 0], 4)), .blob (some ([3, 4, 5], 3))] ∧
      (s.after (sampleSteps.flatMap WifiStep.calls ++ readCalls 3)).halted = Bool.false := by
  have hzero : NoHeader (fun _ => 0xFF) 0 := by decide
  have hsize : NoHeader (fun _ => 0xFF) SECTOR_SIZE := by decide
  have hlength : (sampleSteps.flatMap WifiStep.calls).length = 6 := rfl
  have hlen : sampleSteps.foldl WifiStep.env WeatherStation.Env.empty .wlan_cfg_len =
      some [3, 0, 0, 0] := by decide
  have hinfo : sampleSteps.foldl WifiStep.env WeatherStation.Env.empty .wlan_cfg_info =
      some [3, 4, 5] := by decide
  obtain ⟨s, hinit, hread⟩ := wifiCfg_run hzero hsize
  obtain ⟨hsample, hhalted⟩ := hread sampleSteps 3
  rw [hlength, Env.answer, Env.answer, hlen, hinfo] at hsample
  exact ⟨s, hinit, hsample, hhalted⟩

end EasyFlash

end WeatherStation
