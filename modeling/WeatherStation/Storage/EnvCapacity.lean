import WeatherStation.Storage.EnvRun

/-!
# Runs that never fill the store

However often variables are set, only one value of each counts.  Where all of them fit into one
sector, with room for one of them twice, a collection always makes room, and no run of the store
comes to its end.

Main results:

- Theorem {lit}`nodesLen_le_total`: the variables that count are bounded by their names.
- Theorem {lit}`efEnvInit_run_within`: every run within the bounds answers as the map does.
-/

open Foundation

namespace WeatherStation

namespace EasyFlash

/-! ## The room for some variables -/

/-- A sum over some names. -/
def total (f : CStr → Nat) : List CStr → Nat
  | [] => 0
  | key :: keys => f key + total f keys

theorem total_erase (f : CStr → Nat) {keys : List CStr} {key : CStr} (h : key ∈ keys) :
    total f keys = f key + total f (keys.erase key) := by
  induction keys with
  | nil => exact absurd h List.not_mem_nil
  | cons key' keys ih =>
      by_cases heq : key' = key
      · subst heq
        rw [List.erase_cons_head, total]
      · have hmem : key ∈ keys := List.mem_of_ne_of_mem (fun hno => heq hno.symm) h
        have hne : ¬(key' == key) = true := by rwa [beq_iff_eq]
        rw [List.erase_cons_tail hne, total, total, ih hmem]
        omega

/-- The length of a variable whose value is as long as it may be. -/
def varLen (bound : CStr → Nat) (key : CStr) : Nat :=
  ENV_HDR_DATA_SIZE + key.strlen + bound key

/-- Variables with different names are bounded by the names. -/
theorem nodesLen_le_total {bound : CStr → Nat} {ns : List Node} {keys : List CStr}
    (hdistinct : ns.Pairwise fun n n' => n.key ≠ n'.key) (hkeys : ∀ n ∈ ns, n.key ∈ keys)
    (hbound : ∀ n ∈ ns, n.value.length ≤ bound n.key) :
    nodesLen ns ≤ total (varLen bound) keys := by
  induction ns generalizing keys with
  | nil => exact Nat.zero_le _
  | cons n ns ih =>
      obtain ⟨hhead, htail⟩ := List.pairwise_cons.mp hdistinct
      have hrest : nodesLen ns ≤ total (varLen bound) (keys.erase n.key) := by
        refine ih htail (fun n' hn' => ?_) fun n' hn' => hbound n' (List.mem_cons_of_mem n hn')
        exact (List.mem_erase_of_ne fun heq => hhead n' hn' heq.symm).mpr
          (hkeys n' (List.mem_cons_of_mem n hn'))
      have hlen : n.len = ENV_HDR_DATA_SIZE + n.key.strlen + n.value.length := rfl
      have hvalue := hbound n List.mem_cons_self
      rw [nodesLen_cons, total_erase _ (hkeys n List.mem_cons_self)]
      unfold varLen at hrest ⊢
      omega

/-! ## Runs within bounds -/

/-- Lengths of values with which all variables fit into one sector, and one of them twice. -/
structure Quota (K : KeySet) where
  bound : CStr → Nat
  fits : ∀ key ∈ K.keys, total (varLen bound) K.keys + varLen bound key +
    EF_SEC_REMAIN_THRESHOLD ≤ SECTOR_SIZE - SECTOR_HDR_DATA_SIZE

section Quota

variable {K : KeySet}

/-- No value of the map is too long. -/
def Contents.Within (q : Quota K) (c : Contents) : Prop :=
  ∀ key value, c key = some value → value.length ≤ q.bound key

/-- A call does not set too long a value. -/
def Call.Within (q : Quota K) : Call K → Prop
  | .set key value => value.length ≤ q.bound key.1
  | _ => True

/-- What is within the bounds stays there. -/
theorem Contents.Within.call {q : Quota K} {c : Contents} (h : c.Within q) {x : Call K}
    (hx : x.Within q) : (c.call x).1.Within q := by
  cases x with
  | set key value =>
      intro key' value' hvalue
      by_cases heq : key' = key.1
      · subst heq
        have hsame : Function.update c key.1 (some value) key.1 = some value' := hvalue
        rw [Function.update_self] at hsame
        cases hsame
        exact hx
      · have hsame : Function.update c key.1 (some value) key' = some value' := hvalue
        rw [Function.update_of_ne heq] at hsame
        exact h key' value' hsame
  | delete key =>
      intro key' value' hvalue
      have hsame : Function.update c key.1 none key' = some value' := hvalue
      by_cases heq : key' = key.1
      · rw [heq, Function.update_self] at hsame
        cases hsame
      · rw [Function.update_of_ne heq] at hsame
        exact h key' value' hsame
  | get key buf_len => exact h
  | restart => exact h

variable {s : Store} {a : Nat} {A : SectorDesc}

/-- Within the bounds there is room for a new value. -/
theorem Resting.room (h : Resting K.Mem s a A) {q : Quota K}
    (hwithin : (contents A.nodes).Within q) {key : K.Key} {value : List UInt8}
    (hvalue : value.length ≤ q.bound key.1) :
    nodesLen (liveNodes A.nodes) + (Node.mk .write key.1 value).len + EF_SEC_REMAIN_THRESHOLD ≤
      SECTOR_SIZE - SECTOR_HDR_DATA_SIZE := by
  have hlive : nodesLen (liveNodes A.nodes) ≤ total (varLen q.bound) K.keys := by
    refine nodesLen_le_total h.settled.distinct (fun n hn => ?_) fun n hn => ?_
    · exact h.settled.keys n (mem_liveNodes.mp hn).1
    · exact hwithin n.key n.value
        ((contents_eq_some_iff h.settled.distinct).mpr ⟨n, hn, rfl, rfl⟩)
  have hlen : (Node.mk .write key.1 value).len =
      ENV_HDR_DATA_SIZE + key.1.strlen + value.length := rfl
  have hfits := q.fits key.1 key.2
  unfold varLen at hfits hlive
  omega

/-- Every run within the bounds answers as the map does, and leaves the store at rest. -/
theorem Resting.run_within (h : Resting K.Mem s a A) {q : Quota K}
    (hwithin : (contents A.nodes).Within q) (calls : List (Call K))
    (hcalls : ∀ x ∈ calls, x.Within q) :
    answers Store.call s calls = answers Contents.call (contents A.nodes) calls ∧
      ∃ b B, Resting K.Mem (s.after calls) b B := by
  induction calls generalizing s a A with
  | nil => exact ⟨rfl, a, A, h⟩
  | cons x calls ih =>
      have hx := hcalls x List.mem_cons_self
      have hnow : (s.call x).2 ≠ .code .envFull := by
        refine h.call_not_full fun key value heq => ?_
        subst heq
        exact h.room hwithin hx
      obtain ⟨hsame, b, B, hrest, hc⟩ := (h.call x).resolve_left hnow
      have hnext : (contents B.nodes).Within q := by
        rw [hc]
        exact hwithin.call hx
      obtain ⟨hanswers, hafter⟩ :=
        ih hrest hnext fun y hy => hcalls y (List.mem_cons_of_mem x hy)
      rw [answers, answers, hsame, ← hc, hanswers]
      exact ⟨rfl, hafter⟩

/-- The default variable is within the bounds. -/
theorem within_bootTimes {q : Quota K} (hone : 1 ≤ q.bound bootTimes) :
    Contents.Within q (Function.update (fun _ => none) bootTimes (some [0x30])) := by
  intro key value hvalue
  by_cases heq : key = bootTimes
  · rw [heq, Function.update_self] at hvalue
    cases hvalue
    rw [heq]
    exact hone
  · rw [Function.update_of_ne heq] at hvalue
    cases hvalue

/-- From the first start on every run within the bounds answers as the map does, and the device
never halts. -/
theorem efEnvInit_run_within (q : Quota K) (hkey : K.Mem bootTimes)
    (hone : 1 ≤ q.bound bootTimes) {flash : Memory} (hzero : NoHeader flash 0)
    (hsize : NoHeader flash SECTOR_SIZE) (rounds : Nat) :
    ∃ s, efEnvInit (rounds + 1) defaultEnvSet (Store.boot flash) = some s ∧
      ∀ calls : List (Call K), (∀ x ∈ calls, x.Within q) →
        answers Store.call s calls =
            answers Contents.call (Function.update (fun _ => none) bootTimes (some [0x30]))
              calls ∧
          (s.after calls).halted = Bool.false := by
  obtain ⟨s, A, hinit, hrest, hcontents, -⟩ := efEnvInit_fresh hkey hzero hsize rounds
  have hwithin : (contents A.nodes).Within q := by
    rw [hcontents]
    exact within_bootTimes hone
  refine ⟨s, hinit, fun calls hcalls => ?_⟩
  obtain ⟨hanswers, b, B, hafter⟩ := hrest.run_within hwithin calls hcalls
  rw [← hcontents]
  exact ⟨hanswers, hafter.represents.running⟩

end Quota

/-- Values of up to 8 bytes for the name of the default set. -/
def defaultQuota : Quota .default where
  bound _ := 8
  fits := by decide

/-- The default variable is set on an erased flash, and read after a power cycle. -/
def setAndRead : List (Call .default) :=
  [.set ⟨bootTimes, KeySet.default_mem⟩ [0x31], .restart,
    .get ⟨bootTimes, KeySet.default_mem⟩ 8]

/-- The value that was set is read. -/
theorem efEnvInit_run_within_erased :
    ∃ s, efEnvInit 1 defaultEnvSet (Store.boot fun _ => 0xFF) = some s ∧
      answers Store.call s setAndRead =
        [.code .noErr, .code .noErr, .blob (some ([0x31], 1))] ∧
      (s.after setAndRead).halted = Bool.false := by
  have hzero : NoHeader (fun _ => 0xFF) 0 := by decide
  have hsize : NoHeader (fun _ => 0xFF) SECTOR_SIZE := by decide
  have hone : 1 ≤ defaultQuota.bound bootTimes := by decide
  have hwithin : ∀ x ∈ setAndRead, x.Within defaultQuota := by
    intro x hx
    rcases List.mem_cons.mp hx with rfl | hx
    · exact Nat.le_of_ble_eq_true rfl
    · rcases List.mem_cons.mp hx with rfl | hx
      · trivial
      · rw [List.mem_singleton.mp hx]
        trivial
  obtain ⟨s, hinit, hrun⟩ :=
    efEnvInit_run_within defaultQuota KeySet.default_mem hone hzero hsize 0
  obtain ⟨hanswers, hhalted⟩ := hrun setAndRead hwithin
  refine ⟨s, hinit, ?_, hhalted⟩
  rw [hanswers]
  rfl

end EasyFlash

end WeatherStation
