import WeatherStation.Network.WifiConnect

/-!
# What a connection attempt leaves behind

{lit}`wifi_connect` creates a semaphore and registers the handler of the READY event; it
deletes the one and unregisters the other only after {lit}`rt_wlan_connect` has succeeded.

Main results:

- Theorem {lit}`length_live_thread`: the thread leaves as many live semaphores as attempts of it
  failed to connect.
- Theorem {lit}`leaves_nothing_iff`: the sequences of attempts that leave nothing behind.
-/

open Foundation

namespace WeatherStation

/-- The results of {lit}`rt_wlan_connect` and {lit}`rt_sem_take` in a call of
{lit}`wifi_connect`. -/
structure WifiCall where
  connect : Int
  take : Int
deriving DecidableEq

/-- The semaphores called {lit}`net_ready`, numbered in the order of their creation: how many
were created and which of them live; the variable {lit}`net_ready`; and whether a handler of
the READY event is registered. -/
structure WifiResources where
  created : Nat
  live : List Nat
  net_ready : Option Nat
  handler : Bool
deriving DecidableEq

namespace WifiResources

/-- Before the first call. -/
def initial : WifiResources where
  created := 0
  live := []
  net_ready := none
  handler := false

/-- What an effect of {lit}`wifi_connect` does to them. -/
def apply (r : WifiResources) : WifiEffect → WifiResources
  | .semCreate =>
      { r with
        created := r.created + 1
        live := r.live ++ [r.created]
        net_ready := some r.created }
  | .semDelete => { r with live := r.live.filter fun sem => r.net_ready ≠ some sem }
  | .registerHandler .ready => { r with handler := true }
  | .unregisterHandler .ready => { r with handler := false }
  | _ => r

/-- After a call of {lit}`wifi_connect`. -/
def call (r : WifiResources) (c : WifiCall) : WifiResources :=
  (wifiConnect c.connect c.take).1.foldl apply r

/-- One call after another. -/
def step (r : WifiResources) (c : WifiCall) : Option WifiResources :=
  some (r.call c)

/-- The call deletes the semaphore that it creates and unregisters the handler. -/
structure CleansUp (r : WifiResources) (c : WifiCall) : Prop where
  semaphore : r.created ∉ (r.call c).live
  handler : (r.call c).handler = false

/-! ## One call -/

variable {r : WifiResources} {c : WifiCall}

/-- A call that does not connect leaves its semaphore and the handler. -/
theorem call_of_ne (h : c.connect ≠ RT_EOK) :
    r.call c = ⟨r.created + 1, r.live ++ [r.created], some r.created, true⟩ := by
  rw [call, wifiConnect, if_neg h]
  rfl

/-- A call that connects leaves the semaphores of the calls before it. -/
theorem call_of_eq (h : c.connect = RT_EOK) :
    r.call c = ⟨r.created + 1, r.live.filter fun sem => some r.created ≠ some sem,
      some r.created, false⟩ := by
  have hfilter : (r.live ++ [r.created]).filter (fun sem => some r.created ≠ some sem) =
      r.live.filter fun sem => some r.created ≠ some sem := by
    simp
  rw [call, wifiConnect, if_pos h, ← hfilter]
  rfl

/-- A call cleans up exactly when it connects. -/
theorem cleansUp_iff : r.CleansUp c ↔ c.connect = RT_EOK := by
  by_cases h : c.connect = RT_EOK
  · refine iff_of_true ⟨?_, ?_⟩ h
    · rw [call_of_eq h]
      simp
    · rw [call_of_eq h]
  · refine iff_of_false (fun hclean => ?_) h
    have hhandler := hclean.handler
    rw [call_of_ne h] at hhandler
    contradiction

/-- The live semaphores were created before. -/
def Numbered (r : WifiResources) : Prop :=
  ∀ sem ∈ r.live, sem < r.created

theorem live_call (hr : r.Numbered) (c : WifiCall) :
    (r.call c).live = if c.connect = RT_EOK then r.live else r.live ++ [r.created] := by
  by_cases h : c.connect = RT_EOK
  · rw [call_of_eq h, if_pos h]
    refine List.filter_eq_self.mpr fun sem hsem => ?_
    simpa using Nat.ne_of_gt (hr sem hsem)
  · rw [call_of_ne h, if_neg h]

theorem numbered_call (hr : r.Numbered) (c : WifiCall) : (r.call c).Numbered := by
  have hcreated : (r.call c).created = r.created + 1 := by
    by_cases h : c.connect = RT_EOK
    · rw [call_of_eq h]
    · rw [call_of_ne h]
  intro sem hsem
  rw [live_call hr] at hsem
  rw [hcreated]
  split_ifs at hsem
  · exact Nat.lt_succ_of_lt (hr sem hsem)
  · rcases List.mem_append.mp hsem with hold | hnew
    · exact Nat.lt_succ_of_lt (hr sem hold)
    · rw [List.mem_singleton.mp hnew]
      exact Nat.lt_succ_self _

/-! ## Calls one after another -/

/-- Every attempt that fails to connect leaves one more semaphore. -/
theorem length_live_exec {calls : List WifiCall} {r t : WifiResources} (hr : r.Numbered)
    (hrun : Execution.exec step r calls = some t) :
    t.Numbered ∧
      t.live.length = r.live.length + calls.countP fun c => c.connect ≠ RT_EOK := by
  induction calls generalizing r with
  | nil =>
      obtain rfl := Option.some.inj hrun
      exact ⟨hr, rfl⟩
  | cons c calls ih =>
      rcases (Execution.exec_cons_eq_some_iff step).mp hrun with ⟨r', hstep, hrest⟩
      obtain rfl := Option.some.inj hstep
      rcases ih (numbered_call hr c) hrest with ⟨ht, hlength⟩
      refine ⟨ht, ?_⟩
      rw [hlength, live_call hr, List.countP_cons]
      by_cases h : c.connect = RT_EOK
      · simp [h]
      · simp [h]
        omega

/-- The calls that the thread makes in its rounds, up to the first one that returns
{lit}`RT_EOK`. -/
def threadCalls : List WifiPoll → List WifiCall
  | [] => []
  | p :: ps =>
      if p.deviceFound then
        ⟨p.connect, p.take⟩ ::
          if (wifiConnect p.connect p.take).2 = RT_EOK then [] else threadCalls ps
      else threadCalls ps

/-- The thread leaves what its calls leave. -/
theorem exec_threadCalls (polls : List WifiPoll) (r : WifiResources) :
    Execution.exec step r (threadCalls polls) =
      some ((wifiConnectThreadEntry polls).foldl apply r) := by
  induction polls generalizing r with
  | nil => rfl
  | cons p ps ih =>
      rw [threadCalls, wifiConnectThreadEntry]
      by_cases hfound : p.deviceFound = true
      · rw [if_pos hfound, if_pos hfound, Execution.exec_cons, List.cons_append, List.foldl_cons,
          List.foldl_append]
        split_ifs with hdone
        · rfl
        · exact ih _
      · rw [if_neg hfound, if_neg hfound]
        exact ih r

/-- Over any number of retries the thread leaves one live semaphore for each attempt that did
not connect. -/
theorem length_live_thread (polls : List WifiPoll) :
    ((wifiConnectThreadEntry polls).foldl apply initial).live.length =
      (threadCalls polls).countP fun c => c.connect ≠ RT_EOK := by
  have hnumbered : initial.Numbered := fun sem hsem => absurd hsem List.not_mem_nil
  rw [(length_live_exec hnumbered (exec_threadCalls polls initial)).2]
  exact Nat.zero_add _

/-- The effects of several calls. -/
def effects (calls : List WifiCall) : List WifiEffect :=
  calls.flatMap fun c => (wifiConnect c.connect c.take).1

/-- At most one semaphore lives. -/
def AtMostOne (r : WifiResources) : Prop :=
  r.live.length ≤ 1

/-- From a state without live semaphores, calls that connect never have more than one. -/
theorem throughout_effects {calls : List WifiCall} {r : WifiResources} (hr : r.live = [])
    (hcalls : ∀ c ∈ calls, c.connect = RT_EOK) :
    Execution.Throughout apply AtMostOne r (effects calls) := by
  induction calls generalizing r with
  | nil =>
      show r.live.length ≤ 1
      rw [hr]
      exact Nat.zero_le 1
  | cons c calls ih =>
      have hc := hcalls c List.mem_cons_self
      rw [effects, List.flatMap_cons, Execution.throughout_append]
      constructor
      · rw [wifiConnect, if_pos hc]
        simp [wifiSetup, Execution.Throughout, AtMostOne, apply, hr]
      · refine ih ?_ fun c' hc' => hcalls c' (List.mem_cons_of_mem c hc')
        show (r.call c).live = []
        rw [call_of_eq hc, hr]
        rfl

/-- After each call its semaphore is deleted and the handler unregistered, and at no time more
than one semaphore lives. -/
structure LeavesNothing (calls : List WifiCall) : Prop where
  released : Execution.AllSteps step CleansUp initial calls
  bounded : ∀ pre, pre <+: effects calls → (pre.foldl apply initial).AtMostOne

/-- A sequence of calls leaves nothing behind exactly when every call connects to the access
point. -/
theorem leaves_nothing_iff (calls : List WifiCall) :
    LeavesNothing calls ↔ ∀ c ∈ calls, c.connect = RT_EOK := by
  have hreleased (r : WifiResources) :
      Execution.AllSteps step CleansUp r calls ↔ ∀ c ∈ calls, c.connect = RT_EOK := by
    induction calls generalizing r with
    | nil => simp [Execution.AllSteps]
    | cons c calls ih =>
        rw [Execution.AllSteps, cleansUp_iff, List.forall_mem_cons]
        refine and_congr_right fun _ => ?_
        constructor
        · intro h
          exact (ih (r.call c)).mp (h _ rfl)
        · rintro h r' hr'
          exact (ih r').mpr h
  constructor
  · intro h
    exact (hreleased initial).mp h.released
  · intro h
    refine ⟨(hreleased initial).mpr h, ?_⟩
    rw [← Execution.throughout_iff_forall_front]
    exact throughout_effects rfl h

/-- Two attempts that do not reach the access point. -/
theorem failed_attempts_leave_semaphores : ¬∀ calls : List WifiCall, LeavesNothing calls := by
  intro h
  have hbounded := (h [⟨-1, RT_EOK⟩, ⟨-1, RT_EOK⟩]).bounded _ (List.prefix_refl _)
  revert hbounded
  unfold AtMostOne
  decide

end WifiResources

end WeatherStation
