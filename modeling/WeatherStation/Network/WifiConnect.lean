import WeatherStation.Foundation.Execution

/-!
# Connecting to the network

The thread that connects to the access point, as the trace of its effects for
given results of {lit}`rt_wlan_connect` and of the wait for an address.  The
flag {lit}`net_state`, on which the other threads start, is set at the end of
every attempt that connects, also when the wait has timed out.

Main results:

- Theorem {lit}`throughout_attempt_iff`: one attempt keeps the meaning of the flag
  exactly when it does not time out after connecting.
- Theorem {lit}`netState_means_ready_iff`: the runs of the thread in which the flag
  means that the network is ready.
-/

open Foundation

namespace WeatherStation

/-- {lit}`RT_EOK` -/
def RT_EOK : Int := 0

/-- The result of a wait that timed out, {lit}`-RT_ETIMEOUT`. -/
def timedOut : Int := -2

/-- The events for which handlers are registered. -/
inductive WlanEvent where
  | ready
  | staConnected
  | staDisconnected
  | staConnectedFail
deriving DecidableEq

/-- One statement of the thread, with its result where it has one. -/
inductive WifiEffect where
  | showConnecting
  | setMode
  | configAutoreconnect
  | semCreate
  | registerHandler (e : WlanEvent)
  | wlanConnect (result : Int)
  | semTake (result : Int)
  | unregisterHandler (e : WlanEvent)
  | semDelete
  | ntpSyncToRtc
  | setNetState
deriving DecidableEq

/-- What precedes the connection in every attempt. -/
def wifiSetup : List WifiEffect :=
  [.setMode, .configAutoreconnect, .semCreate, .registerHandler .ready,
    .registerHandler .staConnected, .registerHandler .staDisconnected,
    .registerHandler .staConnectedFail]

/-- {lit}`wifi_connect`: its effects and its return value, for given results of
{lit}`rt_wlan_connect` and {lit}`rt_sem_take`. -/
def wifiConnect (connect take : Int) : List WifiEffect × Int :=
  if connect = RT_EOK then
    (wifiSetup ++ [.wlanConnect connect, .semTake take, .unregisterHandler .ready, .semDelete,
      .ntpSyncToRtc, .setNetState], take)
  else
    (wifiSetup ++ [.wlanConnect connect], connect)

/-- What the thread meets in one round of its loop. -/
structure WifiPoll where
  deviceFound : Bool
  connect : Int
  take : Int

/-- {lit}`wifi_connect_thread_entry`: rounds until one attempt returns
{lit}`RT_EOK`. -/
def wifiConnectThreadEntry : List WifiPoll → List WifiEffect
  | [] => []
  | p :: ps =>
      if p.deviceFound then
        let attempt := wifiConnect p.connect p.take
        .showConnecting :: attempt.1 ++
          if attempt.2 = RT_EOK then [] else wifiConnectThreadEntry ps
      else wifiConnectThreadEntry ps

/-- The flag, and whether the READY event was received in some attempt so far. -/
structure NetFlag where
  net_state : Bool
  received : Bool
deriving DecidableEq

/-- The state before the first round. -/
def NetFlag.initial : NetFlag := ⟨false, false⟩

/-- What an effect does to the flag. -/
def NetFlag.apply (s : NetFlag) : WifiEffect → NetFlag
  | .setNetState => { s with net_state := true }
  | .semTake result => { s with received := s.received || result = RT_EOK }
  | _ => s

/-- The flag is set only after the READY event was received. -/
def NetFlag.MeansReady (s : NetFlag) : Prop :=
  s.net_state = true → s.received = true

/-- The attempt connects but gets no address in time. -/
def WifiPoll.TimesOut (p : WifiPoll) : Prop :=
  p.deviceFound = true ∧ p.connect = RT_EOK ∧ p.take ≠ RT_EOK

/-- The attempt connects and gets an address. -/
def WifiPoll.Succeeds (p : WifiPoll) : Prop :=
  p.deviceFound = true ∧ p.connect = RT_EOK ∧ p.take = RT_EOK

/-- No attempt times out after connecting, up to the first one that succeeds. -/
def NeverTimesOut : List WifiPoll → Prop
  | [] => True
  | p :: ps => ¬p.TimesOut ∧ (¬p.Succeeds → NeverTimesOut ps)

/-! ## One attempt -/

/-- An attempt that does not connect leaves the flag alone. -/
theorem foldl_wifiConnect_of_ne {connect take : Int} (h : connect ≠ RT_EOK) (s : NetFlag) :
    (wifiConnect connect take).1.foldl NetFlag.apply s = s := by
  rw [wifiConnect, if_neg h]
  rfl

/-- An attempt sets the flag wrongly exactly when it connects and then times out. -/
theorem throughout_attempt_iff (connect take : Int) :
    Execution.Throughout NetFlag.apply NetFlag.MeansReady .initial (wifiConnect connect take).1 ↔
      (connect = RT_EOK → take = RT_EOK) := by
  by_cases hconnect : connect = RT_EOK
  · rw [wifiConnect, if_pos hconnect]
    simp [wifiSetup, Execution.Throughout, NetFlag.apply, NetFlag.MeansReady, NetFlag.initial,
      hconnect]
  · rw [wifiConnect, if_neg hconnect]
    simp [wifiSetup, Execution.Throughout, NetFlag.apply, NetFlag.MeansReady, NetFlag.initial,
      hconnect]

/-! ## Runs of the thread -/

/-- A run keeps the meaning of the flag exactly when none of its attempts times out
after connecting. -/
theorem throughout_thread_iff (polls : List WifiPoll) :
    Execution.Throughout NetFlag.apply NetFlag.MeansReady .initial
        (wifiConnectThreadEntry polls) ↔
      NeverTimesOut polls := by
  induction polls with
  | nil => simp [wifiConnectThreadEntry, Execution.Throughout, NetFlag.MeansReady,
      NetFlag.initial, NeverTimesOut]
  | cons p ps ih =>
      by_cases hfound : p.deviceFound = true
      · have hattempt := throughout_attempt_iff p.connect p.take
        have hinitial : NetFlag.initial.MeansReady := by simp [NetFlag.MeansReady, NetFlag.initial]
        rw [wifiConnectThreadEntry, if_pos hfound, List.cons_append, Execution.Throughout,
          and_iff_right hinitial]
        change Execution.Throughout _ _ NetFlag.initial _ ↔ _
        rw [Execution.throughout_append, hattempt]
        by_cases hconnect : p.connect = RT_EOK
        · by_cases htake : p.take = RT_EOK
          · -- The thread ends, and the flag was set after the event.
            simp [wifiConnect, hconnect, htake, wifiSetup, Execution.Throughout, NetFlag.apply,
              NetFlag.MeansReady, NeverTimesOut, WifiPoll.TimesOut, WifiPoll.Succeeds, hfound]
          · simp [hconnect, htake, NeverTimesOut, WifiPoll.TimesOut, hfound]
        · rw [foldl_wifiConnect_of_ne hconnect]
          simp [wifiConnect, hconnect, ih, NeverTimesOut, WifiPoll.TimesOut, WifiPoll.Succeeds]
      · rw [wifiConnectThreadEntry, if_neg hfound, ih]
        simp [NeverTimesOut, WifiPoll.TimesOut, WifiPoll.Succeeds, hfound]

/-- In every state that a run reaches the flag means that the network is ready,
exactly when no attempt of the run times out after connecting. -/
theorem netState_means_ready_iff (polls : List WifiPoll) :
    (∀ pre, pre <+: wifiConnectThreadEntry polls →
        (pre.foldl NetFlag.apply .initial).MeansReady) ↔
      NeverTimesOut polls := by
  rw [← Execution.throughout_iff_forall_front]
  exact throughout_thread_iff polls

/-- One attempt that connects and times out sets the flag. -/
theorem netState_not_always_ready :
    ¬∀ polls : List WifiPoll,
      ∀ pre, pre <+: wifiConnectThreadEntry polls →
        (pre.foldl NetFlag.apply .initial).MeansReady := by
  intro h
  have hflag := h [⟨true, RT_EOK, timedOut⟩] _ (List.prefix_refl _)
  exact absurd (hflag (by decide)) (by decide)

end WeatherStation
