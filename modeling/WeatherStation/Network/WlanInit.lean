import Mathlib.Data.Nat.Find
import Mathlib.Order.Monotone.Basic
import WeatherStation.Network.WifiConnect

/-!
# Waiting for the start of the Wi-Fi module

{lit}`rt_hw_wlan_wait_init_done` polls the flag {lit}`init_flag` every 100 ms.  The counter of
its loop is also its verdict: after the last poll it has the value of a time-out, whatever
this poll saw.

Main results:

- Theorem {lit}`waitLoop_of_firstUp`, {lit}`waitLoop_of_not_up`: the polls that are made and the
  value of the counter after the loop.
- Theorem {lit}`wait_reports_iff`: the starts that are reported as the polls saw them.
-/

namespace WeatherStation

/-- How the module starts while a call waits for it: the moment at which {lit}`init_flag`
becomes 1, if it ever does, and the moments of the polls, each after its delay. -/
structure WlanStart where
  moment : Option Nat
  poll : Nat → Nat
  strictMono_poll : StrictMono poll

namespace WlanStart

/-- The flag has become 1 by the {lit}`k`-th poll. -/
def Up (w : WlanStart) (k : Nat) : Prop :=
  ∃ t ∈ w.moment, t ≤ w.poll k

instance (w : WlanStart) (k : Nat) : Decidable (w.Up k) :=
  inferInstanceAs (Decidable (∃ t ∈ w.moment, t ≤ w.poll k))

/-- {lit}`rt_hw_wlan_get_initialize_status` at the {lit}`k`-th poll. -/
def rtHwWlanGetInitializeStatus (w : WlanStart) (k : Nat) : Int :=
  if w.Up k then 1 else 0

/-- The loop of the wait: what its polls return and the counter after it. -/
def waitLoop (w : WlanStart) (periods time_cnt : Nat) : List Int × Nat :=
  if time_cnt ≤ periods then
    let status := w.rtHwWlanGetInitializeStatus time_cnt
    if status = 1 then ([status], time_cnt + 1)
    else
      let rest := waitLoop w periods (time_cnt + 1)
      (status :: rest.1, rest.2)
  else ([], time_cnt)
termination_by periods + 1 - time_cnt

/-- {lit}`rt_hw_wlan_wait_init_done`: what it returns, and what its polls returned. -/
def rtHwWlanWaitInitDone (w : WlanStart) (time_ms : UInt32) : Int × List Int :=
  let loop := w.waitLoop (time_ms.toNat / 100) 0
  (if loop.2 > time_ms.toNat / 100 then timedOut else RT_EOK, loop.1)

/-! ## The polls -/

/-- A flag that is up stays up. -/
theorem Up.mono {w : WlanStart} {j k : Nat} (h : w.Up j) (hjk : j ≤ k) : w.Up k := by
  rcases h with ⟨t, ht, hle⟩
  exact ⟨t, ht, hle.trans (w.strictMono_poll.monotone hjk)⟩

variable {w : WlanStart} {periods time_cnt : Nat}

theorem status_eq_one_iff (k : Nat) : w.rtHwWlanGetInitializeStatus k = 1 ↔ w.Up k := by
  unfold rtHwWlanGetInitializeStatus
  split_ifs with h <;> simp [h]

/-- A flag that is up at a poll of the loop ends it at the first such poll. -/
theorem waitLoop_of_firstUp {k : Nat} (hk : k ≤ periods) (hup : w.Up k)
    (hfirst : ∀ j < k, ¬w.Up j) (htime : time_cnt ≤ k) :
    w.waitLoop periods time_cnt = (List.replicate (k - time_cnt) 0 ++ [1], k + 1) := by
  fun_induction waitLoop w periods time_cnt with
  | case1 time_cnt hle status hone =>
      obtain rfl : time_cnt = k := by
        by_contra hne
        exact hfirst time_cnt (by omega) ((status_eq_one_iff _).mp hone)
      rw [Nat.sub_self, hone]
      rfl
  | case2 time_cnt hle status hone rest ih =>
      have hdown : ¬w.Up time_cnt := fun h => hone ((status_eq_one_iff _).mpr h)
      have hlt : time_cnt < k := by
        refine Nat.lt_of_le_of_ne htime fun heq => hdown (heq ▸ hup)
      have hstatus : status = 0 := if_neg hdown
      have hcount : k - time_cnt = k - (time_cnt + 1) + 1 := by omega
      rw [show rest = _ from ih hlt, hstatus, hcount, List.replicate_succ]
      rfl
  | case3 time_cnt hle => omega

/-- Otherwise all polls are made. -/
theorem waitLoop_of_not_up (hdown : ¬w.Up periods) (htime : time_cnt ≤ periods + 1) :
    w.waitLoop periods time_cnt = (List.replicate (periods + 1 - time_cnt) 0, periods + 1) := by
  fun_induction waitLoop w periods time_cnt with
  | case1 time_cnt hle status hone =>
      exact absurd (((status_eq_one_iff _).mp hone).mono hle) hdown
  | case2 time_cnt hle status hone rest ih =>
      have hstatus : status = 0 := if_neg fun h => hone ((status_eq_one_iff _).mpr h)
      have hcount : periods + 1 - time_cnt = periods + 1 - (time_cnt + 1) + 1 := by omega
      rw [show rest = _ from ih (by omega), hstatus, hcount, List.replicate_succ]
  | case3 time_cnt hle =>
      rw [show time_cnt = periods + 1 by omega, Nat.sub_self]
      rfl

/-! ## The verdict -/

/-- The call returns {lit}`RT_EOK` exactly when one of its polls returned 1, and
{lit}`-RT_ETIMEOUT` exactly when all of them returned 0. -/
structure ReportsPolls (w : WlanStart) (time_ms : UInt32) : Prop where
  done : (w.rtHwWlanWaitInitDone time_ms).1 = RT_EOK ↔ 1 ∈ (w.rtHwWlanWaitInitDone time_ms).2
  timeout : (w.rtHwWlanWaitInitDone time_ms).1 = timedOut ↔
    ∀ status ∈ (w.rtHwWlanWaitInitDone time_ms).2, status = 0

theorem timedOut_ne_RT_EOK : timedOut ≠ RT_EOK := by decide

/-- When a poll returned 1, the verdict is right exactly when it is {lit}`RT_EOK`. -/
theorem reportsPolls_iff_of_seen {time_ms : UInt32}
    (hseen : 1 ∈ (w.rtHwWlanWaitInitDone time_ms).2) :
    w.ReportsPolls time_ms ↔ (w.rtHwWlanWaitInitDone time_ms).1 = RT_EOK := by
  constructor
  · intro h
    exact h.done.mpr hseen
  · intro hret
    refine ⟨iff_of_true hret hseen, iff_of_false ?_ fun hall => ?_⟩
    · rw [hret]
      exact timedOut_ne_RT_EOK.symm
    · exact absurd (hall 1 hseen) (by decide)

/-- A flag that is up at a poll has a first poll at which it is up. -/
theorem exists_firstUp (hup : w.Up periods) :
    ∃ k, k ≤ periods ∧ w.Up k ∧ ∀ j < k, ¬w.Up j := by
  have hex : ∃ k, w.Up k := ⟨periods, hup⟩
  exact ⟨Nat.find hex, Nat.find_min' hex hup, Nat.find_spec hex, fun j hj => Nat.find_min hex hj⟩

/-- The counter gets behind the periods exactly when the poll before the last one did not see
the flag. -/
theorem lt_succ_firstUp_iff {k : Nat} (hkup : w.Up k) (hfirst : ∀ j < k, ¬w.Up j) :
    periods < k + 1 ↔ ¬(0 < periods ∧ w.Up (periods - 1)) := by
  constructor
  · rintro hlt ⟨hpos, hbefore⟩
    exact hfirst (periods - 1) (by omega) hbefore
  · intro h
    by_contra hle
    exact h ⟨by omega, hkup.mono (by omega)⟩

/-- The verdict is right exactly when the flag is not up by the last poll, or was up by the
poll before it already; a wait of less than 100 ms has one poll only. -/
theorem wait_reports_iff (w : WlanStart) (time_ms : UInt32) :
    w.ReportsPolls time_ms ↔
      (w.Up (time_ms.toNat / 100) →
        0 < time_ms.toNat / 100 ∧ w.Up (time_ms.toNat / 100 - 1)) := by
  generalize hperiods : time_ms.toNat / 100 = periods
  have hrun : w.rtHwWlanWaitInitDone time_ms =
      (if (w.waitLoop periods 0).2 > periods then timedOut else RT_EOK,
        (w.waitLoop periods 0).1) := by
    rw [rtHwWlanWaitInitDone, hperiods]
  by_cases hup : w.Up periods
  · -- The loop ends at the first poll that sees the flag.
    obtain ⟨k, hk, hkup, hfirst⟩ := exists_firstUp hup
    rw [waitLoop_of_firstUp hk hkup hfirst (Nat.zero_le k)] at hrun
    have hseen : 1 ∈ (w.rtHwWlanWaitInitDone time_ms).2 := by
      rw [hrun]
      exact List.mem_append_right _ (List.mem_singleton_self 1)
    rw [reportsPolls_iff_of_seen hseen, hrun, forall_prop_of_true hup]
    by_cases hlast : periods < k + 1
    · have hno := (lt_succ_firstUp_iff hkup hfirst).mp hlast
      rw [if_pos hlast]
      exact iff_of_false timedOut_ne_RT_EOK hno
    · have hbefore := not_not.mp ((lt_succ_firstUp_iff hkup hfirst).not.mp hlast)
      rw [if_neg hlast]
      exact iff_of_true rfl hbefore
  · refine iff_of_true ?_ fun h => absurd h hup
    rw [waitLoop_of_not_up hup (Nat.zero_le _), if_pos (Nat.lt_succ_self periods)] at hrun
    constructor
    · rw [hrun]
      refine iff_of_false timedOut_ne_RT_EOK fun hmem => ?_
      exact absurd (List.eq_of_mem_replicate hmem) (by decide)
    · rw [hrun]
      exact iff_of_true rfl fun status h => List.eq_of_mem_replicate h

/-- A flag that is up before the only poll of a short wait. -/
theorem wait_misses_last_poll :
    ¬∀ (w : WlanStart) (time_ms : UInt32), w.ReportsPolls time_ms := by
  intro h
  have hreports := h ⟨some 0, fun k => 100 * (k + 1), fun _ _ hlt => by dsimp only; omega⟩ 50
  rw [wait_reports_iff] at hreports
  exact absurd (hreports ⟨0, rfl, Nat.zero_le _⟩).1 (by decide)

end WlanStart

end WeatherStation
