import Mathlib.Data.List.Forall2
import WeatherStation.Foundation.Execution

/-!
# Polling the voice module

The voice thread asks the recogniser for its result every two seconds.  A read of a
register is a write that selects it and a separate receive; the handler of the key
interrupt writes to the same module and may run at any point between.  The results of
the HAL transfers are ignored, and the byte that a failed receive should have stored is
the uninitialised local of {lit}`asr_get_result`.

Main results:

- Theorem {lit}`asr_polls_iff`: whatever the module holds, the thread acts only on answers
  of the recogniser exactly when each receive succeeds and the last write that reached the
  module before it was the thread's own.
-/

open Foundation

namespace WeatherStation

/-! ## The module and the thread -/

/-- {lit}`ASR_KEY_FLAG` -/
def ASR_KEY_FLAG : UInt8 := 0x06

/-- {lit}`ASR_RESULT` -/
def ASR_RESULT : UInt8 := 0x08

/-- What becomes of a call of {lit}`HAL_I2C_Master_Transmit`. -/
inductive Transmit where
  | ok
  /-- An error or time-out; the first byte may have reached the module before it. -/
  | failed (reached : Bool)
deriving DecidableEq

/-- The first byte reached the module. -/
def Transmit.reached : Transmit → Bool
  | ok => true
  | failed reached => reached

/-- What becomes of a call of {lit}`HAL_I2C_Master_Receive` for one byte. -/
inductive Receive where
  | ok
  /-- An error or time-out; some byte may have been stored before it. -/
  | failed (stored : Option UInt8)
deriving DecidableEq

/-- Where the voice thread stands in a poll. -/
inductive AsrPhase where
  /-- {lit}`asr_get_result` is called next. -/
  | poll
  /-- {lit}`I2C_Read` has written the register and will receive. -/
  | receive
  /-- {lit}`asr_thread_entry` tests the result next. -/
  | test
deriving DecidableEq

/-- The module and the thread.  The last member records the answer that a successful read
of {lit}`ASR_RESULT` has returned in this poll. -/
structure Asr where
  phase : AsrPhase
  /-- The register that the module has selected. -/
  register : UInt8
  /-- The local of {lit}`asr_get_result`, then of {lit}`asr_thread_entry`. -/
  res : UInt8
  answer : Option UInt8
deriving DecidableEq

/-- What can happen next. -/
inductive AsrAction where
  /-- The key interrupt: {lit}`key_irq_entry` writes to {lit}`ASR_KEY_FLAG`.  During a
  transfer of the thread the HAL refuses its write. -/
  | key (t : Transmit)
  /-- {lit}`asr_get_result` begins, with any value of its local, and writes the register
  {lit}`ASR_RESULT`. -/
  | select (res : UInt8) (t : Transmit)
  /-- It receives from the module with these registers. -/
  | receive (registers : UInt8 → UInt8) (r : Receive)
  /-- {lit}`asr_thread_entry` tests the result and waits for the next poll. -/
  | test

namespace Asr

/-- A write whose first byte is {lit}`register`. -/
def transmit (s : Asr) (t : Transmit) (register : UInt8) : Asr :=
  if t.reached then { s with register } else s

/-- The byte that stands in {lit}`res` after the receive. -/
def received (s : Asr) (registers : UInt8 → UInt8) : Receive → UInt8
  | .ok => registers s.register
  | .failed none => s.res
  | .failed (some b) => b

/-- The receive is a successful read of {lit}`ASR_RESULT`. -/
def IsAnswer (s : Asr) (r : Receive) : Prop :=
  r = .ok ∧ s.register = ASR_RESULT

instance (s : Asr) (r : Receive) : Decidable (s.IsAnswer r) :=
  inferInstanceAs (Decidable (_ ∧ _))

/-- One step of the thread or of the interrupt. -/
def step (s : Asr) : AsrAction → Option Asr
  | .key t => some (s.transmit t ASR_KEY_FLAG)
  | .select res t =>
      if s.phase = .poll then
        some ({ s with phase := .receive, res, answer := none }.transmit t ASR_RESULT)
      else none
  | .receive registers r =>
      if s.phase = .receive then
        some { s with
          phase := .test
          res := s.received registers r
          answer := if s.IsAnswer r then some (registers s.register) else none }
      else none
  | .test => if s.phase = .test then some { s with phase := .poll } else none

/-- The index of the call {lit}`change_city(city_id[res])`, if the tests of
{lit}`asr_thread_entry` lead to it. -/
def cityIndex (res : UInt8) : Option UInt8 :=
  if res ≠ 255 then if res ≥ 10 ∧ res ≤ 49 then some res else none else none

/-- A call of {lit}`change_city` is for the answer of the recogniser in this poll. -/
def ActsOnAnswer (s : Asr) (a : AsrAction) : Prop :=
  match a with
  | .test => s.phase = .test → ∀ r, cityIndex s.res = some r → s.answer = some r
  | _ => True

/-- The last write that reached the module is one of the thread, after an action before which
it was ({lit}`own`) or was not. -/
def ownAfter (own : Bool) : AsrAction → Bool
  | .key t => own && !t.reached
  | .select _ t => own || t.reached
  | .receive _ _ => own
  | .test => own

/-- Each receive succeeds, and the last write that reached the module before it is one of the
thread.  For the first of them {lit}`own` says whose write came before the actions. -/
def Undisturbed : Bool → List AsrAction → Prop
  | _, [] => True
  | own, a :: as =>
      (match a with
        | .receive _ r => r = .ok ∧ own = true
        | _ => True) ∧ Undisturbed (ownAfter own a) as

/-- Two actions whose transfers end alike: the content of the registers, of the local and of
what a failed receive stores may differ. -/
inductive SameTransfer : AsrAction → AsrAction → Prop where
  | key (t : Transmit) : SameTransfer (.key t) (.key t)
  | select (res res' : UInt8) (t : Transmit) : SameTransfer (.select res t) (.select res' t)
  | received (registers registers' : UInt8 → UInt8) :
      SameTransfer (.receive registers .ok) (.receive registers' .ok)
  | failed (registers registers' : UInt8 → UInt8) (stored stored' : Option UInt8) :
      SameTransfer (.receive registers (.failed stored)) (.receive registers' (.failed stored'))
  | test : SameTransfer .test .test

/-- A receive that leaves the index of a city is a successful read of
{lit}`ASR_RESULT`. -/
def ReadsAnswer (s : Asr) (a : AsrAction) : Prop :=
  match a with
  | .receive registers r => cityIndex (s.received registers r) = none ∨ s.IsAnswer r
  | _ => True

/-! ## Steps -/

@[simp] theorem transmit_phase (s : Asr) (t : Transmit) (register : UInt8) :
    (s.transmit t register).phase = s.phase := by
  unfold transmit
  split <;> rfl

@[simp] theorem transmit_res (s : Asr) (t : Transmit) (register : UInt8) :
    (s.transmit t register).res = s.res := by
  unfold transmit
  split <;> rfl

@[simp] theorem transmit_answer (s : Asr) (t : Transmit) (register : UInt8) :
    (s.transmit t register).answer = s.answer := by
  unfold transmit
  split <;> rfl

theorem transmit_register_of_reached (s : Asr) {t : Transmit} (h : t.reached) (register : UInt8) :
    (s.transmit t register).register = register := by
  rw [transmit, if_pos h]

theorem transmit_of_not_reached (s : Asr) {t : Transmit} (h : t.reached = false)
    (register : UInt8) : s.transmit t register = s := by
  rw [transmit, if_neg (by rw [h]; decide)]

/-- The index of a city is the byte itself. -/
theorem cityIndex_eq_some {res r : UInt8} (h : cityIndex res = some r) : r = res := by
  unfold cityIndex at h
  split_ifs at h
  exact (Option.some.inj h).symm

/-- What an enabled receive does. -/
theorem step_receive {s s' : Asr} {registers : UInt8 → UInt8} {r : Receive}
    (h : s.step (.receive registers r) = some s') :
    s.phase = .receive ∧ s'.phase = .test ∧ s'.res = s.received registers r ∧
      s'.answer = if s.IsAnswer r then some (registers s.register) else none := by
  by_cases hphase : s.phase = .receive
  · rw [step, if_pos hphase] at h
    cases h
    exact ⟨hphase, rfl, rfl, rfl⟩
  · rw [step, if_neg hphase] at h
    contradiction

/-- What an enabled select does. -/
theorem step_select {s s' : Asr} {res : UInt8} {t : Transmit}
    (h : s.step (.select res t) = some s') :
    s.phase = .poll ∧ s'.phase = .receive ∧ (t.reached → s'.register = ASR_RESULT) := by
  rw [step] at h
  split_ifs at h with hphase
  cases h
  refine ⟨hphase, transmit_phase _ _ _, fun hreached => ?_⟩
  exact transmit_register_of_reached _ hreached _

/-- What an enabled test does. -/
theorem step_test {s s' : Asr} (h : s.step .test = some s') :
    s.phase = .test ∧ s' = { s with phase := .poll } := by
  rw [step] at h
  split_ifs at h with hphase
  cases h
  exact ⟨hphase, rfl⟩

/-- What the tests will find was answered by the recogniser. -/
def Answered (s : Asr) : Prop :=
  s.phase = .test → ∀ r, cityIndex s.res = some r → s.answer = some r

/-- After a receive the tests find an answer exactly when the receive meets its
condition. -/
theorem answered_receive_iff {s s' : Asr} {registers : UInt8 → UInt8} {r : Receive}
    (h : s.step (.receive registers r) = some s') :
    s'.Answered ↔ s.ReadsAnswer (.receive registers r) := by
  rcases step_receive h with ⟨-, hphase, hres, hanswer⟩
  rw [Answered, ReadsAnswer, hphase, hres, hanswer]
  cases hindex : cityIndex (s.received registers r) with
  | none => simp
  | some i =>
      have hbyte := cityIndex_eq_some hindex
      by_cases hread : s.IsAnswer r
      · -- A successful receive stores the register.
        have hstored : s.received registers r = registers s.register := by
          rw [hread.1]
          rfl
        simp [hread, hbyte, hstored]
      · simp [hread]

/-- Other steps than a receive do not lead to a result without an answer. -/
theorem answered_step {s s' : Asr} {a : AsrAction} (hs : s.Answered) (ha : s.ReadsAnswer a)
    (h : s.step a = some s') : s'.Answered := by
  cases a with
  | key t =>
      cases h
      rw [Answered, transmit_phase, transmit_res, transmit_answer]
      exact hs
  | select res t =>
      intro htest
      rw [(step_select h).2.1] at htest
      contradiction
  | receive registers r => exact (answered_receive_iff h).mpr ha
  | test =>
      rcases step_test h with ⟨-, rfl⟩
      intro htest
      contradiction

/-- A poll that is completed in its tests acts on an answer only when they find one. -/
theorem answered_of_complete {s t : Asr} {as : List AsrAction}
    (hrun : Execution.exec step s as = some t) (ht : t.phase = .poll)
    (hacts : Execution.AllSteps step ActsOnAnswer s as) : s.Answered := by
  induction as generalizing s with
  | nil =>
      cases hrun
      intro htest
      rw [ht] at htest
      contradiction
  | cons a as ih =>
      rcases (Execution.exec_cons_eq_some_iff step).mp hrun with ⟨s', hs', hrest⟩
      intro htest
      cases a with
      | key t =>
          have hlater := ih hrest (hacts.2 s' hs')
          cases hs'
          rw [Answered, transmit_phase, transmit_res, transmit_answer] at hlater
          exact hlater htest
      | select res t =>
          rw [(step_select hs').1] at htest
          contradiction
      | receive registers r =>
          rw [(step_receive hs').1] at htest
          contradiction
      | test => exact hacts.1 htest

/-- From between two polls, receives that meet their condition lead to tests that find
answers. -/
theorem actsOnAnswer_of_readsAnswer {s : Asr} {as : List AsrAction} (hs : s.phase = .poll)
    (hreads : Execution.AllSteps step ReadsAnswer s as) :
    Execution.AllSteps step ActsOnAnswer s as := by
  refine Execution.allSteps_of_invariant (fun s a s' => answered_step) ?_ ?_ hreads
  · intro s a hanswered _
    cases a with
    | test => exact hanswered
    | key t => trivial
    | select res t => trivial
    | receive registers r => trivial
  · intro htest
    rw [hs] at htest
    contradiction

/-- When every poll is completed, tests that find answers come from receives that meet
their condition. -/
theorem readsAnswer_of_actsOnAnswer {s t : Asr} {as : List AsrAction}
    (hrun : Execution.exec step s as = some t) (ht : t.phase = .poll)
    (hacts : Execution.AllSteps step ActsOnAnswer s as) :
    Execution.AllSteps step ReadsAnswer s as := by
  induction as generalizing s with
  | nil => trivial
  | cons a as ih =>
      rcases (Execution.exec_cons_eq_some_iff step).mp hrun with ⟨s', hs', hrest⟩
      have hlater := hacts.2 s' hs'
      refine ⟨?_, fun s'' hs'' => ?_⟩
      · cases a with
        | receive registers r =>
            exact (answered_receive_iff hs').mp (answered_of_complete hrest ht hlater)
        | key t => trivial
        | select res t => trivial
        | test => trivial
      · rw [hs'] at hs''
        cases hs''
        exact ih hrest hlater

/-! ## Transfers and key writes -/

/-- The register of the module tells whose write was the last that reached it. -/
theorem register_step {s s' : Asr} {a : AsrAction} (h : s.step a = some s') :
    decide (s'.register = ASR_RESULT) = ownAfter (decide (s.register = ASR_RESULT)) a := by
  cases a with
  | key t =>
      cases h
      cases ht : t.reached with
      | true =>
          rw [transmit_register_of_reached s ht]
          simp [ownAfter, ht, ASR_KEY_FLAG, ASR_RESULT]
      | false =>
          rw [transmit_of_not_reached s ht]
          simp [ownAfter, ht]
  | select res t =>
      rw [step] at h
      split_ifs at h
      cases h
      cases ht : t.reached with
      | true =>
          rw [transmit_register_of_reached _ ht]
          simp [ownAfter, ht]
      | false =>
          rw [transmit_of_not_reached _ ht]
          simp [ownAfter, ht]
  | receive registers r =>
      rw [step, if_pos (step_receive h).1] at h
      cases h
      rfl
  | test =>
      rcases step_test h with ⟨-, rfl⟩
      rfl

/-- Undisturbed receives are answers of the recogniser. -/
theorem readsAnswer_of_undisturbed {s : Asr} {as : List AsrAction}
    (h : Undisturbed (decide (s.register = ASR_RESULT)) as) :
    Execution.AllSteps step ReadsAnswer s as := by
  induction as generalizing s with
  | nil => trivial
  | cons a as ih =>
      refine ⟨?_, fun s' hs' => ih ?_⟩
      · cases a with
        | receive registers r => exact .inr ⟨h.1.1, of_decide_eq_true h.1.2⟩
        | key t => trivial
        | select res t => trivial
        | test => trivial
      · rw [register_step hs']
        exact h.2

/-- What is undisturbed depends on the transfers only. -/
theorem undisturbed_of_same {as as' : List AsrAction} (hsame : List.Forall₂ SameTransfer as as')
    {own : Bool} (h : Undisturbed own as) : Undisturbed own as' := by
  induction hsame generalizing own with
  | nil => trivial
  | cons hfirst _ ih =>
      cases hfirst with
      | key t => exact ⟨trivial, ih h.2⟩
      | select res res' t => exact ⟨trivial, ih h.2⟩
      | received registers registers' => exact ⟨⟨rfl, h.1.2⟩, ih h.2⟩
      | failed registers registers' stored stored' => cases h.1.1
      | test => exact ⟨trivial, ih h.2⟩

/-- The same transfers, where the local and all registers hold the index of a city. -/
def filled : AsrAction → AsrAction
  | .key t => .key t
  | .select _ t => .select 20 t
  | .receive _ .ok => .receive (fun _ => 20) .ok
  | .receive _ (.failed _) => .receive (fun _ => 20) (.failed none)
  | .test => .test

theorem sameTransfer_filled (a : AsrAction) : SameTransfer a (filled a) := by
  cases a with
  | key t => exact .key t
  | select res t => exact .select res 20 t
  | receive registers r =>
      cases r with
      | ok => exact .received registers _
      | failed stored => exact .failed registers _ stored none
  | test => exact .test

theorem ownAfter_filled (own : Bool) (a : AsrAction) :
    ownAfter own (filled a) = ownAfter own a := by
  cases sameTransfer_filled a <;> rfl

/-- Which steps are possible does not depend on the data. -/
theorem step_filled {s s₂ s' : Asr} {a : AsrAction} (hphase : s₂.phase = s.phase)
    (h : s.step a = some s') : ∃ s₂', s₂.step (filled a) = some s₂' ∧ s₂'.phase = s'.phase := by
  cases a with
  | key t =>
      cases h
      refine ⟨_, rfl, ?_⟩
      rw [transmit_phase, transmit_phase, hphase]
  | select res t =>
      rcases step_select h with ⟨hpoll, hreceive, -⟩
      rw [filled, step, if_pos (hphase.trans hpoll)]
      refine ⟨_, rfl, ?_⟩
      rw [transmit_phase, hreceive]
  | receive registers r =>
      rcases step_receive h with ⟨hreceive, htest, -, -⟩
      cases r with
      | ok =>
          rw [filled, step, if_pos (hphase.trans hreceive)]
          exact ⟨_, rfl, htest.symm⟩
      | failed stored =>
          rw [filled, step, if_pos (hphase.trans hreceive)]
          exact ⟨_, rfl, htest.symm⟩
  | test =>
      rcases step_test h with ⟨htest, rfl⟩
      rw [filled, step, if_pos (hphase.trans htest)]
      exact ⟨_, rfl, rfl⟩

theorem exec_filled {s s₂ t : Asr} {as : List AsrAction} (hphase : s₂.phase = s.phase)
    (hrun : Execution.exec step s as = some t) :
    ∃ t₂, Execution.exec step s₂ (as.map filled) = some t₂ ∧ t₂.phase = t.phase := by
  induction as generalizing s s₂ with
  | nil =>
      cases hrun
      exact ⟨s₂, rfl, hphase⟩
  | cons a as ih =>
      rcases (Execution.exec_cons_eq_some_iff step).mp hrun with ⟨s', hs', hrest⟩
      rcases step_filled hphase hs' with ⟨s₂', hs₂', hphase'⟩
      rcases ih hphase' hrest with ⟨t₂, ht₂, hlast⟩
      exact ⟨t₂, (Execution.exec_cons_eq_some_iff step).mpr ⟨s₂', hs₂', ht₂⟩, hlast⟩

/-- While the thread receives in a filled run, its local holds the index of a city. -/
theorem res_filled {s s' : Asr} {a : AsrAction} (h : s.step (filled a) = some s')
    (hres : s.phase = .receive → s.res = 20) : s'.phase = .receive → s'.res = 20 := by
  intro hphase
  cases a with
  | key t =>
      cases h
      rw [transmit_phase] at hphase
      rw [transmit_res]
      exact hres hphase
  | select res t =>
      rw [filled, step] at h
      split_ifs at h
      cases h
      rw [transmit_res]
  | receive registers r =>
      cases r with
      | ok =>
          rw [(step_receive h).2.1] at hphase
          contradiction
      | failed stored =>
          rw [(step_receive h).2.1] at hphase
          contradiction
  | test =>
      rcases step_test h with ⟨-, rfl⟩
      contradiction

/-- A filled run in which every receive that leaves the index of a city is an answer is
undisturbed, since every receive leaves one. -/
theorem undisturbed_of_filled {s t : Asr} {as : List AsrAction}
    (hres : s.phase = .receive → s.res = 20)
    (hrun : Execution.exec step s (as.map filled) = some t)
    (hreads : Execution.AllSteps step ReadsAnswer s (as.map filled)) :
    Undisturbed (decide (s.register = ASR_RESULT)) as := by
  induction as generalizing s with
  | nil => trivial
  | cons a as ih =>
      rcases (Execution.exec_cons_eq_some_iff step).mp hrun with ⟨s', hs', hrest⟩
      have hlater := ih (res_filled hs' hres) hrest (hreads.2 s' hs')
      rw [register_step hs', ownAfter_filled] at hlater
      refine ⟨?_, hlater⟩
      cases a with
      | key t => trivial
      | select res t => trivial
      | receive registers r =>
          have hread : s.ReadsAnswer (filled (.receive registers r)) := hreads.1
          cases r with
          | ok =>
              rcases hread with hnone | hanswer
              · contradiction
              · exact ⟨rfl, decide_eq_true hanswer.2⟩
          | failed stored =>
              rcases hread with hnone | hanswer
              · rw [received, hres (step_receive hs').1] at hnone
                contradiction
              · cases hanswer.1
      | test => trivial

/-- In every run from between two polls, with any writes of the key interrupt in between and
any outcome of each transfer, the thread acts only on answers of the recogniser if each
receive succeeds and the last write that reached the module before it is one of the thread.
When the last poll of the run is completed, there is no weaker condition on the transfers and
the writes: without it, some content of the registers and the local makes the thread act on
something else. -/
theorem asr_polls_iff {s : Asr} (hs : s.phase = .poll) (as : List AsrAction) :
    (Undisturbed (decide (s.register = ASR_RESULT)) as →
        Execution.AllSteps step ActsOnAnswer s as) ∧
      ∀ t, Execution.exec step s as = some t → t.phase = .poll →
        ((∀ as', List.Forall₂ SameTransfer as as' → Execution.AllSteps step ActsOnAnswer s as') ↔
          Undisturbed (decide (s.register = ASR_RESULT)) as) := by
  have hacts {as' : List AsrAction} (h : Undisturbed (decide (s.register = ASR_RESULT)) as') :
      Execution.AllSteps step ActsOnAnswer s as' :=
    actsOnAnswer_of_readsAnswer hs (readsAnswer_of_undisturbed h)
  refine ⟨hacts, fun t hrun ht => ⟨fun hall => ?_, fun h as' hsame => ?_⟩⟩
  · have hsame : List.Forall₂ SameTransfer as (as.map filled) := by
      rw [List.forall₂_map_right_iff, List.forall₂_same]
      exact fun a _ => sameTransfer_filled a
    rcases exec_filled (Eq.refl s.phase) hrun with ⟨t', hrun', hphase⟩
    have hreads := readsAnswer_of_actsOnAnswer hrun' (hphase.trans ht) (hall _ hsame)
    refine undisturbed_of_filled ?_ hrun' hreads
    intro hreceive
    rw [hs] at hreceive
    contradiction
  · exact hacts (undisturbed_of_same hsame h)

/-- A poll with a key press before it acts on an answer whatever the module holds; one with a
key press between the two transfers does not. -/
theorem asr_polls_iff_answer :
    (∀ as', List.Forall₂ SameTransfer
        [.key .ok, .select 20 .ok, .receive (fun _ => 12) .ok, .test] as' →
      Execution.AllSteps step ActsOnAnswer ⟨.poll, 0, 0, none⟩ as') ∧
    ¬∀ as', List.Forall₂ SameTransfer
        [.select 20 .ok, .key .ok, .receive (fun _ => 12) .ok, .test] as' →
      Execution.AllSteps step ActsOnAnswer ⟨.poll, 0, 0, none⟩ as' := by
  constructor
  · refine ((asr_polls_iff rfl _).2 ⟨.poll, 8, 12, some 12⟩ rfl rfl).mpr ?_
    exact ⟨trivial, trivial, ⟨rfl, rfl⟩, trivial, trivial⟩
  · rw [(asr_polls_iff rfl _).2 ⟨.poll, 6, 12, none⟩ rfl rfl]
    rintro ⟨-, -, ⟨-, hown⟩, -, -⟩
    contradiction

/-- Both transfers fail, and the thread acts on what its local happened to hold. -/
theorem asr_acts_on_garbage :
    ¬∀ (s : Asr) (as : List AsrAction), s.phase = .poll →
      Execution.AllSteps step ActsOnAnswer s as := by
  intro h
  have hpoll := h ⟨.poll, 0, 0, none⟩
    [.select 20 (.failed false), .receive (fun _ => 255) (.failed none), .test] rfl
  have htest := ((hpoll.2 _ rfl).2 _ rfl).1 rfl 20 rfl
  contradiction

end Asr

end WeatherStation
