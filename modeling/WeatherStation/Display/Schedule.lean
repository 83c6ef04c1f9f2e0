import Mathlib.Data.Fintype.Defs
import WeatherStation.Display.Bus
import WeatherStation.Foundation.Execution

/-!
# Several threads on the display bus

Threads draw by sending the messages of their drawing calls; nothing in the
driver keeps two threads from sending in turns.  This module is the transition
system of all interleavings, for any number of threads and any lists of calls.

Main results:

- Theorem {lit}`separated_step`: as long as no thread begins a call while another
  one is inside a call, all remaining messages will be taken as meant.
- Theorem {lit}`allSteps_clean`: in such runs every message is taken as meant.
- Theorem {lit}`panel_of_separated`: and the panel shows the calls painted in the
  order in which they began.
-/

open Foundation

namespace WeatherStation

variable {ι : Type} [DecidableEq ι]

/-- A drawing thread: the rest of the call it is inside of, and its later calls. -/
structure DrawTask where
  current : List BusEvent
  later : List Draw

/-- The controller, the threads, and the calls begun so far, in order. -/
structure BusState (ι : Type) where
  lcd : Lcd
  task : ι → DrawTask
  begun : List Draw

/-- A thread enters its next call, or sends the next message of its present one. -/
inductive BusAction (ι : Type) where
  | begin (t : ι)
  | send (t : ι)

namespace BusState

/-- Threads that are about to run the given calls. -/
def initial (lcd : Lcd) (program : ι → List Draw) : BusState ι where
  lcd := lcd
  task t := ⟨[], program t⟩
  begun := []

/-- One step of one thread. -/
def step (s : BusState ι) : BusAction ι → Option (BusState ι)
  | .begin t =>
      match s.task t with
      | ⟨[], d :: later⟩ =>
          some { s with
            task := Function.update s.task t ⟨d.events, later⟩
            begun := s.begun ++ [d] }
      | _ => none
  | .send t =>
      match s.task t with
      | ⟨e :: current, later⟩ =>
          some { s with
            lcd := s.lcd.receive e
            task := Function.update s.task t ⟨current, later⟩ }
      | _ => none

/-- The message that a step sends is taken as its sender means it. -/
def CleanStep (s : BusState ι) (a : BusAction ι) : Prop :=
  ∀ t e current, a = .send t → (s.task t).current = e :: current → s.lcd.Clean e

/-- A thread begins a call only when no other thread is inside one. -/
def SeparatedStep (s : BusState ι) (a : BusAction ι) : Prop :=
  ∀ t, a = .begin t → ∀ t', t' ≠ t → (s.task t').current = []

instance [Fintype ι] (s : BusState ι) (a : BusAction ι) : Decidable (SeparatedStep s a) :=
  match a with
  | .begin t =>
      decidable_of_iff (∀ t', t' ≠ t → (s.task t').current = [])
        ⟨fun h _ ht => BusAction.begin.inj ht ▸ h, fun h => h t rfl⟩
  | .send _ => .isTrue (by rintro _ ⟨⟩)

/-- What a step needs and what it changes. -/
theorem step_cases {s s' : BusState ι} {a : BusAction ι} (h : s.step a = some s') :
    (∃ t d later, a = .begin t ∧ s.task t = ⟨[], d :: later⟩ ∧
      s' = { s with
        task := Function.update s.task t ⟨d.events, later⟩
        begun := s.begun ++ [d] }) ∨
    ∃ t e current later, a = .send t ∧ s.task t = ⟨e :: current, later⟩ ∧
      s' = { s with
        lcd := s.lcd.receive e
        task := Function.update s.task t ⟨current, later⟩ } := by
  cases a with
  | begin t =>
      rcases htask : s.task t with ⟨_ | ⟨e, current⟩, _ | ⟨d, later⟩⟩
      · simp [step, htask] at h
      · simp only [step, htask, Option.some.injEq] at h
        exact .inl ⟨t, d, later, rfl, htask, h.symm⟩
      · simp [step, htask] at h
      · simp [step, htask] at h
  | send t =>
      rcases htask : s.task t with ⟨_ | ⟨e, current⟩, later⟩
      · simp [step, htask] at h
      · simp only [step, htask, Option.some.injEq] at h
        exact .inr ⟨t, e, current, later, rfl, htask, h.symm⟩

/-- The invariant of separated runs: at most one thread is inside a call, and what
it has still to send will be taken as meant and completes the picture of all
calls begun so far. -/
structure Separated (panel : Panel) (s : BusState ι) : Prop where
  single : ∀ t t', (s.task t).current ≠ [] → (s.task t').current ≠ [] → t = t'
  clean : ∀ t, s.lcd.CleanRun (s.task t).current
  painted : ∀ t, (∀ t', t' ≠ t → (s.task t').current = []) →
    (s.lcd.receiveAll (s.task t).current).panel =
      Canvas.paintAll panel (s.begun.map Draw.layer)
  valid : ∀ t, ∀ d ∈ (s.task t).later, d.Valid

omit [DecidableEq ι] in
theorem separated_initial {lcd : Lcd} {program : ι → List Draw}
    (hvalid : ∀ t, ∀ d ∈ program t, d.Valid) : Separated lcd.panel (initial lcd program) where
  single _ _ h := absurd rfl h
  clean _ := trivial
  painted _ _ := rfl
  valid := hvalid

omit [DecidableEq ι] in
/-- The invariant holds when only one thread can be inside a call and the rest of
its call is as it should be. -/
theorem separated_of_others {panel : Panel} {s : BusState ι} (t : ι)
    (hothers : ∀ t', t' ≠ t → (s.task t').current = [])
    (hclean : s.lcd.CleanRun (s.task t).current)
    (hpainted : (s.lcd.receiveAll (s.task t).current).panel =
      Canvas.paintAll panel (s.begun.map Draw.layer))
    (hvalid : ∀ t, ∀ d ∈ (s.task t).later, d.Valid) : Separated panel s where
  single t₁ t₂ h₁ h₂ := by
    have hself (t₀ : ι) (h₀ : (s.task t₀).current ≠ []) : t₀ = t := by
      by_contra hne
      exact h₀ (hothers t₀ hne)
    rw [hself t₁ h₁, hself t₂ h₂]
  clean t₁ := by
    by_cases hne : t₁ = t
    · exact hne ▸ hclean
    · rw [hothers t₁ hne]
      trivial
  painted t₁ h₁ := by
    by_cases hne : t₁ = t
    · exact hne ▸ hpainted
    · rw [h₁ t (Ne.symm hne)] at hpainted
      rwa [hothers t₁ hne]
  valid := hvalid

/-- A step that begins no call inside another one keeps the invariant. -/
theorem separated_step {panel : Panel} {s s' : BusState ι} {a : BusAction ι}
    (hs : Separated panel s) (ha : SeparatedStep s a) (h : s.step a = some s') :
    Separated panel s' := by
  -- The later calls of a thread are those it had before, or fewer.
  have hlater {t : ι} {task : DrawTask} (htask : ∀ d ∈ task.later, d ∈ (s.task t).later) :
      ∀ t', ∀ d ∈ (Function.update s.task t task t').later, d.Valid := by
    intro t' d hd
    by_cases hne : t' = t
    · subst hne
      rw [Function.update_self] at hd
      exact hs.valid t' d (htask d hd)
    · rw [Function.update_of_ne hne] at hd
      exact hs.valid t' d hd
  rcases step_cases h with ⟨t, d, later, rfl, htask, rfl⟩ | ⟨t, e, current, later, rfl, htask, rfl⟩
  · have hothers := ha t rfl
    have hdraw := Lcd.receiveAll_draw s.lcd (hs.valid t d (by simp [htask]))
    have hpanel : s.lcd.panel = Canvas.paintAll panel (s.begun.map Draw.layer) := by
      simpa [htask, Lcd.receiveAll] using hs.painted t hothers
    refine separated_of_others t (fun t' hne => ?_) ?_ ?_ (hlater (by simp +contextual [htask]))
    · simpa [Function.update_of_ne hne] using hothers t' hne
    · simpa using hdraw.1
    · -- The picture of the new call comes on top.
      rw [List.map_append, Canvas.paintAll_append, ← hpanel]
      simpa using hdraw.2
  · have hothers : ∀ t', t' ≠ t → (s.task t').current = [] := by
      intro t' hne
      by_contra hcur
      exact hne (hs.single t' t hcur (by simp [htask]))
    have hclean := hs.clean t
    have hpanel := hs.painted t hothers
    rw [htask] at hclean hpanel
    refine separated_of_others t (fun t' hne => ?_) ?_ ?_ (hlater (by simp [htask]))
    · simpa [Function.update_of_ne hne] using hothers t' hne
    · simpa using hclean.2
    · rw [← hpanel]
      simp [Lcd.receiveAll]

omit [DecidableEq ι] in
/-- Under the invariant every message is taken as meant. -/
theorem cleanStep_of_separated {panel : Panel} {s : BusState ι} {a : BusAction ι}
    (hs : Separated panel s) : CleanStep s a := by
  rintro t e current - hcur
  have hclean := hs.clean t
  rw [hcur] at hclean
  exact hclean.1

/-- In a run in which no call begins inside another one, every message is taken as
its sender means it. -/
theorem allSteps_clean {lcd : Lcd} {program : ι → List Draw} {as : List (BusAction ι)}
    (hvalid : ∀ t, ∀ d ∈ program t, d.Valid)
    (hsep : Execution.AllSteps step SeparatedStep (initial lcd program) as) :
    Execution.AllSteps step CleanStep (initial lcd program) as :=
  Execution.allSteps_of_invariant (fun _ _ _ hs ha h => separated_step hs ha h)
    (fun _ _ hs _ => cleanStep_of_separated hs) (separated_initial hvalid) hsep

/-- At its end, when no call is under way, the panel shows the calls in the order in
which they began. -/
theorem panel_of_separated {lcd : Lcd} {program : ι → List Draw} {as : List (BusAction ι)}
    {s : BusState ι} (hvalid : ∀ t, ∀ d ∈ program t, d.Valid)
    (hsep : Execution.AllSteps step SeparatedStep (initial lcd program) as)
    (hrun : Execution.exec step (initial lcd program) as = some s)
    (hidle : ∀ t, (s.task t).current = []) [Nonempty ι] :
    s.lcd.panel = Canvas.paintAll lcd.panel (s.begun.map Draw.layer) := by
  have hs : Separated lcd.panel s :=
    Execution.exec_invariant (fun _ _ _ hs ha h => separated_step hs ha h)
      (separated_initial hvalid) hsep hrun
  rcases ‹Nonempty ι› with ⟨t⟩
  have hpanel := hs.painted t fun t' _ => hidle t'
  rwa [hidle t] at hpanel

end BusState

end WeatherStation
