import WeatherStation.Foundation.Execution
import WeatherStation.Weather.TornUpdate

/-!
# Refreshes from three threads

The weather thread fetches periodically; the key and the voice thread call
{lit}`change_city`, which sets {lit}`area_id` and fetches.  A fetch reads
{lit}`area_id` when it sends its request and writes the globals when it parses
the answer.  Nothing orders the answers: this module is the transition system of
all interleavings.

Main results:

- Theorem {lit}`holdsLast_of_reachable`: the globals hold the city whose answer
  was parsed last.
- Theorem {lit}`refresh_of_quiescent`: they hold the city {lit}`area_id` when every
  answer was parsed before {lit}`area_id` moved on.
-/

open Foundation

namespace WeatherStation

/-- The threads that call {lit}`fetch_weather`. -/
inductive Thread where
  | weather
  | key
  | voice
deriving DecidableEq

/-- Where a thread stands. -/
inductive Phase where
  /-- No request of this thread is pending. -/
  | idle
  /-- {lit}`change_city` has set {lit}`area_id` and will fetch next. -/
  | changed
  /-- The request for {lit}`id` was sent and its answer is not parsed yet. -/
  | waiting (id : Int)
deriving DecidableEq

/-- The shared state and the position of each thread.  The last two members only
record what happened: the request whose answer was parsed last, and whether a
fetch has failed. -/
structure Refresh where
  area_id : Int
  globals : Globals
  phase : Thread → Phase
  lastParsed : Option Int
  failed : Bool

/-- The state before the first fetch. -/
def Refresh.initial (g : Globals) : Refresh where
  area_id := 265
  globals := g
  phase _ := .idle
  lastParsed := none
  failed := false

/-- What a thread can do next. -/
inductive RefreshAction where
  /-- {lit}`change_city(id)` assigns {lit}`area_id`. -/
  | changeCity (t : Thread) (id : Int)
  /-- {lit}`fetch_weather` sends the request for {lit}`area_id`. -/
  | send (t : Thread)
  /-- The answer arrives and is parsed. -/
  | parse (t : Thread)
  /-- The fetch ends without an answer. -/
  | fail (t : Thread)

/-- A thread may send when it is about to fetch: the weather thread at any time,
the other two after they set {lit}`area_id`. -/
def canSend : Thread → Phase → Bool
  | .weather, .idle => true
  | .weather, _ => false
  | _, .changed => true
  | _, _ => false

/-- One step of one thread; {lit}`answer id` is the response for a city. -/
def Refresh.step (env : ParseEnv) (answer : Int → List UInt8) (s : Refresh) :
    RefreshAction → Option Refresh
  | .changeCity t id =>
      if t ≠ .weather ∧ s.phase t = .idle then
        some { s with area_id := id, phase := Function.update s.phase t .changed }
      else none
  | .send t =>
      if canSend t (s.phase t) then
        some { s with phase := Function.update s.phase t (.waiting s.area_id) }
      else none
  | .parse t =>
      match s.phase t with
      | .waiting id =>
          some { s with
            globals := (weatherDataParse env (answer id)).run s.globals
            phase := Function.update s.phase t .idle
            lastParsed := some id }
      | _ => none
  | .fail t =>
      match s.phase t with
      | .waiting _ => some { s with phase := Function.update s.phase t .idle, failed := true }
      | _ => none

/-- No thread is between the start and the end of a fetch. -/
def Refresh.Quiescent (s : Refresh) : Prop :=
  ∀ t, s.phase t = .idle

/-- The globals hold the data of a city. -/
def HoldsCity (env : ParseEnv) (city : Int → Field → CStr) (g : Globals) (id : Int) : Prop :=
  ∀ f : Field, f.read g = f.decode env.utf82gbk (city id f)

/-- The step that parses an answer does so while {lit}`area_id` is still the city
that was requested. -/
def TimelyStep (s : Refresh) (a : RefreshAction) : Prop :=
  ∀ t id, a = .parse t → s.phase t = .waiting id → id = s.area_id

/-- Whether a step is timely is seen from where its thread stands. -/
instance (s : Refresh) : ∀ a, Decidable (TimelyStep s a)
  | .changeCity _ _ => .isTrue fun _ _ h => by cases h
  | .send _ => .isTrue fun _ _ h => by cases h
  | .fail _ => .isTrue fun _ _ h => by cases h
  | .parse t => decidable_of_iff (s.phase t = .idle ∨ s.phase t = .changed ∨
      s.phase t = .waiting s.area_id) <| by
        constructor
        · rintro h t' id ⟨⟩ hwait
          simpa [hwait] using h
        · intro h
          cases hphase : s.phase t with
          | idle => exact .inl rfl
          | changed => exact .inr (.inl rfl)
          | waiting id => exact .inr (.inr (congrArg Phase.waiting (h t id rfl hphase)))

/-! ## What each step does -/

section Steps

variable {env : ParseEnv} {answer : Int → List UInt8} {s s' : Refresh}

/-- Every step is one of four, each with what it needs and what it changes. -/
theorem step_cases {a : RefreshAction} (h : s.step env answer a = some s') :
    (∃ t id, s.phase t = .idle ∧
      s' = { s with area_id := id, phase := Function.update s.phase t .changed }) ∨
    (∃ t, canSend t (s.phase t) = true ∧
      s' = { s with phase := Function.update s.phase t (.waiting s.area_id) }) ∨
    (∃ t id, a = .parse t ∧ s.phase t = .waiting id ∧
      s' = { s with
        globals := (weatherDataParse env (answer id)).run s.globals
        phase := Function.update s.phase t .idle
        lastParsed := some id }) ∨
    ∃ t id, s.phase t = .waiting id ∧
      s' = { s with phase := Function.update s.phase t .idle, failed := true } := by
  cases a with
  | changeCity t id =>
      simp only [Refresh.step, Option.ite_none_right_eq_some, Option.some.injEq] at h
      exact .inl ⟨t, id, h.1.2, h.2.symm⟩
  | send t =>
      simp only [Refresh.step, Option.ite_none_right_eq_some, Option.some.injEq] at h
      exact .inr (.inl ⟨t, h.1, h.2.symm⟩)
  | parse t =>
      cases hphase : s.phase t with
      | waiting id =>
          simp only [Refresh.step, hphase, Option.some.injEq] at h
          exact .inr (.inr (.inl ⟨t, id, rfl, hphase, h.symm⟩))
      | idle => simp [Refresh.step, hphase] at h
      | changed => simp [Refresh.step, hphase] at h
  | fail t =>
      cases hphase : s.phase t with
      | waiting id =>
          simp only [Refresh.step, hphase, Option.some.injEq] at h
          exact .inr (.inr (.inr ⟨t, id, hphase, h.symm⟩))
      | idle => simp [Refresh.step, hphase] at h
      | changed => simp [Refresh.step, hphase] at h

variable {city : Int → Field → CStr}

/-- The globals hold the city whose answer was parsed last. -/
def HoldsLast (env : ParseEnv) (city : Int → Field → CStr) (s : Refresh) : Prop :=
  ∀ id, s.lastParsed = some id → HoldsCity env city s.globals id

/-- Only a parse touches the globals, and it replaces them as a whole. -/
theorem holdsLast_step (hcity : ∀ id, WellFormed env (answer id) (city id))
    {a : RefreshAction} (hs : HoldsLast env city s) (h : s.step env answer a = some s') :
    HoldsLast env city s' := by
  rcases step_cases h with ⟨t, id, -, rfl⟩ | ⟨t, -, rfl⟩ | ⟨t, id, -, -, rfl⟩ | ⟨t, id, -, rfl⟩
  · exact hs
  · exact hs
  · rintro id' hid f
    obtain rfl : id = id' := Option.some.inj hid
    exact (hcity id).read_run s.globals f
  · exact hs

/-- Some thread is going to parse an answer for the present {lit}`area_id`. -/
def Pending (s : Refresh) : Prop :=
  ∃ t, s.phase t = .changed ∨ s.phase t = .waiting s.area_id

/-- The invariant of timely runs: unless a fetch failed or nothing was parsed, the
globals hold {lit}`area_id` or are about to. -/
def CurrentOrPending (s : Refresh) : Prop :=
  s.failed = true ∨ s.lastParsed = none ∨ s.lastParsed = some s.area_id ∨ Pending s

/-- A timely step keeps the invariant. -/
theorem currentOrPending_step {a : RefreshAction} (hs : CurrentOrPending s)
    (htimely : TimelyStep s a) (h : s.step env answer a = some s') : CurrentOrPending s' := by
  rcases step_cases h with
    ⟨t, id, -, rfl⟩ | ⟨t, hsend, rfl⟩ | ⟨t, id, ha, hwait, rfl⟩ | ⟨t, id, -, rfl⟩
  · -- The thread that set `area_id` will ask for it.
    exact .inr (.inr (.inr ⟨t, .inl (Function.update_self t _ _)⟩))
  · refine hs.imp_right (Or.imp_right (Or.imp_right fun _ => ?_))
    exact ⟨t, .inr (Function.update_self t _ _)⟩
  · obtain rfl : id = s.area_id := htimely t id ha hwait
    exact .inr (.inr (.inl rfl))
  · exact .inl rfl

/-- In a quiescent state nothing is pending. -/
theorem not_pending_of_quiescent (hq : s.Quiescent) : ¬Pending s := by
  rintro ⟨t, h | h⟩ <;> rw [hq t] at h <;> contradiction

end Steps

/-! ## Runs -/

section Runs

variable {env : ParseEnv} {answer : Int → List UInt8} {city : Int → Field → CStr}

/-- In every reachable state the globals hold the city whose answer was parsed
last, if any was. -/
theorem holdsLast_of_reachable (hcity : ∀ id, WellFormed env (answer id) (city id))
    {g : Globals} {as : List RefreshAction} {s : Refresh}
    (hrun : Execution.exec (Refresh.step env answer) (.initial g) as = some s) :
    HoldsLast env city s :=
  Execution.exec_invariant_of_step (fun _ _ _ hs h => holdsLast_step hcity hs h)
    (fun _ h => absurd h (by simp [Refresh.initial])) hrun

/-- In every reachable quiescent state in which all fetches succeeded and at least
one was made, the globals hold the city whose answer was parsed last; that city is
{lit}`area_id` if every answer was parsed before {lit}`area_id` moved on. -/
theorem refresh_of_quiescent (hcity : ∀ id, WellFormed env (answer id) (city id))
    {g : Globals} {as : List RefreshAction} {s : Refresh}
    (hrun : Execution.exec (Refresh.step env answer) (.initial g) as = some s)
    (hq : s.Quiescent) (hok : s.failed = false) (hsome : s.lastParsed.isSome) :
    (∃ id, s.lastParsed = some id ∧ HoldsCity env city s.globals id) ∧
      (Execution.AllSteps (Refresh.step env answer) TimelyStep (.initial g) as →
        HoldsCity env city s.globals s.area_id) := by
  have hlast := holdsLast_of_reachable hcity hrun
  rcases Option.isSome_iff_exists.mp hsome with ⟨id, hid⟩
  refine ⟨⟨id, hid, hlast id hid⟩, fun htimely => ?_⟩
  have hinv : CurrentOrPending s :=
    Execution.exec_invariant (fun _ _ _ hs hP h => currentOrPending_step hs hP h)
      (.inr (.inl rfl)) htimely hrun
  rcases hinv with hfailed | hnone | hcurrent | hpending
  · rw [hok] at hfailed
    contradiction
  · rw [hid] at hnone
    contradiction
  · exact hlast s.area_id hcurrent
  · exact absurd hpending (not_pending_of_quiescent hq)

end Runs

/-! ## A late answer -/

/-- Two cities with the two sample responses. -/
def twoCities (id : Int) : Field → CStr :=
  if id = 36 then otherStrings else sampleStrings

/-- The responses for the two cities. -/
def twoCitiesAnswer (id : Int) : List UInt8 :=
  (responseTree (twoCities id)).render

theorem wellFormed_twoCities (id : Int) :
    WellFormed twoResponsesEnv (twoCitiesAnswer id) (twoCities id) := by
  unfold twoCitiesAnswer twoCities
  split_ifs
  · exact wellFormed_otherStrings
  · exact wellFormed_sampleStrings

/-- The weather thread fetches, and fetches again while the key thread has changed the city. -/
def timelyRefreshes : List RefreshAction :=
  [.send .weather, .parse .weather, .changeCity .key 36, .send .weather, .send .key,
    .parse .key, .parse .weather]

theorem refresh_of_quiescent_sample :
    ∃ s, Execution.exec (Refresh.step twoResponsesEnv twoCitiesAnswer)
        (.initial sampleGlobals) timelyRefreshes = some s ∧
      s.area_id = 36 ∧ HoldsCity twoResponsesEnv twoCities s.globals 36 := by
  have hrun : Execution.exec (Refresh.step twoResponsesEnv twoCitiesAnswer)
      (.initial sampleGlobals) timelyRefreshes = some _ := rfl
  have htimely : Execution.AllSteps (Refresh.step twoResponsesEnv twoCitiesAnswer) TimelyStep
      (.initial sampleGlobals) timelyRefreshes := by decide
  refine ⟨_, hrun, rfl, ?_⟩
  refine (refresh_of_quiescent wellFormed_twoCities hrun ?_ rfl rfl).2 htimely
  intro t
  cases t <;> rfl

/-- The weather thread asks for the default city, the key thread changes it and
gets its answer first: the late answer brings the old city back. -/
theorem refresh_not_always_area_id :
    ¬∀ (env : ParseEnv) (answer : Int → List UInt8) (city : Int → Field → CStr) (g : Globals)
        (as : List RefreshAction) (s : Refresh),
      (∀ id, WellFormed env (answer id) (city id)) →
      Execution.exec (Refresh.step env answer) (.initial g) as = some s →
      s.Quiescent → s.failed = false → s.lastParsed.isSome →
        HoldsCity env city s.globals s.area_id := by
  intro h
  have hrun : ∃ s, Execution.exec (Refresh.step twoResponsesEnv twoCitiesAnswer)
      (.initial sampleGlobals)
      [.send .weather, .changeCity .key 36, .send .key, .parse .key, .parse .weather] = some s ∧
      s.Quiescent ∧ s.failed = false ∧ s.lastParsed = some 265 ∧ s.area_id = 36 := by
    refine ⟨_, rfl, ?_, rfl, rfl, rfl⟩
    intro t
    cases t <;> rfl
  rcases hrun with ⟨s, hs, hq, hok, hlast, harea⟩
  have hnew := h _ _ _ _ _ s wellFormed_twoCities hs hq hok (by rw [hlast]; rfl) .aqi
  have hold := holdsLast_of_reachable wellFormed_twoCities hs 265 hlast .aqi
  rw [hold, harea] at hnew
  exact absurd hnew (by decide)

end WeatherStation
