import Mathlib.Data.Finset.Insert
import WeatherStation.Display.Schedule
import WeatherStation.Display.Screen

/-!
# The weather screen drawn by several threads

{lit}`show_weather` is called by the UI thread every ten seconds and, through
{lit}`change_city`, by the key and the voice thread.  Every call draws with the
globals and the weather data that it finds when it begins; a call of
{lit}`Show_BMP` begins with opening its file.

Main results:

- Theorem {lit}`screenDraw_showWeather`: the calls of a thread belong to the screen,
  whatever it finds.
- Theorem {lit}`isolated_of_separated`: when no thread begins a drawing call while
  another one is inside a call, all messages are taken as meant.
- Theorem {lit}`panel_of_isolated`: and the panel shows the calls in the order in which
  they began.
-/

open Foundation

namespace WeatherStation

/-- The threads that call {lit}`show_weather`. -/
inductive DrawThread where
  | ui
  | key
  | voice
deriving DecidableEq

instance : Fintype DrawThread where
  elems := {.ui, .key, .voice}
  complete t := by cases t <;> decide

/-- A drawing call of {lit}`show_weather`: the clearing in some colour or a call of some
part of the screen, for whatever globals and data the thread finds. -/
inductive ScreenDraw (env : DisplayEnv) : Draw → Prop where
  | clear (color : UInt16) : ScreenDraw env (lcdClear env color)
  | part (ui : Ui) (s : Scene) (i : ScreenItem) {d : Draw} (h : d ∈ s.draws env ui i) :
      ScreenDraw env d

theorem ScreenDraw.valid {env : DisplayEnv} (h : ShippedIcons env) {d : Draw}
    (hd : ScreenDraw env d) : d.Valid := by
  cases hd with
  | clear color => exact valid_lcdClear env color
  | part ui s i hd => exact s.valid_draws h ui i d hd

/-- All calls of a screen are such drawing calls. -/
theorem screenDraw_showWeather (env : DisplayEnv) (ui : Ui) (s : Scene) :
    ∀ d ∈ (showWeather env ui s).2, ScreenDraw env d :=
  forall_mem_showWeather env .clear (fun ui i _ hd => .part ui s i hd) ui

/-- In every schedule in which no thread begins a drawing call while another one is
inside a call, every half-word is stored in the window that its own call opened and
no data byte is taken as a command. -/
theorem isolated_of_separated {env : DisplayEnv} (h : ShippedIcons env) (lcd : Lcd)
    (program : DrawThread → List Draw) (hprogram : ∀ t, ∀ d ∈ program t, ScreenDraw env d)
    (as : List (BusAction DrawThread))
    (hsep : Execution.AllSteps BusState.step BusState.SeparatedStep
      (BusState.initial lcd program) as) :
    Execution.AllSteps BusState.step BusState.CleanStep (BusState.initial lcd program) as :=
  BusState.allSteps_clean (fun t d hd => (hprogram t d hd).valid h) hsep

/-- The UI thread and the key thread are about to draw the line of the screen. -/
def lineProgram : DrawThread → List Draw
  | .voice => []
  | _ => (sampleScene 9).draws sampleEnv Ui.boot .line

theorem screenDraw_lineProgram : ∀ t, ∀ d ∈ lineProgram t, ScreenDraw sampleEnv d := by
  intro t d hd
  cases t with
  | voice => exact absurd hd List.not_mem_nil
  | ui => exact .part Ui.boot (sampleScene 9) .line hd
  | key => exact .part Ui.boot (sampleScene 9) .line hd

/-- A controller that has received nothing. -/
def idleLcd : Lcd where
  dc := true
  cmd := 0
  params := []
  window := ⟨0, 0, 239, 239⟩
  col := 0
  row := 0
  high := none
  panel _ := 0

/-- One thread draws its line after the other. -/
theorem isolated_of_separated_sample :
    Execution.AllSteps BusState.step BusState.CleanStep (BusState.initial idleLcd lineProgram)
      (.begin .ui :: List.replicate 24 (.send .ui) ++
        .begin .key :: List.replicate 24 (.send .key)) :=
  isolated_of_separated shippedIcons_sampleEnv idleLcd lineProgram screenDraw_lineProgram _
    (by decide +kernel)

/-- When the key thread sets the pin for its first command before the UI thread sends a
coordinate, the coordinate is taken as a command. -/
theorem not_always_isolated :
    ¬∀ (env : DisplayEnv) (lcd : Lcd) (program : DrawThread → List Draw)
        (as : List (BusAction DrawThread)),
      ShippedIcons env → (∀ t, ∀ d ∈ program t, ScreenDraw env d) →
        Execution.AllSteps BusState.step BusState.CleanStep (BusState.initial lcd program) as := by
  intro h
  have hclean := h sampleEnv idleLcd lineProgram
    [.begin .ui, .send .ui, .send .ui, .send .ui, .begin .key, .send .key, .send .ui]
    shippedIcons_sampleEnv screenDraw_lineProgram
  have hlast := (((((((hclean.2 _ rfl).2 _ rfl).2 _ rfl).2 _ rfl).2 _ rfl).2 _ rfl).1)
    .ui _ _ rfl rfl
  exact hlast (by decide)

/-- In such a schedule the panel shows, when no call is under way, the calls in the
order in which they began. -/
theorem panel_of_isolated {env : DisplayEnv} (h : ShippedIcons env) {lcd : Lcd}
    {program : DrawThread → List Draw} (hprogram : ∀ t, ∀ d ∈ program t, ScreenDraw env d)
    {as : List (BusAction DrawThread)} {s : BusState DrawThread}
    (hsep : Execution.AllSteps BusState.step BusState.SeparatedStep
      (BusState.initial lcd program) as)
    (hrun : Execution.exec BusState.step (BusState.initial lcd program) as = some s)
    (hidle : ∀ t, (s.task t).current = []) :
    s.lcd.panel = Canvas.paintAll lcd.panel (s.begun.map Draw.layer) :=
  haveI : Nonempty DrawThread := ⟨.ui⟩
  BusState.panel_of_separated (fun t d hd => (hprogram t d hd).valid h) hsep hrun hidle

end WeatherStation
