import WeatherStation.Display.Picture
import WeatherStation.Display.Text
import WeatherStation.Weather.Data

/-!
# The weather screen

{lit}`show_weather` in the order of its drawing calls.  It clears the screen only
when the display mode has changed; otherwise each text and picture is drawn over
what was there.

Main results:

- Theorem {lit}`isSome_icon_iff`: a picture opens exactly when its path is terminated
  and names a shipped file.
- Theorem {lit}`valid_showWeather`: with the shipped pictures all drawing calls of the
  screen are valid.
- Theorem {lit}`showWeather_no_overrun`: no text runs past its terminator.
-/

open Foundation

namespace WeatherStation

/-! ## Pictures of the weather -/

/-- {lit}`LIGHT` -/
def LIGHT : Bool := true

/-- {lit}`DARK` -/
def DARK : Bool := false

/-- {lit}`PIC` -/
def PIC : Bool := true

/-- {lit}`ICON` -/
def ICON : Bool := false

/-- The characters of a string literal. -/
def literal (s : String) : List UInt8 :=
  s.toList.map fun c => UInt8.ofNat c.toNat

/-- {lit}`get_weather_name_by_id` -/
def getWeatherNameById (wtId : UInt8) : List UInt8 :=
  if wtId = 1 then literal "sunny"
  else if wtId = 2 then literal "cloudy"
  else if wtId = 3 then literal "overcast"
  else if wtId ∈ [4, 7, 8, 9, 10, 11, 12, 13, 20, 22, 23, 24, 25, 26, 41, 5, 6] then literal "rain"
  else if wtId ∈ [19, 21, 30, 31, 32, 33, 34, 35, 36, 37, 38, 39, 40] then literal "foggy"
  else if wtId ∈ [14, 15, 16, 17, 18, 27, 28, 29, 42] then literal "snow"
  else literal "unknow"

/-- The path of a picture by display mode, size and name. -/
def iconPath (display_mode size : Bool) (name : List UInt8) : List UInt8 :=
  literal "/" ++ (if display_mode then literal "day" else literal "night") ++
    (if size then [] else literal "_small") ++ literal "/" ++ name ++ literal ".bmp"

/-- The length of the string at the start of a block. -/
def rtStrlen (bs : List UInt8) : Nat :=
  (bs.takeWhile (· ≠ 0)).length

/-- {lit}`get_weather_icon_path` on the memory from {lit}`path` on: what the string there
covers is zeroed, and the new path is copied without a terminator. -/
def getWeatherIconPath (display_mode : Bool) (path : List UInt8) (wtId : UInt8) (size : Bool) :
    List UInt8 :=
  let path := List.replicate (rtStrlen path) 0 ++ path.drop (rtStrlen path)
  let res_path := iconPath display_mode size (getWeatherNameById wtId)
  res_path ++ path.drop res_path.length

/-- The call of {lit}`Show_BMP` for the path at the start of a block; its buffer is
allocated. -/
def DisplayEnv.bmpCall (env : DisplayEnv) (x y : Nat) (path : List UInt8) : BmpCall where
  point_x := x
  point_y := y
  file := env.icons (path.takeWhile (· ≠ 0))
  mallocOk := true
  heap := env.heap

/-! ## What is shown -/

/-- {lit}`sizeof(Realtime)` -/
def realtimeSize : Nat := 44

/-- The string in a character array of {lit}`rt`; without a terminator it goes on with
the members behind the array. -/
def nameString (rt : Memory) (n : NameField) : List UInt8 :=
  (rt.read n.offset (realtimeSize - n.offset)).takeWhile (· ≠ 0)

/-- What a call of {lit}`show_weather` sees: the weather data, the minute of the day,
and the memory from its array {lit}`bmp_path` on, which it does not initialise. -/
structure Scene where
  globals : Globals
  now : Fin 1440
  bmp_path : List UInt8

namespace Scene

/-- {lit}`rt.wtId` -/
def wtId (s : Scene) : UInt8 := s.globals.rt wtIdOffset

/-- {lit}`rt.aqi` -/
def aqi (s : Scene) : Int := s.globals.rt.readInt32 aqiOffset

/-- {lit}`rt.temp` -/
def temp (s : Scene) : Int := s.globals.rt.readInt32 tempOffset

/-- {lit}`rt.humi` -/
def humi (s : Scene) : Int := (s.globals.rt humiOffset).toNat

/-- The array {lit}`city`. -/
def city (s : Scene) : List UInt8 :=
  rtSprintf [.s (nameString s.globals.rt .area_1), .text (literal " "),
    .s (nameString s.globals.rt .area_2), .text (literal "     ")]

/-- The array {lit}`weather_name`. -/
def weather_name (s : Scene) : List UInt8 :=
  rtSprintf [.s (nameString s.globals.rt .wtNm), .text (literal "     ")]

/-- The array {lit}`time_str`: five characters of {lit}`ctime`. -/
def time_str (s : Scene) : List UInt8 :=
  let digit (n : Nat) : UInt8 := UInt8.ofNat (48 + n % 10)
  [digit (s.now / 60 / 10), digit (s.now / 60), 58, digit (s.now % 60 / 10), digit (s.now % 60)]

/-- The array {lit}`aqi_state`. -/
def aqi_state (s : Scene) : List UInt8 :=
  let state : List UInt8 :=
    if s.aqi ≤ 50 then [0xD3, 0xC5, 0xD0, 0xE3]
    else if s.aqi ≤ 100 then [0xC1, 0xBC, 0xBA, 0xC3]
    else [0xCE, 0xDB, 0xC8, 0xBE]
  rtSprintf [.d 3 s.aqi, .text (literal "  "), .text state, .text (literal " ")]

/-- The background of {lit}`aqi_state`. -/
def aqiColor (s : Scene) : UInt16 :=
  if s.aqi ≤ 50 then 0x9628 else if s.aqi ≤ 100 then 0xffe else 0xf800

/-- The array {lit}`temp_state`. -/
def temp_state (s : Scene) : List UInt8 :=
  rtSprintf [.text [0xCE, 0xC2, 0xB6, 0xC8], .text (literal ":  "), .d (-1) s.temp]

/-- The array {lit}`humi_state`. -/
def humi_state (s : Scene) : List UInt8 :=
  rtSprintf [.text [0xCA, 0xAA, 0xB6, 0xC8], .text (literal ":  "), .d (-1) s.humi]

/-- The text of the temperatures of a day. -/
def forecast (s : Scene) (d : Fin 3) : List UInt8 :=
  showText [.d (-1) (s.globals.wt d).Temp_L, .text (literal " /"),
    .d (-1) (s.globals.wt d).Temp_H, .text (literal "  ")]

/-- The weather of a day in a display mode. -/
def dayId (s : Scene) (display_mode : Bool) (d : Fin 3) : UInt8 :=
  if display_mode = LIGHT then (s.globals.wt d).D_wtId else (s.globals.wt d).N_wtId

/-- The array {lit}`bmp_path` for the picture of the present weather. -/
def bmpPath (s : Scene) (display_mode : Bool) : List UInt8 :=
  getWeatherIconPath display_mode s.bmp_path s.wtId PIC

/-- The array {lit}`bmp_path` for the days of the forecast, one after another. -/
def dayPath (s : Scene) (display_mode : Bool) (d : Fin 3) : List UInt8 :=
  let next (path : List UInt8) (d : Fin 3) :=
    getWeatherIconPath display_mode path (s.dayId display_mode d) ICON
  match d with
  | 0 => next (s.bmpPath display_mode) 0
  | 1 => next (next (s.bmpPath display_mode) 0) 1
  | 2 => next (next (next (s.bmpPath display_mode) 0) 1) 2

theorem dayPath_eq (s : Scene) (display_mode : Bool) (d : Fin 3) :
    ∃ path, s.dayPath display_mode d =
      getWeatherIconPath display_mode path (s.dayId display_mode d) ICON := by
  match d with
  | 0 => exact ⟨_, rfl⟩
  | 1 => exact ⟨_, rfl⟩
  | 2 => exact ⟨_, rfl⟩

/-- The line of the city is as long as its two names and six spaces. -/
theorem length_city (s : Scene) : s.city.length =
    (nameString s.globals.rt .area_1).length + (nameString s.globals.rt .area_2).length + 6 := by
  have hspace : (literal " ").length = 1 := rfl
  have hspaces : (literal "     ").length = 5 := rfl
  simp only [city, length_rtSprintf_cons, length_rtSprintf_nil, FormatPiece.bytes, hspace, hspaces]
  omega

/-- The names and texts fit their arrays, and so does every string that is zeroed in
{lit}`bmp_path`. -/
structure Fits (s : Scene) (display_mode : Bool) : Prop where
  names : ∀ n, (nameString s.globals.rt n).length ≤ 9
  weather_name : s.weather_name.length < 10
  aqi_state : s.aqi_state.length < 15
  temp_state : s.temp_state.length < 10
  humi_state : s.humi_state.length < 10
  bmp_path : ∀ path ∈ [s.bmp_path, s.bmpPath display_mode, s.dayPath display_mode 0,
    s.dayPath display_mode 1], rtStrlen path ≤ 25

end Scene

/-! ## The drawing calls -/

/-- {lit}`fore_color` -/
def fore_color (display_mode : Bool) : Int :=
  if display_mode then 0x0000 else 0xdedb

/-- {lit}`back_color` -/
def back_color (display_mode : Bool) : Int :=
  if display_mode then 0xf7be else 0x2945

/-- The globals of the display code that {lit}`show_weather` reads or changes. -/
structure Ui where
  display_mode : Bool
  fore_color_curr : Int
  back_color_curr : Int
  BACK_COLOR : UInt16
  FORE_COLOR : UInt16
  bmp : Memory

/-- {lit}`lcd_set_color` -/
def Ui.lcdSetColor (ui : Ui) (back fore : UInt16) : Ui :=
  { ui with BACK_COLOR := back, FORE_COLOR := fore }

/-- The globals before the first screen. -/
def Ui.boot : Ui where
  display_mode := LIGHT
  fore_color_curr := -1
  back_color_curr := -1
  BACK_COLOR := 0xFFFF
  FORE_COLOR := 0x0000
  bmp _ := 0

namespace Ui

/-- The background of the display mode is not the one in use. -/
def modeChanged (ui : Ui) : Bool :=
  ui.back_color_curr ≠ back_color ui.display_mode

/-- Take the colours of the display mode. -/
def enterMode (ui : Ui) : Ui :=
  { ui with
    back_color_curr := back_color ui.display_mode
    fore_color_curr := fore_color ui.display_mode }.lcdSetColor
      (UInt16.ofInt (back_color ui.display_mode)) (UInt16.ofInt (fore_color ui.display_mode))

/-- The background that is passed to the drawing functions. -/
def back (ui : Ui) : UInt16 := UInt16.ofInt ui.back_color_curr

/-- The foreground that is passed to the drawing functions. -/
def fore (ui : Ui) : UInt16 := UInt16.ofInt ui.fore_color_curr

end Ui

/-- The picture of the present weather. -/
def Scene.picture (env : DisplayEnv) (display_mode : Bool) (s : Scene) : BmpCall :=
  env.bmpCall 11 24 (s.bmpPath display_mode)

/-- Column of the picture of a day. -/
def dayX : Fin 3 → Nat
  | 0 => 20
  | 1 => 95
  | 2 => 168

/-- The picture of a day. -/
def Scene.dayPicture (env : DisplayEnv) (display_mode : Bool) (s : Scene) (d : Fin 3) : BmpCall :=
  env.bmpCall (dayX d) 160 (s.dayPath display_mode d)

/-- Column of the temperatures of a day. -/
def forecastX : Fin 3 → Nat
  | 0 => 21
  | 1 => 98
  | 2 => 170

/-- The header {lit}`bmp` when the picture of a day is shown. -/
def Scene.bmpBeforeDay (env : DisplayEnv) (ui : Ui) (s : Scene) (d : Fin 3) : Memory :=
  let first := (s.picture env ui.display_mode).headerAfter ui.bmp
  let next (bmp : Memory) (d : Fin 3) := (s.dayPicture env ui.display_mode d).headerAfter bmp
  match d with
  | 0 => first
  | 1 => next first 0
  | 2 => next (next first 0) 1

/-- The texts of the screen. -/
inductive ScreenText where
  | city
  | weather_name
  | time_str
  | aqi_state
  | temp_state
  | humi_state
  | forecast (d : Fin 3)
deriving DecidableEq

/-- The parts of the screen. -/
inductive ScreenItem where
  | line
  | label (d : Fin 3)
  | text (t : ScreenText)
  | picture
  | dayPicture (d : Fin 3)
deriving DecidableEq

/-- The parts in the order in which {lit}`show_weather` draws them. -/
def screenItems : List ScreenItem :=
  [.line, .label 0, .label 1, .label 2, .text .city, .text .weather_name, .text .time_str, .picture,
    .text .aqi_state, .text .temp_state, .text .humi_state, .dayPicture 0, .dayPicture 1,
    .dayPicture 2, .text (.forecast 0), .text (.forecast 1), .text (.forecast 2)]

/-- The drawing calls of a label. -/
def labelDraws (env : DisplayEnv) (ui : Ui) (d : Fin 3) : List Draw :=
  let label (x : Nat) (text : List UInt8) := (lcdDispStrCh x 140 text).draws env ui.back ui.fore
  match d with
  | 0 => label 31 [0xBD, 0xF1, 0xCC, 0xEC]
  | 1 => label 105 [0xC3, 0xF7, 0xCC, 0xEC]
  | 2 => label 175 [0xBA, 0xF3, 0xCC, 0xEC]

/-- The drawing calls of a text. -/
def Scene.textDraws (env : DisplayEnv) (ui : Ui) (s : Scene) (t : ScreenText) : List Draw :=
  let mixed (x y : Nat) (text : List UInt8) (back fore : UInt16) :=
    (lcdDispStrEnCh x y text).draws env back fore
  let show16 := lcdShowString env ui.BACK_COLOR ui.FORE_COLOR 16
  match t with
  | .city => mixed 10 5 s.city ui.back ui.fore
  | .weather_name => mixed 115 40 s.weather_name ui.back ui.fore
  | .time_str => show16 180 5 s.time_str
  | .aqi_state => mixed 115 60 s.aqi_state s.aqiColor 0xffff
  | .temp_state => mixed 115 80 s.temp_state ui.back ui.fore
  | .humi_state => mixed 115 100 s.humi_state ui.back ui.fore
  | .forecast d => show16 (forecastX d) 209 (s.forecast d)

/-- The drawing calls of a part of the screen. -/
def Scene.draws (env : DisplayEnv) (ui : Ui) (s : Scene) : ScreenItem → List Draw
  | .line => (lcdDrawLine ui.FORE_COLOR 18 130 224 130).getD []
  | .label d => labelDraws env ui d
  | .text t => s.textDraws env ui t
  | .picture => (s.picture env ui.display_mode).draw ui.bmp
  | .dayPicture d => (s.dayPicture env ui.display_mode d).draw (s.bmpBeforeDay env ui d)

/-- The header {lit}`bmp` after the screen. -/
def Scene.bmpAfter (env : DisplayEnv) (ui : Ui) (s : Scene) : Memory :=
  (s.dayPicture env ui.display_mode 2).headerAfter (s.bmpBeforeDay env ui 2)

/-- The globals and the drawing calls after the colours are set. -/
def drawScreen (env : DisplayEnv) (ui : Ui) (s : Scene) : Ui × List Draw :=
  ({ ui with bmp := s.bmpAfter env ui }, screenItems.flatMap (s.draws env ui))

/-- {lit}`show_weather`: the globals after it and its drawing calls.  Texts longer than
their arrays are printed in full; {lit}`Scene.Fits` excludes them. -/
def showWeather (env : DisplayEnv) (ui : Ui) (s : Scene) : Ui × List Draw :=
  if ui.modeChanged then
    let drawn := drawScreen env ui.enterMode s
    (drawn.1, lcdClear env ui.enterMode.back :: drawn.2)
  else drawScreen env ui s

theorem showWeather_of_mode (env : DisplayEnv) {ui : Ui} (h : ui.modeChanged = false) (s : Scene) :
    showWeather env ui s = drawScreen env ui s := by
  rw [showWeather, if_neg (by rw [h]; exact Bool.false_ne_true)]

theorem showWeather_of_modeChanged (env : DisplayEnv) {ui : Ui} (h : ui.modeChanged = true)
    (s : Scene) :
    showWeather env ui s = ((drawScreen env ui.enterMode s).1,
      lcdClear env ui.enterMode.back :: (drawScreen env ui.enterMode s).2) := by
  rw [showWeather, if_pos h]

/-- What holds of clearing and of all parts of the screen holds of all its drawing calls. -/
theorem forall_mem_showWeather (env : DisplayEnv) {s : Scene} {P : Draw → Prop}
    (hclear : ∀ color, P (lcdClear env color))
    (hparts : ∀ (ui : Ui) (i : ScreenItem), ∀ d ∈ s.draws env ui i, P d) (ui : Ui) :
    ∀ d ∈ (showWeather env ui s).2, P d := by
  have hdrawn (ui : Ui) : ∀ d ∈ (drawScreen env ui s).2, P d := by
    intro d hd
    rcases List.mem_flatMap.mp hd with ⟨i, -, hd⟩
    exact hparts ui i d hd
  cases hmode : ui.modeChanged with
  | true =>
      rw [showWeather_of_modeChanged env hmode]
      exact List.forall_mem_cons.mpr ⟨hclear _, hdrawn _⟩
  | false =>
      rw [showWeather_of_mode env hmode]
      exact hdrawn ui

/-! ## The shipped pictures -/

/-- The names that the code asks for. -/
def weatherNames : List (List UInt8) :=
  [literal "sunny", literal "cloudy", literal "overcast", literal "rain", literal "foggy",
    literal "snow", literal "unknow"]

/-- The names of the shipped files. -/
def shippedNames : List (List UInt8) :=
  [literal "cloudy", literal "foggy", literal "overcast", literal "rain", literal "snow",
    literal "sunny", literal "unknown"]

/-- Width and height of a picture. -/
def iconSize (size : Bool) : Nat :=
  if size then 100 else 40

/-- The picture files are those that are shipped. -/
structure ShippedIcons (env : DisplayEnv) : Prop where
  opens : ∀ path, (env.icons path).isSome ↔
    ∃ display_mode size, ∃ name ∈ shippedNames, path = iconPath display_mode size name
  picture : ∀ display_mode size, ∀ name ∈ shippedNames, ∀ file,
    env.icons (iconPath display_mode size name) = some file →
      Picture file (iconSize size) (iconSize size)

theorem getWeatherNameById_mem (wtId : UInt8) : getWeatherNameById wtId ∈ weatherNames := by
  unfold getWeatherNameById
  split_ifs <;> simp [weatherNames]

/-- A path that the code asks for begins no shipped path but its own. -/
theorem iconPath_of_begins : ∀ display_mode size, ∀ name ∈ weatherNames,
    ∀ display_mode' size', ∀ name' ∈ shippedNames,
      iconPath display_mode size name <+: iconPath display_mode' size' name' →
        size' = size ∧ iconPath display_mode' size' name' = iconPath display_mode size name := by
  decide +kernel

/-- No shipped path has the name that the code uses for other weather. -/
theorem iconPath_unknow : ∀ display_mode size display_mode' size', ∀ name' ∈ shippedNames,
    iconPath display_mode' size' name' ≠ iconPath display_mode size (literal "unknow") := by
  decide +kernel

theorem ne_zero_of_mem_iconPath : ∀ display_mode size, ∀ name ∈ weatherNames,
    ∀ b ∈ iconPath display_mode size name, b ≠ 0 := by
  decide +kernel

/-- What follows the path in the memory that the code opens it from. -/
def afterPath (display_mode : Bool) (path : List UInt8) (wtId : UInt8) (size : Bool) : List UInt8 :=
  (getWeatherIconPath display_mode path wtId size).drop
    (iconPath display_mode size (getWeatherNameById wtId)).length

/-- The opened path is the one asked for with what follows it. -/
theorem takeWhile_getWeatherIconPath (display_mode : Bool) (path : List UInt8) (wtId : UInt8)
    (size : Bool) :
    (getWeatherIconPath display_mode path wtId size).takeWhile (· ≠ 0) =
      iconPath display_mode size (getWeatherNameById wtId) ++
        (afterPath display_mode path wtId size).takeWhile (· ≠ 0) := by
  have hne := ne_zero_of_mem_iconPath display_mode size _ (getWeatherNameById_mem wtId)
  unfold afterPath getWeatherIconPath
  rw [List.drop_left, List.takeWhile_append_of_pos]
  intro b hb
  simpa using hne b hb

namespace ShippedIcons

variable {env : DisplayEnv}

/-- The file that opens for a path has the size that the code asked for. -/
theorem picture_of_open (h : ShippedIcons env) {display_mode size : Bool} {path : List UInt8}
    {wtId : UInt8} {file : List UInt8}
    (hopen : env.icons ((getWeatherIconPath display_mode path wtId size).takeWhile (· ≠ 0)) =
      some file) : Picture file (iconSize size) (iconSize size) := by
  obtain ⟨display_mode', size', name', hname', heq⟩ :=
    (h.opens _).mp (Option.isSome_iff_exists.mpr ⟨file, hopen⟩)
  have hprefix : iconPath display_mode size (getWeatherNameById wtId) <+:
      iconPath display_mode' size' name' := by
    rw [← heq, takeWhile_getWeatherIconPath]
    exact List.prefix_append _ _
  rcases iconPath_of_begins _ _ _ (getWeatherNameById_mem wtId) _ _ _ hname' hprefix with ⟨rfl, -⟩
  rw [heq] at hopen
  exact h.picture _ _ name' hname' file hopen

/-- A picture opens exactly when its name is shipped and its path is terminated. -/
theorem isSome_icon_iff (h : ShippedIcons env) (display_mode : Bool) (path : List UInt8)
    (wtId : UInt8) (size : Bool) :
    (env.icons ((getWeatherIconPath display_mode path wtId size).takeWhile (· ≠ 0))).isSome ↔
      getWeatherNameById wtId ≠ literal "unknow" ∧
        (afterPath display_mode path wtId size).takeWhile (· ≠ 0) = [] := by
  have hasked := getWeatherNameById_mem wtId
  rw [h.opens, takeWhile_getWeatherIconPath]
  constructor
  · rintro ⟨display_mode', size', name', hname', heq⟩
    rcases iconPath_of_begins display_mode size _ hasked display_mode' size' name'
      hname' (heq ▸ List.prefix_append _ _) with ⟨-, hsame⟩
    refine ⟨fun hunknow => ?_, List.append_right_eq_self.mp (heq.trans hsame)⟩
    rw [hunknow] at hsame
    exact iconPath_unknow display_mode size display_mode' size' name' hname' hsame
  · rintro ⟨hname, hafter⟩
    refine ⟨display_mode, size, getWeatherNameById wtId, ?_, by rw [hafter, List.append_nil]⟩
    generalize getWeatherNameById wtId = name at hname hasked
    simp only [weatherNames, List.mem_cons, List.not_mem_nil, or_false] at hasked
    rcases hasked with rfl | rfl | rfl | rfl | rfl | rfl | rfl
    all_goals first
      | decide
      | exact absurd rfl hname

end ShippedIcons

/-! ## Valid drawing calls -/

theorem valid_lcdDrawLine (fore : UInt16) :
    ∀ d ∈ (lcdDrawLine fore 18 130 224 130).getD [], d.Valid := by
  refine List.forall_mem_singleton.mpr ⟨⟨_, rfl, by decide, ?_⟩, ?_⟩
  · rw [Draw.pixels, List.flatMap_singleton, List.length_replicate]
    decide
  · rintro s hs
    rw [List.head?_cons, Option.some.injEq] at hs
    rw [← hs]

/-- A picture of the screen is a valid drawing call, or none. -/
theorem ShippedIcons.valid_picture {env : DisplayEnv} (h : ShippedIcons env) {x y : Nat}
    {display_mode size : Bool} {path : List UInt8} {wtId : UInt8}
    (hx : x + iconSize size ≤ 240) (hy : y + iconSize size ≤ 240) (bmp : Memory) :
    ∀ d ∈ (env.bmpCall x y (getWeatherIconPath display_mode path wtId size)).draw bmp, d.Valid := by
  have hpos : 0 < iconSize size := by cases size <;> decide
  cases hopen : env.icons ((getWeatherIconPath display_mode path wtId size).takeWhile (· ≠ 0)) with
  | none =>
      rw [BmpCall.draw_of_none hopen]
      exact List.forall_mem_nil _
  | some file =>
      exact BmpCall.valid_draw (c := env.bmpCall x y _) hopen (h.picture_of_open hopen) hpos hpos
        hx hy bmp

theorem Scene.valid_picture {env : DisplayEnv} (h : ShippedIcons env) (s : Scene)
    (display_mode : Bool) (bmp : Memory) :
    ∀ d ∈ (s.picture env display_mode).draw bmp, d.Valid :=
  h.valid_picture (by decide) (by decide) bmp

theorem Scene.valid_dayPicture {env : DisplayEnv} (h : ShippedIcons env) (s : Scene)
    (display_mode : Bool) (d : Fin 3) (bmp : Memory) :
    ∀ draw ∈ (s.dayPicture env display_mode d).draw bmp, draw.Valid := by
  rcases s.dayPath_eq display_mode d with ⟨path, hpath⟩
  have hx : ∀ d : Fin 3, dayX d + iconSize ICON ≤ 240 := by decide
  rw [dayPicture, hpath]
  exact h.valid_picture (hx d) (by decide) bmp

/-- With the shipped pictures every part of the screen makes valid drawing calls. -/
theorem Scene.valid_draws {env : DisplayEnv} (h : ShippedIcons env) (ui : Ui) (s : Scene)
    (i : ScreenItem) : ∀ d ∈ s.draws env ui i, d.Valid := by
  cases i with
  | line => exact valid_lcdDrawLine _
  | label d =>
      match d with
      | 0 => exact valid_lcdDispStrCh env _ _ _ _ _
      | 1 => exact valid_lcdDispStrCh env _ _ _ _ _
      | 2 => exact valid_lcdDispStrCh env _ _ _ _ _
  | text t =>
      cases t with
      | time_str => exact valid_lcdShowString env _ _ _ _ _
      | forecast d => exact valid_lcdShowString env _ _ _ _ _
      | _ => exact valid_lcdDispStrEnCh env _ _ _ _ _
  | picture => exact s.valid_picture h _ _
  | dayPicture d => exact s.valid_dayPicture h _ d _

/-- With the shipped pictures all drawing calls of the screen are valid. -/
theorem valid_showWeather {env : DisplayEnv} (h : ShippedIcons env) (ui : Ui) (s : Scene) :
    ∀ d ∈ (showWeather env ui s).2, d.Valid :=
  forall_mem_showWeather env (valid_lcdClear env) (fun ui i => s.valid_draws h ui i) ui

/-- No text of the screen runs past its terminator. -/
theorem showWeather_no_overrun (s : Scene) (x y : Nat) :
    ∀ text ∈ [s.city, s.weather_name, s.aqi_state, s.temp_state, s.humi_state],
      (lcdDispStrEnCh x y text).overrun = false := by
  have hspace (bs : List UInt8) : (lcdDispStrEnCh x y (bs ++ literal " ")).overrun = false :=
    overrun_lcdDispStrEnCh_concat (by decide) x y bs
  have hnumber (bs : List UInt8) (num : Int) :
      (lcdDispStrEnCh x y (bs ++ printNumber num (-1))).overrun = false := by
    rcases printNumber_concat num (-1) with ⟨ds, c, hprint, hc⟩
    rw [hprint, ← List.append_assoc]
    exact overrun_lcdDispStrEnCh_concat hc x y _
  have hspaces (bs : List UInt8) : bs ++ literal "     " = bs ++ literal "    " ++ literal " " := by
    rw [List.append_assoc]
    congr 1
  simp only [List.forall_mem_cons, Scene.city, Scene.weather_name, Scene.aqi_state,
    Scene.temp_state, Scene.humi_state, rtSprintf, List.flatMap_cons, List.flatMap_nil,
    FormatPiece.bytes, List.append_nil, hspaces, ← List.append_assoc]
  exact ⟨hspace _, hspace _, hspace _, hnumber _ _, hnumber _ _, by simp⟩

/-! ## A sample installation -/

/-- The paths of the shipped files of a size. -/
def shippedPaths (size : Bool) : List (List UInt8) :=
  shippedNames.map (iconPath LIGHT size) ++ shippedNames.map (iconPath DARK size)

/-- A bitmap file without pixel data. -/
def blankPicture (n : UInt8) : List UInt8 :=
  BmpCall.smallBmp n n (List.replicate 16 0)

/-- Shipped pictures, and a font with the character 0. -/
def sampleEnv : DisplayEnv where
  ucAscii_1608 a :=
    if 256 ≤ a then
      [0, 0, 0, 0x78, 0xCC, 0xEC, 0xEC, 0xCC, 0xDC, 0xDC, 0xCC, 0x78, 0, 0, 0, 0].getD (a - 256) 0
    else 0
  asc2_1608 _ := 0
  asc2_2412 _ := 0
  asc2_3216 _ := 0
  hzlib := none
  icons path :=
    if path ∈ shippedPaths PIC then some (blankPicture 100)
    else if path ∈ shippedPaths ICON then some (blankPicture 40)
    else none
  fontBuf _ _ := true
  clearBuf := true
  ucBuffer := List.replicate 32 0
  heap _ := 0

theorem shippedIcons_sampleEnv : ShippedIcons sampleEnv where
  opens path := by
    have hpaths (size : Bool) : path ∈ shippedPaths size ↔
        ∃ display_mode, ∃ name ∈ shippedNames, path = iconPath display_mode size name := by
      simp [shippedPaths, LIGHT, DARK, or_comm, eq_comm]
    have hopen : (sampleEnv.icons path).isSome ↔
        path ∈ shippedPaths PIC ∨ path ∈ shippedPaths ICON := by
      by_cases hpic : path ∈ shippedPaths PIC
      · simp [sampleEnv, hpic]
      · by_cases hicon : path ∈ shippedPaths ICON
        · simp [sampleEnv, hpic, hicon]
        · simp [sampleEnv, hpic, hicon]
    rw [hopen, hpaths, hpaths]
    constructor
    · rintro (⟨display_mode, name, hname, rfl⟩ | ⟨display_mode, name, hname, rfl⟩)
      · exact ⟨display_mode, PIC, name, hname, rfl⟩
      · exact ⟨display_mode, ICON, name, hname, rfl⟩
    · rintro ⟨display_mode, size, name, hname, rfl⟩
      cases size with
      | true => exact .inl ⟨display_mode, name, hname, rfl⟩
      | false => exact .inr ⟨display_mode, name, hname, rfl⟩
  picture display_mode size name hname file hfile := by
    have hblank : ∀ display_mode size, ∀ name ∈ shippedNames,
        sampleEnv.icons (iconPath display_mode size name) =
          some (blankPicture (if size then 100 else 40)) := by
      decide +kernel
    rw [hblank display_mode size name hname, Option.some.injEq] at hfile
    subst hfile
    cases size <;> exact ⟨by decide, by decide, by decide, by decide⟩

/-- A scene by the present temperature. -/
def sampleScene (temp : UInt8) : Scene where
  globals :=
    { rt a :=
        if a = NameField.offset .area_1 then 65
        else if a = NameField.offset .area_2 then 66
        else if a = NameField.offset .wtNm then 67
        else if a = wtIdOffset then 1
        else if a = aqiOffset then 30
        else if a = tempOffset then temp
        else if a = humiOffset then 45
        else 0
      wt _ := ⟨1, 1, 10, 20⟩ }
  now := 0
  bmp_path := []

end WeatherStation
