import WeatherStation.Display.Screen

/-!
# The arrays of the formatted lines

{lit}`show_weather` prints five lines into arrays on its stack with {lit}`rt_sprintf`,
which does not know their sizes.

Main results:

- Theorem {lit}`length_printNumber_le_iff`: the numbers that print in a given number of
  characters.
- Theorem {lit}`linesFit_iff`: the names, numbers and signs with which every line fits its
  array.
-/

open Foundation

namespace WeatherStation

/-! ## Lengths of printed numbers -/

/-- A magnitude has at most {lit}`k` digits when it is below the power of ten. -/
theorem length_tmpDigits_le_iff {fuel n : Nat} (hn : n < 10 ^ fuel) (k : Nat) :
    (tmpDigits fuel n).length ≤ k ↔ n < 10 ^ k := by
  induction fuel generalizing n k with
  | zero =>
      obtain rfl : n = 0 := by simpa using hn
      simp [tmpDigits]
  | succ fuel ih =>
      rw [tmpDigits]
      by_cases hzero : n = 0
      · simp [hzero]
      · have hn' : n / 10 < 10 ^ fuel := Nat.div_lt_of_lt_mul (by rwa [Nat.pow_succ'] at hn)
        rw [if_neg hzero, List.length_cons]
        cases k with
        | zero => simp [hzero]
        | succ k =>
            rw [Nat.succ_le_succ_iff, ih hn', Nat.div_lt_iff_lt_mul (by decide), Nat.pow_succ]

/-- A field is as wide as its sign and digits, and at least as wide as asked for. -/
theorem length_printNumber (num s : Int) :
    (printNumber num s).length = max s.toNat ((if num < 0 then 1 else 0) +
      (if num = 0 then [48] else tmpDigits 16 num.natAbs).length) := by
  simp only [printNumber, List.length_append, List.length_replicate, List.length_reverse]
  generalize (if num = 0 then [48] else tmpDigits 16 num.natAbs) = tmp
  by_cases hneg : num < 0
  · simp only [hneg, true_and, if_true, List.length_singleton]
    split_ifs <;> omega
  · simp only [hneg, false_and, if_false, List.length_nil]
    omega

/-- The numbers that print in a given number of characters: a sign takes one of them. -/
theorem length_printNumber_le_iff {num : Int} (hnum : num.natAbs < 10 ^ 16) (s : Int) (k : Nat) :
    (printNumber num s).length ≤ k + 1 ↔
      s ≤ k + 1 ∧ -(10 ^ k : Nat) < num ∧ num < (10 ^ (k + 1) : Nat) := by
  have hpos : 0 < 10 ^ k := Nat.pow_pos (by decide)
  have hsucc : 10 ^ (k + 1) = 10 ^ k * 10 := pow_succ 10 k
  have hdigits := length_tmpDigits_le_iff hnum
  rw [length_printNumber, max_le_iff]
  rcases lt_trichotomy num 0 with hneg | rfl | hpos'
  · have hk := hdigits k
    rw [if_pos hneg, if_neg (by omega)]
    omega
  · simp only [lt_self_iff_false, if_false, if_true, List.length_singleton]
    omega
  · have hk := hdigits (k + 1)
    rw [if_neg (by omega), if_neg (by omega)]
    omega

/-- A 32-bit integer has at most ten digits. -/
theorem natAbs_readInt32_lt (m : Memory) (off : Nat) : (m.readInt32 off).natAbs < 10 ^ 16 := by
  obtain ⟨x, hx⟩ : ∃ x : Int, m.readInt32 off = x.bmod 4294967296 := ⟨_, rfl⟩
  have hlo := Int.le_bmod (x := x) (m := 4294967296) (by decide)
  have hhi := Int.bmod_lt (x := x) (m := 4294967296) (by decide)
  rw [hx]
  omega

namespace Scene

/-! ## The lines of the screen -/

theorem length_weather_name (s : Scene) :
    s.weather_name.length = (nameString s.globals.rt .wtNm).length + 5 := by
  have hspaces : (literal "     ").length = 5 := rfl
  simp only [weather_name, length_rtSprintf_cons, length_rtSprintf_nil, FormatPiece.bytes, hspaces]

/-- The three words for the quality of the air are equally long. -/
theorem length_aqi_state (s : Scene) : s.aqi_state.length = (printNumber s.aqi 3).length + 7 := by
  have hstate : (if s.aqi ≤ 50 then ([0xD3, 0xC5, 0xD0, 0xE3] : List UInt8)
      else if s.aqi ≤ 100 then [0xC1, 0xBC, 0xBA, 0xC3] else [0xCE, 0xDB, 0xC8, 0xBE]).length =
      4 := by
    split_ifs <;> rfl
  have hspace : (literal " ").length = 1 := rfl
  have hspaces : (literal "  ").length = 2 := rfl
  simp only [aqi_state, length_rtSprintf_cons, length_rtSprintf_nil, FormatPiece.bytes, hstate,
    hspace, hspaces]

/-- A word of four bytes, a colon with two spaces, and a number. -/
theorem length_labelled (word : List UInt8) (hword : word.length = 4) (num : Int) :
    (rtSprintf [.text word, .text (literal ":  "), .d (-1) num]).length =
      (printNumber num (-1)).length + 7 := by
  have hcolon : (literal ":  ").length = 3 := rfl
  simp only [length_rtSprintf_cons, length_rtSprintf_nil, FormatPiece.bytes, hword, hcolon]
  omega

theorem length_temp_state (s : Scene) :
    s.temp_state.length = (printNumber s.temp (-1)).length + 7 :=
  length_labelled _ rfl s.temp

theorem length_humi_state (s : Scene) :
    s.humi_state.length = (printNumber s.humi (-1)).length + 7 :=
  length_labelled _ rfl s.humi

/-- Every line fits its array with its terminator. -/
structure LinesFit (s : Scene) : Prop where
  city : s.city.length + 1 ≤ 30
  weather_name : s.weather_name.length + 1 ≤ 10
  aqi_state : s.aqi_state.length + 1 ≤ 15
  temp_state : s.temp_state.length + 1 ≤ 10
  humi_state : s.humi_state.length + 1 ≤ 10

/-- With names of at most nine bytes all lines fit exactly when the name of the weather has at
most four bytes, the quality of the air prints in seven characters, and the temperature and
the humidity print in two. -/
theorem linesFit_iff {s : Scene} (hnames : ∀ n, (nameString s.globals.rt n).length ≤ 9) :
    s.LinesFit ↔
      (nameString s.globals.rt .wtNm).length ≤ 4 ∧ (-999999 ≤ s.aqi ∧ s.aqi ≤ 9999999) ∧
        (-9 ≤ s.temp ∧ s.temp ≤ 99) ∧ s.humi ≤ 99 := by
  have hcity : s.city.length + 1 ≤ 30 := by
    have h₁ := hnames .area_1
    have h₂ := hnames .area_2
    rw [length_city]
    omega
  have hname : s.weather_name.length + 1 ≤ 10 ↔ (nameString s.globals.rt .wtNm).length ≤ 4 := by
    rw [length_weather_name]
    omega
  have haqi : s.aqi_state.length + 1 ≤ 15 ↔ -999999 ≤ s.aqi ∧ s.aqi ≤ 9999999 := by
    have h := length_printNumber_le_iff (natAbs_readInt32_lt s.globals.rt aqiOffset) 3 6
    rw [← Scene.aqi] at h
    rw [length_aqi_state]
    omega
  have htemp : s.temp_state.length + 1 ≤ 10 ↔ -9 ≤ s.temp ∧ s.temp ≤ 99 := by
    have h := length_printNumber_le_iff (natAbs_readInt32_lt s.globals.rt tempOffset) (-1) 1
    rw [← Scene.temp] at h
    rw [length_temp_state]
    omega
  have hhumi : s.humi_state.length + 1 ≤ 10 ↔ s.humi ≤ 99 := by
    have hbyte : 0 ≤ s.humi ∧ s.humi < 256 :=
      ⟨Int.natCast_nonneg _, Int.ofNat_lt.mpr (s.globals.rt humiOffset).toNat_lt⟩
    have hnum : s.humi.natAbs < 10 ^ 16 := by omega
    have h := length_printNumber_le_iff hnum (-1) 1
    rw [length_humi_state]
    omega
  constructor
  · intro h
    exact ⟨hname.mp h.weather_name, haqi.mp h.aqi_state, htemp.mp h.temp_state,
      hhumi.mp h.humi_state⟩
  · rintro ⟨hn, ha, ht, hh⟩
    exact ⟨hcity, hname.mpr hn, haqi.mpr ha, htemp.mpr ht, hhumi.mpr hh⟩

/-- The screen at midnight with no forecast, for the given weather. -/
def atMidnight (rt : Memory) : Scene :=
  ⟨⟨rt, fun _ => ⟨0, 0, 0, 0⟩⟩, ⟨0, by decide⟩, List.replicate 25 0⟩

/-- Weather whose names and numbers take all the room of their lines. -/
def longestLines : Memory :=
  Memory.write (fun _ => 0) (NameField.offset .area_1) (literal "Huichang-")
    |>.write (NameField.offset .area_2) (literal "Jiangxi--")
    |>.write (NameField.offset .wtNm) [0xB6, 0xE0, 0xD4, 0xC6]
    |>.write aqiOffset (Memory.int32Bytes 9999999)
    |>.write tempOffset (Memory.int32Bytes (-9))
    |>.write humiOffset [99]

/-- The lines fit with nothing to spare. -/
theorem linesFit_longest : (atMidnight longestLines).LinesFit := by
  have hnames : ∀ n, (nameString (atMidnight longestLines).globals.rt n).length ≤ 9 := by
    intro n
    cases n
    all_goals decide
  have hweather : (nameString (atMidnight longestLines).globals.rt .wtNm).length = 4 := by decide
  have haqi : (atMidnight longestLines).aqi = 9999999 := by decide
  have htemp : (atMidnight longestLines).temp = -9 := by decide
  have hhumi : (atMidnight longestLines).humi = 99 := by decide
  refine (linesFit_iff hnames).mpr ⟨?_, ?_, ?_, ?_⟩
  · rw [hweather]
  · rw [haqi]
    decide
  · rw [htemp]
    decide
  · rw [hhumi]

/-- The line of the temperature overflows on a cold day. -/
theorem cold_day :
    ¬∀ s : Scene, (∀ n, (nameString s.globals.rt n).length ≤ 9) → s.LinesFit := by
  intro h
  let s := atMidnight (Memory.write (fun _ => 0) tempOffset (Memory.int32Bytes (-10)))
  have hfit := (h s fun n => by cases n <;> decide).temp_state
  have htemp : s.temp = -10 := Memory.readInt32_write_int32Bytes _ _ (by decide) (by decide)
  rw [length_temp_state, htemp] at hfit
  revert hfit
  decide

end Scene

end WeatherStation
