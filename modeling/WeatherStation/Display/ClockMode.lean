import Mathlib.Data.List.Chain
import WeatherStation.Display.Screen
import WeatherStation.Foundation.Execution
import WeatherStation.Weather.Determined

/-!
# The display mode and the clock

{lit}`time_thread_entry` polls the clock once a minute and sets the display mode by the hour;
the command {lit}`change_display_mode` changes it in between.  The hour is parsed from two
characters that are copied without a terminator.

Main results:

- Theorem {lit}`atoi_clock`: the number that the thread takes for the hour.
- Theorem {lit}`display_mode_poll`: the mode after a poll.
- Theorem {lit}`followsClock_iff`: the runs in which the mode follows the clock.
- Theorem {lit}`followsClock_of_evening`: without commands it does so when the clock never
  goes from the day into the early hours without a poll in between.
-/

open Foundation

namespace WeatherStation

/-! ## The text of the clock -/

/-- {lit}`rt_strncpy` of a string, given by the bytes before its terminator, over the first
bytes of a block. -/
def rtStrncpy (dst src : List UInt8) (n : Nat) : List UInt8 :=
  src.take n ++ List.replicate (n - src.length) 0 ++ dst.drop n

/-- A decimal digit. -/
def asciiDigit (n : Nat) : UInt8 :=
  UInt8.ofNat (48 + n % 10)

/-- What {lit}`ctime` gives for a second of the day, from its eleventh character on, as far
as the time goes. -/
def clockText (now : Fin 86400) : List UInt8 :=
  [asciiDigit (now / 3600 / 10), asciiDigit (now / 3600), 58,
    asciiDigit (now / 60 % 60 / 10), asciiDigit (now / 60 % 60), 58,
    asciiDigit (now % 60 / 10), asciiDigit (now % 60)]

theorem asciiDigit_spec (n : Nat) :
    isdigit (asciiDigit n) ∧ (asciiDigit n).toNat - 48 = n % 10 := by
  have htoNat : (asciiDigit n).toNat = 48 + n % 10 := by
    rw [asciiDigit, UInt8.toNat_ofNat']
    omega
  refine ⟨?_, by omega⟩
  simp only [isdigit, Bool.and_eq_true, decide_eq_true_eq, UInt8.le_iff_toNat_le, htoNat]
  constructor
  · exact Nat.le_add_right 48 _
  · show 48 + n % 10 ≤ 57
    omega

/-! ## The thread and the command -/

/-- {lit}`display_mode` and the array {lit}`buf` of the thread. -/
structure ClockState where
  display_mode : Bool
  buf : List UInt8
  size : buf.length = 5

/-- What can happen to the mode: the thread polls the clock, with some bytes standing behind
its array, or the command is given. -/
inductive ClockAction where
  | poll (now : Fin 86400) (behind : List UInt8)
  | change_display_mode

namespace ClockState

/-- One round of {lit}`time_thread_entry`. -/
def poll (s : ClockState) (now : Fin 86400) (behind : List UInt8) : ClockState :=
  let buf := rtStrncpy s.buf (clockText now) 2
  -- The variable of the hour has eight bits.
  let hour := atoi (CStr.ofBytes (buf ++ behind)) % 256
  let display_mode := if s.display_mode = DARK ∧ hour > 5 then LIGHT else s.display_mode
  let display_mode := if display_mode = LIGHT ∧ hour > 17 then DARK else display_mode
  ⟨display_mode, buf, by simp [buf, rtStrncpy, clockText, s.size]⟩

/-- {lit}`change_display_mode`, as far as it concerns the mode. -/
def changeDisplayMode (s : ClockState) : ClockState :=
  { s with display_mode := if s.display_mode = DARK then LIGHT else DARK }

/-- One action. -/
def step (s : ClockState) : ClockAction → Option ClockState
  | .poll now behind => some (s.poll now behind)
  | .change_display_mode => some s.changeDisplayMode

end ClockState

/-! ## The hour -/

/-- The number that the digits of the hour make together with the digits that follow them in
the array and behind it, as far as it fits an {lit}`int`. -/
def clockNumber (buf : List UInt8) (now : Fin 86400) (behind : List UInt8) : Nat :=
  let more := (buf.drop 2 ++ behind).takeWhile isdigit
  min 2147483647 (10 ^ more.length * (now / 3600) + decimalValue more)

/-- Two more digits in front. -/
theorem decimalValue_cons_cons (d e : UInt8) (ds : List UInt8) :
    decimalValue (d :: e :: ds) =
      10 ^ ds.length * (10 * (d.toNat - 48) + (e.toNat - 48)) + decimalValue ds := by
  simp only [decimalValue, List.reverse_cons, List.append_assoc, List.map_append,
    Nat.ofDigits_append, List.length_map, List.length_reverse, List.cons_append, List.nil_append,
    List.map_cons, List.map_nil, Nat.ofDigits_cons, Nat.ofDigits_nil]
  ring

/-- Only the leading digits of a text matter. -/
theorem digitsValue_eq (bs : List UInt8) :
    digitsValue bs = decimalValue (bs.takeWhile isdigit) := by
  rw [← digitsValue_eq_decimalValue fun d hd => List.mem_takeWhile_imp hd, digitsValue, digitsValue,
    List.takeWhile_takeWhile]
  simp only [and_self, Bool.decide_eq_true]

/-- The leading digits of a memory block are those of the string in it. -/
theorem takeWhile_isdigit_ofBytes (bs : List UInt8) :
    (CStr.ofBytes bs).bytes.takeWhile isdigit = bs.takeWhile isdigit := by
  rw [CStr.ofBytes, List.takeWhile_takeWhile]
  refine congrArg (List.takeWhile · bs) (funext fun b => ?_)
  by_cases hzero : b = 0
  · subst hzero
    rfl
  · simp [hzero]

/-- What the thread takes for the hour. -/
theorem atoi_clock (buf : List UInt8) (now : Fin 86400) (behind : List UInt8) :
    atoi (CStr.ofBytes (rtStrncpy buf (clockText now) 2 ++ behind)) =
      clockNumber buf now behind := by
  have hcopy : rtStrncpy buf (clockText now) 2 ++ behind =
      asciiDigit (now / 3600 / 10) :: asciiDigit (now / 3600) :: (buf.drop 2 ++ behind) := rfl
  rcases asciiDigit_spec (now / 3600 / 10) with ⟨htens, htensValue⟩
  rcases asciiDigit_spec (now / 3600) with ⟨hunits, hunitsValue⟩
  have hdigits :
      (CStr.ofBytes (rtStrncpy buf (clockText now) 2 ++ behind)).bytes.takeWhile isdigit =
      asciiDigit (now / 3600 / 10) :: asciiDigit (now / 3600) ::
        (buf.drop 2 ++ behind).takeWhile isdigit := by
    rw [takeWhile_isdigit_ofBytes, hcopy, List.takeWhile_cons_of_pos htens,
      List.takeWhile_cons_of_pos hunits]
  have hvalue : digitsValue (CStr.ofBytes (rtStrncpy buf (clockText now) 2 ++ behind)).bytes =
      10 ^ ((buf.drop 2 ++ behind).takeWhile isdigit).length * (now / 3600) +
        decimalValue ((buf.drop 2 ++ behind).takeWhile isdigit) := by
    have hhour : 10 * (now / 3600 / 10 % 10) + now / 3600 % 10 = (now / 3600 : Nat) := by omega
    rw [digitsValue_eq, hdigits, decimalValue_cons_cons, htensValue, hunitsValue, hhour]
  cases hbytes : (CStr.ofBytes (rtStrncpy buf (clockText now) 2 ++ behind)).bytes with
  | nil =>
      rw [hbytes] at hdigits
      contradiction
  | cons d ds =>
      have hd : d = asciiDigit (now / 3600 / 10) := by
        rw [hbytes, List.takeWhile_cons] at hdigits
        split_ifs at hdigits
        exact (List.cons.inj hdigits).1
      have hne := isdigit_ne (hd ▸ htens)
      rw [hbytes] at hvalue
      rw [atoi, hbytes, List.dropWhile_cons_of_neg (by simp [hne.1])]
      simp only [hne.2.1, hne.2.2, if_false, hvalue, clampInt, clockNumber]
      omega

/-- When the two characters are followed by no digit the number is the hour. -/
theorem clockNumber_of_no_digit {buf : List UInt8} {now : Fin 86400} {behind : List UInt8}
    (h : (buf.drop 2 ++ behind).takeWhile isdigit = []) :
    clockNumber buf now behind = now / 3600 := by
  simp only [clockNumber, h, List.length_nil, pow_zero, Nat.one_mul,
    show decimalValue [] = 0 from rfl]
  omega

/-! ## The mode after a poll -/

/-- The hours of the day mode. -/
def Daytime (now : Fin 86400) : Prop :=
  6 ≤ (now / 3600 : Nat) ∧ (now / 3600 : Nat) ≤ 17

instance (now : Fin 86400) : Decidable (Daytime now) :=
  inferInstanceAs (Decidable (_ ∧ _))

namespace ClockState

/-- In the evening the mode becomes dark, after five it becomes light, and before it stays as
it was. -/
theorem display_mode_poll (s : ClockState) (now : Fin 86400) (behind : List UInt8) :
    (s.poll now behind).display_mode =
      if 17 < clockNumber s.buf now behind % 256 then DARK
      else if 5 < clockNumber s.buf now behind % 256 then LIGHT
      else s.display_mode := by
  have hhour : atoi (CStr.ofBytes (rtStrncpy s.buf (clockText now) 2 ++ behind)) % 256 =
      (clockNumber s.buf now behind % 256 : Nat) := by
    rw [atoi_clock]
    omega
  simp only [poll, hhour]
  generalize clockNumber s.buf now behind % 256 = n
  cases s.display_mode with
  | true =>
      -- The light mode is only left in the evening.
      have hlight : ¬(true = DARK ∧ (n : Int) > 5) := fun h => Bool.noConfusion h.1
      rw [if_neg hlight]
      by_cases hevening : 17 < n
      · rw [if_pos hevening, if_pos ⟨rfl, by omega⟩]
      · rw [if_neg hevening, if_neg fun h => hevening (by omega)]
        split_ifs <;> rfl
  | false =>
      by_cases hmorning : 5 < n
      · have hleave : false = DARK ∧ (n : Int) > 5 := ⟨rfl, by omega⟩
        rw [if_pos hleave, if_pos hmorning]
        by_cases hevening : 17 < n
        · rw [if_pos hevening, if_pos ⟨rfl, by omega⟩]
        · rw [if_neg hevening, if_neg fun h => hevening (by omega)]
      · have hstay : ¬(false = DARK ∧ (n : Int) > 5) := fun h => hmorning (by omega)
        have hnight : ¬17 < n := by omega
        rw [if_neg hstay, if_neg hmorning, if_neg hnight, if_neg fun h => hnight (by omega)]

/-- The mode after a poll is the one of the hour. -/
def RightMode (s : ClockState) : ClockAction → Prop
  | .poll now behind => (s.poll now behind).display_mode = LIGHT ↔ Daytime now
  | .change_display_mode => True

/-- The number that is taken for the hour leads to the mode of the hour, or it is small and
the mode was right before. -/
def PollOk (s : ClockState) : ClockAction → Prop
  | .poll now behind =>
      let n := clockNumber s.buf now behind % 256
      if Daytime now then n ≤ 17 ∧ (5 < n ∨ s.display_mode = LIGHT)
      else 17 < n ∨ n ≤ 5 ∧ s.display_mode = DARK
  | .change_display_mode => True

instance (s : ClockState) (a : ClockAction) : Decidable (s.PollOk a) := by
  cases a <;> unfold PollOk <;> infer_instance

theorem rightMode_iff (s : ClockState) (a : ClockAction) : s.RightMode a ↔ s.PollOk a := by
  cases a with
  | change_display_mode => exact Iff.rfl
  | poll now behind =>
      rw [RightMode, PollOk, display_mode_poll]
      generalize clockNumber s.buf now behind % 256 = n
      have hmodes : s.display_mode = LIGHT ↔ ¬s.display_mode = DARK := by
        cases s.display_mode <;> decide
      by_cases hday : Daytime now
      · rw [if_pos hday]
        simp only [hday, iff_true]
        split_ifs with hevening hmorning
        · exact iff_of_false (by decide) fun h => absurd hevening (Nat.not_lt.mpr h.1)
        · exact iff_of_true rfl ⟨Nat.not_lt.mp hevening, .inl hmorning⟩
        · exact ⟨fun h => ⟨Nat.not_lt.mp hevening, .inr h⟩, fun h => h.2.resolve_left hmorning⟩
      · rw [if_neg hday]
        simp only [hday, iff_false]
        split_ifs with hevening hmorning
        · exact iff_of_true (by decide) (.inl hevening)
        · refine iff_of_false (fun h => h rfl) fun h => ?_
          exact h.elim hevening fun h => absurd hmorning (Nat.not_lt.mpr h.1)
        · rw [hmodes, not_not]
          exact ⟨fun h => .inr ⟨Nat.not_lt.mp hmorning, h⟩,
            fun h => (h.resolve_left hevening).2⟩

/-- After every poll of a run the mode is light exactly in the hours from six to seventeen. -/
def FollowsClock (s : ClockState) (as : List ClockAction) : Prop :=
  Execution.AllSteps step RightMode s as

/-- The mode follows the clock in a run exactly when every poll takes a number for the hour
that leads to the right mode, or a number up to five with the right mode before. -/
theorem followsClock_iff (s : ClockState) (as : List ClockAction) :
    s.FollowsClock as ↔ Execution.AllSteps step PollOk s as :=
  Execution.allSteps_congr rightMode_iff s as

/-! ## Runs without commands -/

/-- The polls leave the uninitialised bytes of the array as they are. -/
theorem drop_two_poll (s : ClockState) (now : Fin 86400) (behind : List UInt8) :
    (s.poll now behind).buf.drop 2 = s.buf.drop 2 :=
  rfl

/-- With no digit behind the two characters the hour is read as it is. -/
theorem clockNumber_of_getD {s : ClockState} (h : isdigit ((s.buf.drop 2).getD 0 0) = false)
    (now : Fin 86400) (behind : List UInt8) : clockNumber s.buf now behind = now / 3600 := by
  refine clockNumber_of_no_digit ?_
  cases hdrop : s.buf.drop 2 with
  | nil =>
      have hlen := congrArg List.length hdrop
      rw [List.length_drop, s.size] at hlen
      contradiction
  | cons b bs =>
      rw [hdrop] at h
      exact List.takeWhile_cons_of_neg (by simpa using h)

/-- When no digit stands behind the two characters, the thread does not start in the light
mode before six, and no poll before six comes directly after one in the day, the mode follows
the clock without commands. -/
theorem followsClock_of_evening {s : ClockState} {polls : List (Fin 86400 × List UInt8)}
    (hdigit : isdigit ((s.buf.drop 2).getD 0 0) = false)
    (hfirst : ∀ p ∈ polls.head?, s.display_mode = LIGHT → 6 ≤ (p.1 / 3600 : Nat))
    (hnext : polls.IsChain fun p q => Daytime p.1 → 6 ≤ (q.1 / 3600 : Nat)) :
    s.FollowsClock (polls.map fun p => .poll p.1 p.2) := by
  induction polls generalizing s with
  | nil => trivial
  | cons p polls ih =>
      have hnumber := clockNumber_of_getD hdigit p.1 p.2
      have hfirst := hfirst p rfl
      have hhour : (p.1 / 3600 : Nat) < 24 := Nat.div_lt_of_lt_mul p.1.isLt
      have hright : s.RightMode (.poll p.1 p.2) := by
        rw [rightMode_iff, PollOk, hnumber, Nat.mod_eq_of_lt (by omega)]
        split_ifs with hday
        · exact ⟨hday.2, .inl hday.1⟩
        · rw [Daytime] at hday
          by_cases hevening : 17 < (p.1 / 3600 : Nat)
          · exact .inl hevening
          · refine .inr ⟨by omega, ?_⟩
            have hdark : s.display_mode ≠ LIGHT := fun hlight => by
              have hlate := hfirst hlight
              omega
            exact Bool.eq_false_of_not_eq_true hdark
      refine ⟨hright, fun s' hs' => ?_⟩
      obtain rfl := Option.some.inj hs'
      refine ih (by rwa [drop_two_poll]) (fun q hq hlight => ?_) hnext.tail
      -- In the light mode the last poll was in the day.
      cases polls with
      | nil => contradiction
      | cons q' polls =>
          obtain rfl := Option.some.inj hq
          exact (List.isChain_cons_cons.mp hnext).1 (hright.mp hlight)

/-- Switched on before six in the light mode the thread leaves it on. -/
theorem light_at_night : ¬∀ (s : ClockState) (as : List ClockAction), s.FollowsClock as := by
  intro h
  have hright := (h ⟨LIGHT, [0, 0, 0, 0, 0], rfl⟩ [.poll 0 []]).1
  rw [rightMode_iff] at hright
  revert hright
  decide

end ClockState

end WeatherStation
