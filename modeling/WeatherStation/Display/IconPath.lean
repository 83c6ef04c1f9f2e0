import WeatherStation.Display.Screen
import WeatherStation.Foundation.Execution

/-!
# The array for picture paths

{lit}`show_weather` lets {lit}`get_weather_icon_path` write all its paths to one array of
25 bytes, which it does not initialise.  Each call zeroes the string that it finds
there and copies its path without a terminator.

Main results:

- Theorem {lit}`IconCall.correct_iff`: what a call needs of the array to stay inside it
  and to leave its path terminated.
- Theorem {lit}`icon_paths_correct_iff`: the first content and the paths with which all
  calls of a sequence do so.
-/

open Foundation

namespace WeatherStation

/-! ## String lengths -/

theorem rtStrlen_cons (b : UInt8) (bs : List UInt8) :
    rtStrlen (b :: bs) = if b = 0 then 0 else rtStrlen bs + 1 := by
  by_cases hb : b = 0 <;> simp [rtStrlen, hb]

/-- A terminated string ends inside its block, at a zero byte. -/
theorem getElem?_rtStrlen {bs : List UInt8} (h : 0 ∈ bs) : bs[rtStrlen bs]? = some 0 := by
  induction bs with
  | nil => simp at h
  | cons b bs ih =>
      rw [rtStrlen_cons]
      by_cases hb : b = 0
      · rw [if_pos hb, hb]
        rfl
      · rw [if_neg hb, List.getElem?_cons_succ]
        exact ih ((List.mem_cons.mp h).resolve_left (Ne.symm hb))

theorem rtStrlen_lt_length {bs : List UInt8} (h : 0 ∈ bs) : rtStrlen bs < bs.length :=
  (List.getElem?_eq_some_iff.mp (getElem?_rtStrlen h)).1

/-- What stands behind a terminated string does not count. -/
theorem rtStrlen_append_of_mem {bs : List UInt8} (h : 0 ∈ bs) (rest : List UInt8) :
    rtStrlen (bs ++ rest) = rtStrlen bs := by
  induction bs with
  | nil => simp at h
  | cons b bs ih =>
      rw [List.cons_append, rtStrlen_cons, rtStrlen_cons]
      by_cases hb : b = 0
      · rw [if_pos hb, if_pos hb]
      · rw [if_neg hb, if_neg hb, ih ((List.mem_cons.mp h).resolve_left (Ne.symm hb))]

/-- A string without zero bytes goes on behind its block. -/
theorem rtStrlen_append_of_not_mem {bs : List UInt8} (h : 0 ∉ bs) (rest : List UInt8) :
    rtStrlen (bs ++ rest) = bs.length + rtStrlen rest := by
  induction bs with
  | nil => simp
  | cons b bs ih =>
      rw [List.mem_cons, not_or] at h
      rw [List.cons_append, rtStrlen_cons, if_neg (Ne.symm h.1), ih h.2, List.length_cons]
      omega

/-! ## Calls on the array -/

/-- Size of the array {lit}`bmp_path`. -/
def bmpPathSize : Nat := 25

/-- A call of {lit}`get_weather_icon_path` on the array, with the display mode and what
stands in memory behind the array at the time. -/
structure IconCall where
  display_mode : Bool
  wtId : UInt8
  size : Bool
  behind : List UInt8
deriving DecidableEq

namespace IconCall

/-- The path of the call. -/
def path (c : IconCall) : List UInt8 :=
  iconPath c.display_mode c.size (getWeatherNameById c.wtId)

/-- The length of the path by its parts. -/
def pathLength (c : IconCall) : Nat :=
  1 + (if c.display_mode = LIGHT then 3 else 5) + (if c.size = PIC then 0 else 6) + 1 +
    (getWeatherNameById c.wtId).length + 4

/-- The memory from the array on after the call. -/
def after (a : List UInt8) (c : IconCall) : List UInt8 :=
  getWeatherIconPath c.display_mode (a ++ c.behind) c.wtId c.size

/-- The array after the call. -/
def apply (a : List UInt8) (c : IconCall) : List UInt8 :=
  (c.after a).take bmpPathSize

/-- The indices from the array on that {lit}`rt_strlen` reads and {lit}`rt_memset` and
{lit}`rt_strncpy` write. -/
def accessed (a : List UInt8) (c : IconCall) : List Nat :=
  List.range (rtStrlen (a ++ c.behind) + 1) ++ List.range (rtStrlen (a ++ c.behind)) ++
    List.range c.path.length

/-- The call stays inside the array and leaves its path with a terminator in it. -/
structure Correct (a : List UInt8) (c : IconCall) : Prop where
  inside : ∀ i ∈ c.accessed a, i < bmpPathSize
  terminated : c.path ++ [0] <+: c.apply a

theorem length_path (c : IconCall) : c.path.length = c.pathLength := by
  unfold path pathLength iconPath
  cases c.display_mode <;> cases c.size <;> simp [literal, LIGHT, PIC] <;> omega

/-- Only one path leaves no room for a terminator. -/
theorem pathLength_lt_iff (c : IconCall) :
    c.pathLength < bmpPathSize ↔ ¬(c.display_mode = DARK ∧ c.size = ICON ∧ c.wtId = 3) := by
  have hname : ∀ name ∈ weatherNames, name.length ≤ 8 := by decide
  have hlength := hname _ (getWeatherNameById_mem c.wtId)
  have hovercast : (getWeatherNameById c.wtId).length = 8 ↔ c.wtId = 3 := by
    constructor
    · intro h
      by_contra hne
      have hother : ∀ name ∈ weatherNames, name ≠ literal "overcast" → name.length ≠ 8 := by
        decide
      refine hother _ (getWeatherNameById_mem c.wtId) ?_ h
      unfold getWeatherNameById
      rw [if_neg hne]
      split_ifs <;> decide
    · intro h
      rw [h]
      decide
  unfold pathLength bmpPathSize
  cases hmode : c.display_mode <;> cases hsize : c.size <;>
    simp only [LIGHT, PIC, DARK, ICON, ← hovercast] <;> simp <;> omega

theorem zero_notMem_path (c : IconCall) : 0 ∉ c.path := fun h =>
  ne_zero_of_mem_iconPath _ _ _ (getWeatherNameById_mem _) 0 h rfl

/-- The bytes behind the path: zeroed as far as the last string went, then unchanged. -/
theorem getElem?_after {a : List UInt8} (c : IconCall) (hzero : 0 ∈ a) {i : Nat}
    (hpath : c.pathLength ≤ i) (hi : i < a.length) :
    (c.after a)[i]? = if i < rtStrlen a then some 0 else a[i]? := by
  have hlen := rtStrlen_lt_length hzero
  rw [after, getWeatherIconPath, rtStrlen_append_of_mem hzero]
  change (c.path ++ _)[i]? = _
  rw [List.getElem?_append_right (by rwa [length_path]), List.getElem?_drop]
  change (_ : List UInt8)[c.path.length + (i - c.path.length)]? = _
  rw [length_path, Nat.add_sub_cancel' hpath]
  by_cases hcleared : i < rtStrlen a
  · rw [if_pos hcleared, List.getElem?_append_left (by rwa [List.length_replicate])]
    simp [hcleared]
  · rw [if_neg hcleared, List.getElem?_append_right (by rw [List.length_replicate]; omega),
      List.length_replicate, List.getElem?_drop, Nat.add_sub_cancel' (by omega),
      List.getElem?_append_left hi]

/-- The path stands at the beginning of the array. -/
theorem path_begins_after (a : List UInt8) (c : IconCall) : c.path <+: c.after a :=
  List.prefix_append _ _

/-- The path is terminated when there is room for a zero byte and one stands there. -/
theorem terminated_iff (a : List UInt8) (c : IconCall) :
    c.path ++ [0] <+: c.apply a ↔
      c.pathLength < bmpPathSize ∧ (c.after a)[c.pathLength]? = some 0 := by
  rw [apply, List.prefix_take_iff, List.length_append, length_path, List.length_singleton,
    Nat.add_one_le_iff, and_comm]
  refine and_congr_right fun _ => ?_
  rcases c.path_begins_after a with ⟨rest, hrest⟩
  rw [← hrest, List.prefix_append_right_inj, ← length_path, List.getElem?_append_right le_rfl,
    Nat.sub_self]
  cases rest with
  | nil => simp
  | cons b rest => simp [eq_comm]

/-- After a correct call the array holds the path of the call. -/
theorem Correct.rtStrlen_apply {a : List UInt8} {c : IconCall} (h : c.Correct a) :
    rtStrlen (c.apply a) = c.pathLength := by
  rcases h.terminated with ⟨rest, hrest⟩
  rw [← hrest, List.append_assoc, rtStrlen_append_of_not_mem c.zero_notMem_path, length_path]
  rfl

theorem length_apply {a : List UInt8} (ha : a.length = bmpPathSize) (hzero : 0 ∈ a)
    (c : IconCall) : (c.apply a).length = bmpPathSize := by
  have hlen := rtStrlen_lt_length hzero
  rw [apply, List.length_take, after, getWeatherIconPath, rtStrlen_append_of_mem hzero]
  simp only [List.length_append, List.length_drop, List.length_replicate, ha]
  omega

/-- A call stays inside the array and leaves its path terminated there exactly when the
array holds a string, the path leaves room for a terminator, and the place of the
terminator is zeroed with the last string or is zero already. -/
theorem correct_iff {a : List UInt8} (ha : a.length = bmpPathSize) (c : IconCall) :
    c.Correct a ↔ 0 ∈ a ∧ c.pathLength < bmpPathSize ∧
      (c.pathLength < rtStrlen a ∨ a[c.pathLength]? = some 0) := by
  have hzero_of_inside (h : ∀ i ∈ c.accessed a, i < bmpPathSize) : 0 ∈ a := by
    by_contra hzero
    have hread := h (rtStrlen (a ++ c.behind)) (by simp [accessed])
    rw [rtStrlen_append_of_not_mem hzero] at hread
    omega
  have hend (hzero : 0 ∈ a) (hroom : c.pathLength < bmpPathSize) :
      (c.after a)[c.pathLength]? = some 0 ↔
        c.pathLength < rtStrlen a ∨ a[c.pathLength]? = some 0 := by
    rw [c.getElem?_after hzero le_rfl (by rwa [ha])]
    by_cases hcleared : c.pathLength < rtStrlen a <;> simp [hcleared]
  constructor
  · intro h
    have hzero := hzero_of_inside h.inside
    rcases (c.terminated_iff a).mp h.terminated with ⟨hroom, hbyte⟩
    exact ⟨hzero, hroom, (hend hzero hroom).mp hbyte⟩
  · rintro ⟨hzero, hroom, hbyte⟩
    refine ⟨?_, (c.terminated_iff a).mpr ⟨hroom, (hend hzero hroom).mpr hbyte⟩⟩
    have hlen := rtStrlen_lt_length hzero
    intro i hi
    rw [accessed, rtStrlen_append_of_mem hzero, length_path] at hi
    simp only [List.mem_append, List.mem_range] at hi
    omega

end IconCall

/-! ## Sequences of calls -/

/-- One call after another on the array. -/
def iconStep (a : List UInt8) (c : IconCall) : Option (List UInt8) :=
  some (c.apply a)

/-- The longest string that the array has held before each call, from length {lit}`m` on,
leaves the place of the terminator of its path zeroed, or the first content {lit}`a` has a
zero byte there; and the path is not the one that fills the whole array. -/
def IconPathsFit (a : List UInt8) : Nat → List IconCall → Prop
  | _, [] => True
  | m, c :: cs =>
      (¬(c.display_mode = DARK ∧ c.size = ICON ∧ c.wtId = 3) ∧
        (c.pathLength < m ∨ a[c.pathLength]? = some 0)) ∧
      IconPathsFit a (max m c.pathLength) cs

instance decidableIconPathsFit (a : List UInt8) :
    ∀ (m : Nat) (calls : List IconCall), Decidable (IconPathsFit a m calls)
  | _, [] => .isTrue trivial
  | m, c :: cs =>
      haveI := decidableIconPathsFit a (max m c.pathLength) cs
      inferInstanceAs (Decidable (_ ∧ IconPathsFit a (max m c.pathLength) cs))

/-- The array {lit}`cur` between calls: it holds a string, behind it zero bytes as far as the
longest string went, and from there on the first content {lit}`a`. -/
structure IconArray (a : List UInt8) (m : Nat) (cur : List UInt8) : Prop where
  length : cur.length = bmpPathSize
  zero_mem : 0 ∈ cur
  strlen_le : rtStrlen cur ≤ m
  cleared : ∀ i, rtStrlen cur ≤ i → i < m → i < bmpPathSize → cur[i]? = some 0
  unchanged : ∀ i, m ≤ i → i < bmpPathSize → cur[i]? = a[i]?

namespace IconArray

variable {a cur : List UInt8} {m : Nat}

/-- The first content, when it holds a string. -/
theorem initial (ha : a.length = bmpPathSize) (hzero : 0 ∈ a) : IconArray a (rtStrlen a) a where
  length := ha
  zero_mem := hzero
  strlen_le := le_rfl
  cleared i hle hlt := absurd hlt (by omega)
  unchanged i _ _ := rfl

/-- What a call needs, by the first content and the strings before it. -/
theorem correct_iff (h : IconArray a m cur) (c : IconCall) :
    c.Correct cur ↔ ¬(c.display_mode = DARK ∧ c.size = ICON ∧ c.wtId = 3) ∧
      (c.pathLength < m ∨ a[c.pathLength]? = some 0) := by
  rw [c.correct_iff h.length, ← c.pathLength_lt_iff, and_iff_right h.zero_mem]
  refine and_congr_right fun hroom => ?_
  by_cases hnew : m ≤ c.pathLength
  · have hstr : ¬c.pathLength < rtStrlen cur := by
      have := h.strlen_le
      omega
    rw [h.unchanged _ hnew hroom]
    simp [hstr, hnew.not_gt]
  · have hm : c.pathLength < m := Nat.lt_of_not_le hnew
    refine iff_of_true ?_ (.inl hm)
    by_cases hcleared : c.pathLength < rtStrlen cur
    · exact .inl hcleared
    · exact .inr (h.cleared _ (Nat.le_of_not_lt hcleared) hm hroom)

/-- A correct call leaves the array as described, with its path in it. -/
theorem step (h : IconArray a m cur) {c : IconCall} (hc : c.Correct cur) :
    IconArray a (max m c.pathLength) (c.apply cur) := by
  have hbyte (i : Nat) (hpath : c.pathLength ≤ i) (hi : i < bmpPathSize) :
      (c.apply cur)[i]? = if i < rtStrlen cur then some 0 else cur[i]? := by
    rw [IconCall.apply, List.getElem?_take_of_lt hi]
    exact c.getElem?_after h.zero_mem hpath (by rwa [h.length])
  have hstr := h.strlen_le
  constructor
  · exact IconCall.length_apply h.length h.zero_mem c
  · exact hc.terminated.subset (by simp)
  · rw [hc.rtStrlen_apply]
    exact le_max_right _ _
  · intro i hle hlt hi
    rw [hc.rtStrlen_apply] at hle
    rw [hbyte i hle hi]
    by_cases hcleared : i < rtStrlen cur
    · exact if_pos hcleared
    · rw [if_neg hcleared]
      exact h.cleared i (Nat.le_of_not_lt hcleared) (by omega) hi
  · intro i hle hi
    rw [hbyte i (by omega) hi, if_neg (by omega)]
    exact h.unchanged i (by omega) hi

/-- All further calls are correct exactly when their paths fit. -/
theorem allSteps_iff (h : IconArray a m cur) (calls : List IconCall) :
    Execution.AllSteps iconStep (fun cur c => c.Correct cur) cur calls ↔
      IconPathsFit a m calls := by
  induction calls generalizing cur m with
  | nil => rfl
  | cons c cs ih =>
      rw [Execution.AllSteps, IconPathsFit, ← h.correct_iff c]
      refine and_congr_right fun hc => ?_
      simp only [iconStep, Option.some.injEq, forall_eq']
      exact ih (h.step hc)

end IconArray

/-- From every content of the array, all calls of a sequence stay inside it and leave
their terminated paths in it exactly when the content is a terminated string, no call is
for the small picture of overcast weather at night, and each path is shorter than some
string before it or ends where the content has a zero byte. -/
theorem icon_paths_correct_iff {a : List UInt8} (ha : a.length = bmpPathSize)
    (calls : List IconCall) :
    Execution.AllSteps iconStep (fun cur c => c.Correct cur) a calls ↔
      (calls ≠ [] → 0 ∈ a) ∧ IconPathsFit a (rtStrlen a) calls := by
  by_cases hzero : 0 ∈ a
  · rw [(IconArray.initial ha hzero).allSteps_iff]
    simp [hzero]
  · cases calls with
    | nil => simp [Execution.AllSteps, IconPathsFit]
    | cons c cs =>
        refine iff_of_false ?_ ?_
        · intro h
          exact hzero ((c.correct_iff ha).mp h.1).1
        · rintro ⟨h, -⟩
          exact hzero (h (by simp))

/-- From a cleared array four pictures of a day are correct. -/
theorem icon_paths_correct_cleared :
    Execution.AllSteps iconStep (fun cur c => c.Correct cur) (List.replicate 25 0)
      [⟨LIGHT, 3, PIC, []⟩, ⟨LIGHT, 1, ICON, []⟩, ⟨LIGHT, 4, ICON, []⟩, ⟨LIGHT, 3, ICON, []⟩] :=
  (icon_paths_correct_iff (a := List.replicate 25 0) rfl _).mpr (by decide +kernel)

/-- The small picture of overcast weather at night takes up the whole array. -/
theorem icon_path_overcast_night :
    ¬∀ a : List UInt8, a.length = bmpPathSize → ∀ calls : List IconCall,
      Execution.AllSteps iconStep (fun cur c => c.Correct cur) a calls := by
  intro h
  have hcall := h (List.replicate 25 0) rfl [⟨DARK, 3, ICON, []⟩]
  have hterminated := hcall.1.terminated
  revert hterminated
  decide +kernel

end WeatherStation
