import WeatherStation.Weather.Parse

/-!
# Complete responses

For every choice of member strings there is a response tree that carries them
at the places where the parser looks.  This gives concrete responses to the
general theorems about the parser, together with the text a server would send
for them.

Main results:

- Theorem {lit}`stringAt_responseTree`: each member's path leads to its string.
- Theorem {lit}`accepted_responseTree`: such a response passes the success check.
-/

open Foundation

namespace WeatherStation

/-! ## Text of a tree -/

namespace CJson

mutual

/-- The JSON text of a tree whose strings contain nothing to escape. -/
def render : CJson → List UInt8
  | .null => [110, 117, 108, 108]
  | .false => [102, 97, 108, 115, 101]
  | .true => [116, 114, 117, 101]
  | .number chars => chars
  | .string s => 34 :: s.bytes ++ [34]
  | .array child => 91 :: renderItems child ++ [93]
  | .object child => 123 :: renderMembers child ++ [125]

/-- The items of an array, separated by commas. -/
def renderItems : List CJson → List UInt8
  | [] => []
  | [c] => render c
  | c :: cs => render c ++ 44 :: renderItems cs

/-- The members of an object, separated by commas. -/
def renderMembers : List (CStr × CJson) → List UInt8
  | [] => []
  | [(name, c)] => 34 :: name.bytes ++ 34 :: 58 :: render c
  | (name, c) :: cs => 34 :: name.bytes ++ 34 :: 58 :: render c ++ 44 :: renderMembers cs

end

end CJson

/-- A parser that knows the texts of the given trees. -/
def ParseEnv.ofTrees (trees : List CJson) (conv : CStr → CStr) : ParseEnv where
  cJSONParse data := trees.find? fun t => t.render = data
  utf82gbk := conv

/-! ## The tree of a complete response -/

/-- The object of one day. -/
def dayTree (s : Field → CStr) (d : Fin 3) : CJson :=
  .object [
    (Key.wtId1, .string (s (.D_wtId d))),
    (Key.wtId2, .string (s (.N_wtId d))),
    (Key.wtTemp1, .string (s (.Temp_H d))),
    (Key.wtTemp2, .string (s (.Temp_L d)))]

/-- The response that gives every member the string {lit}`s` names for it. -/
def responseTree (s : Field → CStr) : CJson :=
  .object [
    (Key.success, .string (CStr.ofChars ['1'])),
    (Key.result, .object [
      (Key.area_1, .string (s (.name .area_1))),
      (Key.area_2, .string (s (.name .area_2))),
      (Key.realTime, .object [
        (Key.wtAqi, .string (s .aqi)),
        (Key.wtId, .string (s .wtId)),
        (Key.wtNm, .string (s (.name .wtNm))),
        (Key.wtTemp, .string (s .temp)),
        (Key.wtHumi, .string (s .humi))]),
      (Key.today, dayTree s 0),
      (Key.futureDay, .array [dayTree s 1, dayTree s 2])])]

/-- Every member of a complete response is found at its path. -/
theorem stringAt_responseTree (s : Field → CStr) (f : Field) :
    (responseTree s).stringAt f.path = some (s f) := by
  have hday (d : Fin 3) (path : List Step) :
      (responseTree s).stringAt (dayPath d ++ path) = (dayTree s d).stringAt path := by
    revert d
    rw [Fin.forall_fin_succ, Fin.forall_fin_two]
    exact ⟨rfl, rfl, rfl⟩
  cases f with
  | name n => cases n <;> rfl
  | D_wtId d => exact hday d [.member Key.wtId1]
  | N_wtId d => exact hday d [.member Key.wtId2]
  | Temp_H d => exact hday d [.member Key.wtTemp1]
  | Temp_L d => exact hday d [.member Key.wtTemp2]
  | _ => rfl

/-- A complete response passes the success check. -/
theorem accepted_responseTree {env : ParseEnv} {data : List UInt8} {s : Field → CStr}
    (h : env.cJSONParse data = some (responseTree s)) : Accepted env data (responseTree s) :=
  ⟨h, CStr.ofChars ['1'], rfl, by decide⟩

/-- The text of the only known tree parses to that tree. -/
theorem cJSONParse_ofTrees_singleton (t : CJson) (conv : CStr → CStr) :
    (ParseEnv.ofTrees [t] conv).cJSONParse t.render = some t := by
  simp [ParseEnv.ofTrees]

end WeatherStation
