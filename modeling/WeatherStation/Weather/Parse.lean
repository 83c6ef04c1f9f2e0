import WeatherStation.Weather.Data

/-!
# The weather data parser

{lit}`weather_data_parse` translated as a computation that records the
assignments it makes to the globals, in order, and stops at the first invalid
access.  Nothing it does depends on the previous content of the globals, so a
run is determined by the response; its effect on the globals is obtained by
carrying out the recorded assignments.

Main results:

- Theorem {lit}`weatherDataParse_of_accepted`: after the success check, the
  parser decodes a fixed list of members, each found by its own path.
- Theorem {lit}`decodeFields_of_found`: a member whose string is found is
  written and the parse goes on.
- Theorem {lit}`decodeFields_of_missing`: the first member without a string ends
  the parse, after its array, if it has one, was cleared.
-/

open Foundation

namespace WeatherStation

/-! ## Recorded computations -/

/-- A computation of the parser: the assignments it made, and its result or the
invalid access that ended it. -/
structure Parse (α : Type) where
  writes : List Assign
  result : Except Fault α

namespace Parse

variable {α β : Type}

instance : Monad Parse where
  pure a := ⟨[], .ok a⟩
  bind p f :=
    match p.result with
    | .error e => ⟨p.writes, .error e⟩
    | .ok a => ⟨p.writes ++ (f a).writes, (f a).result⟩

instance : MonadLift (Except Fault) Parse where
  monadLift r := ⟨[], r⟩

/-- Make one assignment. -/
def assign (a : Assign) : Parse Unit :=
  ⟨[a], .ok ()⟩

/-- The globals after a run that started from {lit}`g`. -/
def run (p : Parse α) (g : Globals) : Globals :=
  applyAll g p.writes

@[simp] theorem pure_bind (a : α) (f : α → Parse β) : (pure a >>= f) = f a :=
  rfl

@[simp] theorem lift_ok_bind (a : α) (f : α → Parse β) :
    (monadLift (Except.ok a : Except Fault α) >>= f : Parse β) = f a :=
  rfl

theorem bind_assoc {γ : Type} (p : Parse α) (f : α → Parse β) (g : β → Parse γ) :
    (p >>= f) >>= g = p >>= fun a => f a >>= g := by
  rcases p with ⟨ws, r⟩
  cases r with
  | error e => rfl
  | ok a =>
      change ({ writes := ws ++ (f a).writes, result := (f a).result } >>= g : Parse γ) =
        ⟨ws ++ (f a >>= g).writes, (f a >>= g).result⟩
      cases hr : (f a).result <;> simp [bind, hr]

end Parse

theorem Parse.bind_pure (p : Parse Unit) : (p >>= fun _ => pure ()) = p := by
  rcases p with ⟨ws, r⟩
  cases r with
  | error e => rfl
  | ok a =>
      change (⟨ws ++ [], .ok ()⟩ : Parse Unit) = ⟨ws, .ok a⟩
      rw [List.append_nil]

/-- The code outside this repository that the parser relies on. -/
structure ParseEnv where
  /-- The tree built for a response text, if it parses. -/
  cJSONParse : List UInt8 → Option CJson
  /-- The conversion of a UTF-8 name to GBK. -/
  utf82gbk : CStr → CStr

/-! ## The parser -/

namespace Key

def success : CStr := CStr.ofChars ['s', 'u', 'c', 'c', 'e', 's', 's']
def result : CStr := CStr.ofChars ['r', 'e', 's', 'u', 'l', 't']
def area_1 : CStr := CStr.ofChars ['a', 'r', 'e', 'a', '_', '1']
def area_2 : CStr := CStr.ofChars ['a', 'r', 'e', 'a', '_', '2']
def realTime : CStr := CStr.ofChars ['r', 'e', 'a', 'l', 'T', 'i', 'm', 'e']
def wtAqi : CStr := CStr.ofChars ['w', 't', 'A', 'q', 'i']
def wtId : CStr := CStr.ofChars ['w', 't', 'I', 'd']
def wtNm : CStr := CStr.ofChars ['w', 't', 'N', 'm']
def wtTemp : CStr := CStr.ofChars ['w', 't', 'T', 'e', 'm', 'p']
def wtHumi : CStr := CStr.ofChars ['w', 't', 'H', 'u', 'm', 'i']
def today : CStr := CStr.ofChars ['t', 'o', 'd', 'a', 'y']
def futureDay : CStr := CStr.ofChars ['f', 'u', 't', 'u', 'r', 'e', 'D', 'a', 'y']
def wtId1 : CStr := CStr.ofChars ['w', 't', 'I', 'd', '1']
def wtId2 : CStr := CStr.ofChars ['w', 't', 'I', 'd', '2']
def wtTemp1 : CStr := CStr.ofChars ['w', 't', 'T', 'e', 'm', 'p', '1']
def wtTemp2 : CStr := CStr.ofChars ['w', 't', 'T', 'e', 'm', 'p', '2']

end Key

/-- The string that {lit}`success` must equal. -/
def successText : List UInt8 := [49]

open Parse in
/-- Clear the array, look the name up in {lit}`object`, convert it and copy it. -/
def parseName (env : ParseEnv) (n : NameField) (object : Option CJson) (name : CStr) :
    Parse Unit := do
  assign (.memset n)
  let item ← cJSONGetObjectItem object name
  let s ← valuestring item
  assign (.memcpy n (env.utf82gbk s))

open Parse in
/-- Look a number up in {lit}`item` and assign it. -/
def parseNumber (set : Int → Assign) (item : Option CJson) (name : CStr) : Parse Unit := do
  let sub_item ← cJSONGetObjectItem item name
  let s ← valuestring sub_item
  assign (set (atoi s))

/-- The four assignments to {lit}`wt[d]`. -/
def parseDay (d : Fin 3) (item : Option CJson) : Parse Unit := do
  parseNumber (.D_wtId d) item Key.wtId1
  parseNumber (.N_wtId d) item Key.wtId2
  parseNumber (.Temp_H d) item Key.wtTemp1
  parseNumber (.Temp_L d) item Key.wtTemp2

/-- The part of {lit}`weather_data_parse` after the success check. -/
def parseResult (env : ParseEnv) (root : CJson) : Parse Unit := do
  let object ← cJSONGetObjectItem (some root) Key.result
  parseName env .area_1 object Key.area_1
  parseName env .area_2 object Key.area_2
  let item ← cJSONGetObjectItem object Key.realTime
  parseNumber .aqi item Key.wtAqi
  parseNumber .wtId item Key.wtId
  parseName env .wtNm item Key.wtNm
  parseNumber .temp item Key.wtTemp
  parseNumber .humi item Key.wtHumi
  let item ← cJSONGetObjectItem object Key.today
  parseDay 0 item
  let item ← cJSONGetObjectItem object Key.futureDay
  -- The loop over `i < 2`, which fills `wt[i + 1]`.
  let sub_item ← cJSONGetArrayItem item 0
  parseDay 1 sub_item
  let sub_item ← cJSONGetArrayItem item 1
  parseDay 2 sub_item

/-- {lit}`weather_data_parse`. -/
def weatherDataParse (env : ParseEnv) (data : List UInt8) : Parse Unit :=
  match env.cJSONParse data with
  | none => pure ()
  | some root => do
      let object ← cJSONGetObjectItem (some root) Key.success
      let success ← valuestring object
      -- `strcmp("1", object->valuestring) != 0` leads to the exit label.
      if success.bytes ≠ successText then pure () else parseResult env root

/-! ## The members as a table -/

/-- The lookups that lead to the members of one day. -/
def dayPath (d : Fin 3) : List Step :=
  match d with
  | 0 => [.member Key.result, .member Key.today]
  | 1 => [.member Key.result, .member Key.futureDay, .index 0]
  | 2 => [.member Key.result, .member Key.futureDay, .index 1]

/-- The lookups that lead to the string of a member. -/
def Field.path : Field → List Step
  | .name .area_1 => [.member Key.result, .member Key.area_1]
  | .name .area_2 => [.member Key.result, .member Key.area_2]
  | .name .wtNm => [.member Key.result, .member Key.realTime, .member Key.wtNm]
  | .aqi => [.member Key.result, .member Key.realTime, .member Key.wtAqi]
  | .wtId => [.member Key.result, .member Key.realTime, .member Key.wtId]
  | .temp => [.member Key.result, .member Key.realTime, .member Key.wtTemp]
  | .humi => [.member Key.result, .member Key.realTime, .member Key.wtHumi]
  | .D_wtId d => dayPath d ++ [.member Key.wtId1]
  | .N_wtId d => dayPath d ++ [.member Key.wtId2]
  | .Temp_H d => dayPath d ++ [.member Key.wtTemp1]
  | .Temp_L d => dayPath d ++ [.member Key.wtTemp2]

/-- The members of one day in the order in which they are written. -/
def Field.ofDay (d : Fin 3) : List Field :=
  [.D_wtId d, .N_wtId d, .Temp_H d, .Temp_L d]

/-- All members in the order in which they are written. -/
def Field.order : List Field :=
  [.name .area_1, .name .area_2, .aqi, .wtId, .name .wtNm, .temp, .humi] ++
    Field.ofDay 0 ++ Field.ofDay 1 ++ Field.ofDay 2

theorem Field.mem_order (f : Field) : f ∈ Field.order := by
  cases f with
  | name n => cases n <;> decide
  | D_wtId d => revert d; decide
  | N_wtId d => revert d; decide
  | Temp_H d => revert d; decide
  | Temp_L d => revert d; decide
  | _ => decide

open Parse in
/-- Decode one member by its own path from the root. -/
def decodeField (env : ParseEnv) (root : CJson) (f : Field) : Parse Unit := do
  (⟨f.clear, .ok ()⟩ : Parse Unit)
  let s ← CJson.resolve (some root) f.path
  assign (f.store env.utf82gbk s)

/-- Decode members one after another. -/
def decodeFields (env : ParseEnv) (root : CJson) : List Field → Parse Unit
  | [] => pure ()
  | f :: fs => do
      decodeField env root f
      decodeFields env root fs

theorem decodeField_of_found (env : ParseEnv) {root : CJson} {f : Field} {s : CStr}
    (h : root.stringAt f.path = some s) :
    decodeField env root f = ⟨f.writes env.utf82gbk s, .ok ()⟩ := by
  unfold decodeField
  rw [CJson.resolve_eq_ok_iff.mpr h]
  rfl

/-- An invalid access on the way to a member ends its decoding. -/
theorem decodeField_of_error (env : ParseEnv) {root : CJson} {f : Field} {e : Fault}
    (h : CJson.resolve (some root) f.path = .error e) :
    decodeField env root f = ⟨f.clear, .error e⟩ := by
  unfold decodeField
  rw [h]
  change (⟨f.clear ++ [], .error e⟩ : Parse Unit) = ⟨f.clear, .error e⟩
  rw [List.append_nil]

theorem decodeField_of_missing (env : ParseEnv) {root : CJson} {f : Field}
    (h : root.stringAt f.path = none) :
    ∃ e, decodeField env root f = ⟨f.clear, .error e⟩ := by
  rcases CJson.exists_resolve_eq_error h with ⟨e, he⟩
  exact ⟨e, decodeField_of_error env he⟩

/-- A number is decoded by the path to its item followed by its own name. -/
theorem parseNumber_eq (env : ParseEnv) (root : CJson) {f : Field} {set : Int → Assign}
    {item : Option CJson} {name : CStr} (hclear : f.clear = [])
    (hstore : ∀ s, f.store env.utf82gbk s = set (atoi s))
    (hpath : CJson.resolve (some root) f.path = CJson.resolve item [.member name]) :
    parseNumber set item name = decodeField env root f := by
  unfold parseNumber decodeField
  rw [hpath, hclear]
  simp only [hstore]
  cases item with
  | none => rfl
  | some i =>
      change (monadLift (valuestring (i.objectItem name)) >>= fun s => Parse.assign (set (atoi s)) :
          Parse Unit) = _
      rw [show CJson.resolve (some i) [.member name] = valuestring (i.objectItem name) from rfl]
      cases valuestring (i.objectItem name) <;> rfl

/-- A name is decoded by the path to its item followed by its own name. -/
theorem parseName_eq (env : ParseEnv) (root : CJson) {n : NameField} {item : Option CJson}
    {name : CStr}
    (hpath : CJson.resolve (some root) (Field.name n).path = CJson.resolve item [.member name]) :
    parseName env n item name = decodeField env root (.name n) := by
  unfold parseName decodeField
  rw [hpath]
  cases item with
  | none => rfl
  | some i =>
      rw [show CJson.resolve (some i) [.member name] = valuestring (i.objectItem name) from rfl]
      simp only [cJSONGetObjectItem_some, Parse.lift_ok_bind, Field.store, Field.clear]
      cases valuestring (i.objectItem name) <;> rfl

/-- The four members of one day are decoded by their own paths. -/
theorem parseDay_eq (env : ParseEnv) (root : CJson) (d : Fin 3) {item : Option CJson}
    (hpath : ∀ name, CJson.resolve (some root) (dayPath d ++ [.member name]) =
      CJson.resolve item [.member name]) :
    parseDay d item = decodeFields env root (Field.ofDay d) := by
  unfold parseDay
  rw [parseNumber_eq env root (f := .D_wtId d) rfl (fun _ => rfl) (hpath _),
    parseNumber_eq env root (f := .N_wtId d) rfl (fun _ => rfl) (hpath _),
    parseNumber_eq env root (f := .Temp_H d) rfl (fun _ => rfl) (hpath _),
    parseNumber_eq env root (f := .Temp_L d) rfl (fun _ => rfl) (hpath _)]
  simp only [Field.ofDay, decodeFields, Parse.bind_pure]

theorem decodeFields_append (env : ParseEnv) (root : CJson) (fs fs' : List Field) :
    decodeFields env root (fs ++ fs') =
      decodeFields env root fs >>= fun _ => decodeFields env root fs' := by
  induction fs with
  | nil => rfl
  | cons f fs ih => simp only [List.cons_append, decodeFields, ih, Parse.bind_assoc]

/-- Lookups below the result object start there. -/
theorem resolve_result {root object : CJson} (hobject : root.objectItem Key.result = some object)
    (k : CStr) (path : List Step) :
    CJson.resolve (some root) (.member Key.result :: .member k :: path) =
      CJson.resolve (object.objectItem k) path := by
  rw [CJson.resolve, CJson.stepInto_some, CJson.child, hobject]
  rfl

/-- The loop over the later days decodes their members. -/
theorem parseFutureDays_eq (env : ParseEnv) {root object : CJson}
    (hobject : root.objectItem Key.result = some object) :
    (do
      let sub_item ← cJSONGetArrayItem (object.objectItem Key.futureDay) 0
      parseDay 1 sub_item
      let sub_item ← cJSONGetArrayItem (object.objectItem Key.futureDay) 1
      parseDay 2 sub_item : Parse Unit) =
    decodeFields env root (Field.ofDay 1 ++ Field.ofDay 2) := by
  cases hitem : object.objectItem Key.futureDay with
  | none =>
      have hresolve : CJson.resolve (some root) (Field.D_wtId 1).path = .error .nullItem := by
        change CJson.resolve (some root) [.member Key.result, .member Key.futureDay,
          .index 0, .member Key.wtId1] = _
        rw [resolve_result hobject, hitem]
        rfl
      rw [Field.ofDay, List.cons_append, decodeFields, decodeField_of_error env hresolve]
      rfl
  | some item =>
      simp only [cJSONGetArrayItem_some, Parse.lift_ok_bind]
      rw [decodeFields_append,
        parseDay_eq env root 1 fun _ => by
          rw [dayPath, List.cons_append, List.cons_append, resolve_result hobject, hitem]; rfl,
        parseDay_eq env root 2 fun _ => by
          rw [dayPath, List.cons_append, List.cons_append, resolve_result hobject, hitem]; rfl]

/-- After the success check the parser decodes the members in their order. -/
theorem parseResult_eq (env : ParseEnv) (root : CJson) :
    parseResult env root = decodeFields env root Field.order := by
  unfold parseResult
  rw [cJSONGetObjectItem_some, Parse.lift_ok_bind,
    parseName_eq env root (n := .area_1) rfl, parseName_eq env root (n := .area_2) rfl]
  cases hobject : root.objectItem Key.result with
  | none =>
      -- Without a result object the lookup of the first name is already invalid.
      have hresolve : CJson.resolve (some root) (Field.name .area_1).path = .error .nullItem := by
        rw [Field.path, CJson.resolve, CJson.stepInto_some, CJson.child, hobject]
        rfl
      rw [Field.order, List.cons_append, List.cons_append, List.cons_append, decodeFields,
        decodeField_of_error env hresolve]
      rfl
  | some object =>
      simp only [cJSONGetObjectItem_some, Parse.lift_ok_bind]
      rw [parseNumber_eq env root (f := .aqi) rfl (fun _ => rfl) (resolve_result hobject _ _),
        parseNumber_eq env root (f := .wtId) rfl (fun _ => rfl) (resolve_result hobject _ _),
        parseName_eq env root (n := .wtNm) (resolve_result hobject _ _),
        parseNumber_eq env root (f := .temp) rfl (fun _ => rfl) (resolve_result hobject _ _),
        parseNumber_eq env root (f := .humi) rfl (fun _ => rfl) (resolve_result hobject _ _),
        parseDay_eq env root 0 (fun _ => resolve_result hobject _ _),
        parseFutureDays_eq env hobject, Field.order]
      simp only [List.append_assoc, decodeFields_append, decodeFields, Parse.bind_assoc,
        Parse.pure_bind]

/-- The response was parsed into {lit}`root` and its success member is the
string {lit}`1`. -/
def Accepted (env : ParseEnv) (data : List UInt8) (root : CJson) : Prop :=
  env.cJSONParse data = some root ∧
    ∃ s, root.stringAt [.member Key.success] = some s ∧ s.bytes = successText

/-- An accepted response is decoded member by member. -/
theorem weatherDataParse_of_accepted {env : ParseEnv} {data : List UInt8} {root : CJson}
    (h : Accepted env data root) :
    weatherDataParse env data = decodeFields env root Field.order := by
  rcases h with ⟨hroot, s, hs, htext⟩
  have hvalue : valuestring (root.objectItem Key.success) = .ok s :=
    CJson.resolve_eq_ok_iff.mpr hs
  rw [weatherDataParse, hroot]
  simp only [cJSONGetObjectItem_some, Parse.lift_ok_bind]
  rw [hvalue, Parse.lift_ok_bind, if_neg (not_not.mpr htext), parseResult_eq]

/-- A response that is not accepted causes no assignment. -/
theorem writes_of_not_accepted {env : ParseEnv} {data : List UInt8}
    (h : ∀ root, ¬Accepted env data root) : (weatherDataParse env data).writes = [] := by
  unfold weatherDataParse
  cases hroot : env.cJSONParse data with
  | none => rfl
  | some root =>
      simp only [cJSONGetObjectItem_some, Parse.lift_ok_bind]
      cases hvalue : valuestring (root.objectItem Key.success) with
      | error e => rfl
      | ok s =>
          rw [Parse.lift_ok_bind, if_pos]
          · rfl
          · exact fun htext =>
              h root ⟨hroot, s, CJson.resolve_eq_ok_iff.mp hvalue, htext⟩

/-- Members whose strings are all found are all written, and the parse goes on. -/
theorem decodeFields_of_found (env : ParseEnv) {root : CJson} {s : Field → CStr}
    {fs : List Field} (h : ∀ f ∈ fs, root.stringAt f.path = some (s f)) :
    decodeFields env root fs = ⟨Field.writesAll env.utf82gbk s fs, .ok ()⟩ := by
  induction fs with
  | nil => rfl
  | cons f fs ih =>
      rw [decodeFields, decodeField_of_found env (h f List.mem_cons_self),
        ih fun f' hf' => h f' (List.mem_cons_of_mem _ hf')]
      rfl

/-- The first member without a string ends the parse; its array was cleared. -/
theorem decodeFields_of_missing (env : ParseEnv) {root : CJson} {s : Field → CStr}
    {pre : List Field} (post : List Field) {f : Field}
    (h : ∀ f ∈ pre, root.stringAt f.path = some (s f)) (hf : root.stringAt f.path = none) :
    ∃ e, decodeFields env root (pre ++ f :: post) =
      ⟨Field.writesAll env.utf82gbk s pre ++ f.clear, .error e⟩ := by
  rcases decodeField_of_missing env hf with ⟨e, he⟩
  refine ⟨e, ?_⟩
  rw [decodeFields_append, decodeFields_of_found env h, decodeFields, he]
  rfl

/-- Decoding succeeds exactly when every member has a string. -/
theorem decodeFields_ok_iff (env : ParseEnv) {root : CJson} {fs : List Field} :
    (decodeFields env root fs).result = .ok () ↔
      ∀ f ∈ fs, ∃ s, root.stringAt f.path = some s := by
  induction fs with
  | nil => simp [decodeFields, pure]
  | cons f fs ih =>
      rw [decodeFields, List.forall_mem_cons, ← ih]
      cases hs : root.stringAt f.path with
      | none =>
          rcases decodeField_of_missing env hs with ⟨e, he⟩
          simp [he, bind]
      | some s =>
          rw [decodeField_of_found env hs]
          simp [bind]

end WeatherStation
