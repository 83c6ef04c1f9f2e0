import Mathlib.Data.List.Nodup
import WeatherStation.Weather.Response

/-!
# What a malformed or oversized response does

Three questions about one run of the parser: for which responses it makes no
invalid access, which part of the globals it has replaced when it stops, and
when the three copied names stay inside their arrays.

Main results:

- Theorem {lit}`weatherDataParse_ok_iff`: the responses on which the parser
  makes no invalid access.
- Theorem {lit}`weatherDataParse_update`: a rejected response changes nothing, a
  complete one replaces everything, and an incomplete one replaces the members
  before the first missing one.
- Theorem {lit}`names_isolated_iff`: the copies stay inside their arrays exactly
  when every converted name has at most nine bytes.
-/

open Foundation

namespace WeatherStation

/-! ## Invalid accesses -/

/-- The parser makes no invalid access exactly when the response either does not
parse, or has a string {lit}`success` that is not {lit}`1`, or has the string
{lit}`1` there and a string for every member it decodes. -/
theorem weatherDataParse_ok_iff (env : ParseEnv) (data : List UInt8) :
    (weatherDataParse env data).result = .ok () ↔
      ∀ root, env.cJSONParse data = some root →
        ∃ success, root.stringAt [.member Key.success] = some success ∧
          (success.bytes = successText → ∀ f : Field, ∃ s, root.stringAt f.path = some s) := by
  cases hroot : env.cJSONParse data with
  | none => simp [weatherDataParse, hroot, pure]
  | some root =>
      cases hs : root.stringAt [.member Key.success] with
      | none =>
          rcases CJson.exists_resolve_eq_error hs with ⟨e, he⟩
          have hvalue : valuestring (root.objectItem Key.success) = .error e := he
          simp [weatherDataParse, hroot, hvalue, hs]
      | some success =>
          by_cases htext : success.bytes = successText
          · rw [weatherDataParse_of_accepted ⟨hroot, success, hs, htext⟩, decodeFields_ok_iff]
            simp [hs, htext, Field.mem_order]
          · have hvalue : valuestring (root.objectItem Key.success) = .ok success :=
              CJson.resolve_eq_ok_iff.mpr hs
            simp [weatherDataParse, hroot, hvalue, hs, htext, pure]

/-- An empty object makes the parser look into a missing item. -/
theorem weatherDataParse_not_always_ok :
    ¬∀ (env : ParseEnv) (data : List UInt8), (weatherDataParse env data).result = .ok () := by
  intro h
  have hbad : (weatherDataParse (.ofTrees [.object []] id) (CJson.object []).render).result =
      .error .nullItem := rfl
  rw [h] at hbad
  contradiction

/-! ## How much of the globals is replaced -/

theorem Field.nodup_order : Field.order.Nodup := by
  decide

/-- The members before the first missing one are decoded, that one is cleared if
it is an array, and the later ones keep their content. -/
theorem read_run_of_accepted {env : ParseEnv} {data : List UInt8} {root : CJson}
    (hroot : Accepted env data root) {s : Field → CStr} {k : Nat}
    (hfound : ∀ f ∈ Field.order.take k, root.stringAt f.path = some (s f))
    (hfit : ∀ f ∈ Field.order.take k, f.Fits env.utf82gbk (s f))
    (hstop : ∀ f, Field.order[k]? = some f → root.stringAt f.path = none)
    (g : Globals) {i : Nat} {f : Field} (hf : Field.order[i]? = some f) :
    f.read ((weatherDataParse env data).run g) =
      if i < k then f.decode env.utf82gbk (s f)
      else if i = k then f.cleared g
      else f.read g := by
  rcases List.getElem?_eq_some_iff.mp hf with ⟨hi, rfl⟩
  rw [weatherDataParse_of_accepted hroot]
  have htake : Field.order[i] ∈ Field.order.take k ↔ i < k := by
    rw [List.mem_take_iff_getElem]
    constructor
    · rintro ⟨j, hj, heq⟩
      have hij : j = i := (List.Nodup.getElem_inj_iff Field.nodup_order).mp heq
      omega
    · intro hik
      exact ⟨i, by omega, rfl⟩
  by_cases hk : k < Field.order.length
  · have hsplit : Field.order =
        Field.order.take k ++ Field.order[k] :: Field.order.drop (k + 1) := by
      rw [← List.drop_eq_getElem_cons hk, List.take_append_drop]
    rcases decodeFields_of_missing env (Field.order.drop (k + 1)) hfound
      (hstop _ (List.getElem?_eq_getElem hk)) with ⟨e, he⟩
    rw [← hsplit] at he
    rw [Parse.run, he, applyAll_append]
    have hne : i ≠ k → Field.order[i] ≠ Field.order[k] :=
      fun hik heq => hik ((List.Nodup.getElem_inj_iff Field.nodup_order).mp heq)
    split_ifs with hlt heq
    · rw [Field.read_clear_of_ne _ (hne (by omega)),
        Field.read_writesAll_of_mem _ _ hfit _ (htake.mpr hlt)]
    · subst heq
      rw [Field.read_clear_self]
      cases hcase : Field.order[i] with
      | name n => rfl
      | _ =>
          -- Members without an array are not cleared, so they keep their content.
          have hnot := Field.read_writesAll_of_notMem env.utf82gbk s hfit g
            (f := Field.order[i]) (fun hmem => hlt (htake.mp hmem))
          rw [hcase] at hnot
          exact hnot
    · rw [Field.read_clear_of_ne _ (hne heq),
        Field.read_writesAll_of_notMem _ _ hfit _ fun hmem => hlt (htake.mp hmem)]
  · have hall : Field.order.take k = Field.order := List.take_of_length_le (by omega)
    rw [hall] at hfound hfit
    rw [if_pos (by omega), Parse.run, decodeFields_of_found env hfound]
    exact Field.read_writesAll_of_mem _ _ hfit _ (List.getElem_mem hi)

/-- A rejected response changes nothing, a complete one with names that fit
replaces every member, and one whose first missing member stands at position
{lit}`k` replaces exactly the members before it, clearing its array. -/
theorem weatherDataParse_update (env : ParseEnv) (data : List UInt8) (g : Globals) :
    ((∀ root, ¬Accepted env data root) → (weatherDataParse env data).run g = g) ∧
    ∀ root, Accepted env data root → ∀ s : Field → CStr,
      ((∀ f, root.stringAt f.path = some (s f) ∧ f.Fits env.utf82gbk (s f)) →
        ∀ f : Field, f.read ((weatherDataParse env data).run g) = f.decode env.utf82gbk (s f)) ∧
      ∀ k < Field.order.length,
        (∀ f ∈ Field.order.take k,
          root.stringAt f.path = some (s f) ∧ f.Fits env.utf82gbk (s f)) →
        (∀ f, Field.order[k]? = some f → root.stringAt f.path = none) →
        ∀ i f, Field.order[i]? = some f →
          f.read ((weatherDataParse env data).run g) =
            if i < k then f.decode env.utf82gbk (s f)
            else if i = k then f.cleared g
            else f.read g := by
  refine ⟨fun hnot => ?_, fun root hroot s => ⟨fun h f => ?_, fun k _ h hstop i f hf => ?_⟩⟩
  · rw [Parse.run, writes_of_not_accepted hnot, applyAll_nil]
  · rcases List.getElem_of_mem f.mem_order with ⟨i, hi, hif⟩
    have hread := read_run_of_accepted hroot (s := s) (k := Field.order.length)
      (fun f _ => (h f).1) (fun f _ => (h f).2) (by simp) g
      (List.getElem?_eq_some_iff.mpr ⟨hi, hif⟩)
    rwa [if_pos hi] at hread
  · exact read_run_of_accepted hroot (fun f hf => (h f hf).1) (fun f hf => (h f hf).2)
      hstop g hf

/-- The member strings of a small complete response. -/
def sampleStrings : Field → CStr
  | .name _ => CStr.ofChars ['A']
  | _ => CStr.ofChars ['1', '7']

theorem fits_sampleStrings (f : Field) : f.Fits id (sampleStrings f) := by
  cases f with
  | name n => exact (by decide : 1 < 10)
  | _ => trivial

/-- Globals with arbitrary earlier content. -/
def sampleGlobals : Globals :=
  ⟨fun _ => 7, fun _ => ⟨1, 2, 3, 4⟩⟩

theorem weatherDataParse_update_sample :
    Field.aqi.read ((weatherDataParse (.ofTrees [responseTree sampleStrings] id)
      (responseTree sampleStrings).render).run sampleGlobals) = .int 17 :=
  (((weatherDataParse_update (.ofTrees [responseTree sampleStrings] id)
    (responseTree sampleStrings).render sampleGlobals).2 _
      (accepted_responseTree (cJSONParse_ofTrees_singleton _ _)) sampleStrings).1
    (fun f => ⟨stringAt_responseTree sampleStrings f, fits_sampleStrings f⟩) .aqi).trans
      (by decide)

/-- The globals are either entirely unchanged or entirely replaced by the decode
of the response, and unchanged when a member has no string. -/
def AllOrNothing (env : ParseEnv) (data : List UInt8) (g : Globals) : Prop :=
  ((∀ f : Field, f.read ((weatherDataParse env data).run g) = f.read g) ∨
    ∃ (root : CJson) (s : Field → CStr), Accepted env data root ∧
      ∀ f : Field, root.stringAt f.path = some (s f) ∧
        f.read ((weatherDataParse env data).run g) = f.decode env.utf82gbk (s f)) ∧
  ((∀ root, Accepted env data root → ∃ f : Field, root.stringAt f.path = none) →
    ∀ f : Field, f.read ((weatherDataParse env data).run g) = f.read g)

/-- A response whose result holds the first name only. -/
def firstNameTree : CJson :=
  .object [
    (Key.success, .string (CStr.ofChars ['1'])),
    (Key.result, .object [(Key.area_1, .string (CStr.ofChars ['A']))])]

/-- The first name of such a response is copied although the second is missing. -/
theorem weatherDataParse_not_allOrNothing :
    ¬∀ (env : ParseEnv) (data : List UInt8) (g : Globals), AllOrNothing env data g := by
  intro h
  have hparse : (ParseEnv.ofTrees [firstNameTree] id).cJSONParse firstNameTree.render =
      some firstNameTree := cJSONParse_ofTrees_singleton _ _
  have hkeep := (h (.ofTrees [firstNameTree] id) firstNameTree.render
    sampleGlobals).2
  have hmissing : ∀ root, Accepted (.ofTrees [firstNameTree] id) firstNameTree.render root →
      ∃ f : Field, root.stringAt f.path = none := by
    rintro root ⟨hroot, -⟩
    rw [hparse] at hroot
    cases hroot
    exact ⟨.aqi, rfl⟩
  exact absurd (hkeep hmissing (.name .area_1)) (by decide)

/-! ## The copied names -/

/-- Every copy of a name changes bytes of its own array only. -/
def CopiesIsolated (g : Globals) (ws : List Assign) : Prop :=
  ∀ pre n src post, ws = pre ++ Assign.memcpy n src :: post →
    ∀ a, ¬(n.offset ≤ a ∧ a < n.offset + nameSize) →
      ((Assign.memcpy n src).apply (applyAll g pre)).rt a = (applyAll g pre).rt a

/-- Every name array contains a NUL byte. -/
def NamesTerminated (g : Globals) : Prop :=
  ∀ n : NameField, ∃ i < nameSize, g.rt (n.offset + i) = 0

/-- Writing a member keeps the bytes before it, whatever the length of a name. -/
theorem rt_writes_of_lt (conv : CStr → CStr) (s : CStr) (g : Globals) {f : Field} {a : Nat}
    (ha : a < f.start ∨ f.size = 0) : (applyAll g (f.writes conv s)).rt a = g.rt a := by
  have hstart {off : Nat} (hoff : f.start = off) (hsize : f.size ≠ 0) : ¬off ≤ a := by
    have := ha.resolve_right hsize
    omega
  cases f with
  | name n =>
      have hn : ¬n.offset ≤ a := hstart rfl (by simp [Field.size, nameSize])
      exact (Memory.write_of_not_mem _ fun h => hn h.1).trans
        (Memory.fill_of_not_mem _ fun h => hn h.1)
  | aqi => exact Memory.write_of_not_mem _ fun h => hstart rfl (by decide) h.1
  | wtId => exact Memory.write_of_not_mem _ fun h => hstart rfl (by decide) h.1
  | temp => exact Memory.write_of_not_mem _ fun h => hstart rfl (by decide) h.1
  | humi => exact Memory.write_of_not_mem _ fun h => hstart rfl (by decide) h.1
  | _ => rfl

/-- Writing members that start at or after {lit}`lo` keeps the bytes before. -/
theorem rt_writesAll_of_lt (conv : CStr → CStr) (s : Field → CStr) {fs : List Field}
    {lo : Nat} (hlo : ∀ f ∈ fs, lo ≤ f.start ∨ f.size = 0) (g : Globals) {a : Nat} (ha : a < lo) :
    (applyAll g (Field.writesAll conv s fs)).rt a = g.rt a := by
  induction fs generalizing g with
  | nil => rfl
  | cons f fs ih =>
      rw [Field.writesAll_cons, applyAll_append,
        ih (fun f' hf' => hlo f' (List.mem_cons_of_mem _ hf'))]
      exact rt_writes_of_lt conv (s f) g
        ((hlo f List.mem_cons_self).imp_left fun h => lt_of_lt_of_le ha h)

/-- The members after a name lie behind its array. -/
theorem order_split_name (n : NameField) :
    ∃ pre post, Field.order = pre ++ .name n :: post ∧
      ∀ f ∈ post, n.offset + nameSize ≤ f.start ∨ f.size = 0 := by
  cases n with
  | area_1 => exact ⟨[], Field.order.drop 1, rfl, by decide⟩
  | area_2 => exact ⟨Field.order.take 1, Field.order.drop 2, rfl, by decide⟩
  | wtNm => exact ⟨Field.order.take 4, Field.order.drop 5, rfl, by decide⟩

/-- The bytes of a copied name that lie in its array are still there at the end. -/
theorem rt_run_name (conv : CStr → CStr) (s : Field → CStr) (g : Globals) (n : NameField)
    {i : Nat} (hi : i < nameSize) (hlen : i < (conv (s (.name n))).strlen) :
    (applyAll g (Field.writesAll conv s Field.order)).rt (n.offset + i) =
      (conv (s (.name n))).bytes[i] := by
  rcases order_split_name n with ⟨pre, post, horder, hpost⟩
  rw [horder, Field.writesAll_append, applyAll_append, Field.writesAll_cons, applyAll_append,
    rt_writesAll_of_lt conv s hpost _ (by omega)]
  have hmem : n.offset ≤ n.offset + i ∧
      n.offset + i < n.offset + (conv (s (.name n))).bytes.length :=
    ⟨by omega, Nat.add_lt_add_left hlen _⟩
  refine (Memory.write_of_mem _ hmem).trans ?_
  rw [Nat.add_sub_cancel_left, List.getD_eq_getElem?_getD, List.getElem?_eq_getElem hlen,
    Option.getD_some]

/-- An array that is terminated at the end was given a name of at most nine bytes. -/
theorem strlen_lt_of_namesTerminated {env : ParseEnv} {data : List UInt8} {root : CJson}
    (hroot : Accepted env data root) {s : Field → CStr}
    (hs : ∀ f, root.stringAt f.path = some (s f)) {g : Globals}
    (hterm : NamesTerminated ((weatherDataParse env data).run g)) (n : NameField) :
    (env.utf82gbk (s (.name n))).strlen < nameSize := by
  by_contra hlong
  rcases hterm n with ⟨i, hi, hzero⟩
  have hlen : i < (env.utf82gbk (s (.name n))).strlen := by omega
  rw [Parse.run, weatherDataParse_of_accepted hroot, decodeFields_of_found env fun f _ => hs f,
    rt_run_name env.utf82gbk s g n hi hlen] at hzero
  exact CStr.ne_zero_of_mem _ (List.getElem_mem hlen) hzero

section Fitting

variable {conv : CStr → CStr} {s : Field → CStr}

/-- The only copy into an array is the one of that member's own name. -/
theorem eq_of_memcpy_mem {n : NameField} {src : CStr} {fs : List Field}
    (h : Assign.memcpy n src ∈ Field.writesAll conv s fs) : src = conv (s (.name n)) := by
  rcases List.mem_flatMap.mp h with ⟨f, -, hf⟩
  cases f with
  | name n' =>
      simp only [Field.writes, Field.clear, Field.store, List.cons_append, List.nil_append,
        List.mem_cons, reduceCtorEq, Assign.memcpy.injEq, List.not_mem_nil, or_false,
        false_or] at hf
      rw [hf.2, hf.1]
  | _ => simp [Field.writes, Field.clear, Field.store] at hf

/-- Copies of names that fit stay inside their arrays. -/
theorem copiesIsolated_writesAll (hshort : ∀ n : NameField, (conv (s (.name n))).strlen < nameSize)
    (g : Globals) : CopiesIsolated g (Field.writesAll conv s Field.order) := by
  intro pre n src post hsplit a ha
  have hsrc : src = conv (s (.name n)) := by
    have hmem : Assign.memcpy n src ∈ Field.writesAll conv s Field.order := by
      rw [hsplit]
      simp
    exact eq_of_memcpy_mem hmem
  refine Memory.write_of_not_mem _ fun hin => ha ⟨hin.1, ?_⟩
  have hlt : src.bytes.length < nameSize := hsrc ▸ hshort n
  omega

/-- Names that fit leave their arrays terminated. -/
theorem namesTerminated_writesAll (hfit : ∀ f : Field, f.Fits conv (s f)) (g : Globals) :
    NamesTerminated (applyAll g (Field.writesAll conv s Field.order)) := by
  intro n
  have hbytes : (applyAll g (Field.writesAll conv s Field.order)).rt.read n.offset nameSize =
      padName (conv (s (.name n))) :=
    Value.bytes.inj (Field.read_writesAll_of_mem conv s (fun f _ => hfit f) g
      (Field.mem_order (.name n)))
  refine ⟨(conv (s (.name n))).strlen, hfit (.name n), ?_⟩
  have hget := congrArg (·[(conv (s (.name n))).strlen]?) hbytes
  simp only [Memory.read, padName, CStr.strlen] at hget
  have hlt : (conv (s (.name n))).bytes.length < nameSize := hfit (.name n)
  rw [List.getElem?_append_right le_rfl, Nat.sub_self,
    List.getElem?_replicate_of_lt (Nat.sub_pos_of_lt hlt)] at hget
  simpa [hlt, CStr.strlen] using hget

end Fitting

/-- The copies of a complete response stay inside their arrays, leave each of
them terminated and the scalar members as decoded, exactly when every converted
name has at most nine bytes. -/
theorem names_isolated_iff {env : ParseEnv} {data : List UInt8} {root : CJson}
    (hroot : Accepted env data root) {s : Field → CStr}
    (hs : ∀ f, root.stringAt f.path = some (s f)) (g : Globals) :
    (CopiesIsolated g (weatherDataParse env data).writes ∧
      NamesTerminated ((weatherDataParse env data).run g) ∧
      ∀ f : Field, (∀ n, f ≠ .name n) →
        f.read ((weatherDataParse env data).run g) = f.decode env.utf82gbk (s f)) ↔
      ∀ n : NameField, (env.utf82gbk (s (.name n))).strlen < nameSize := by
  have hwrites : (weatherDataParse env data).writes =
      Field.writesAll env.utf82gbk s Field.order := by
    rw [weatherDataParse_of_accepted hroot, decodeFields_of_found env fun f _ => hs f]
  constructor
  · rintro ⟨-, hterm, -⟩
    exact strlen_lt_of_namesTerminated hroot hs hterm
  · intro hshort
    rw [Parse.run, hwrites]
    have hfit : ∀ f : Field, f.Fits env.utf82gbk (s f) := by
      intro f
      cases f with
      | name n => exact hshort n
      | _ => trivial
    refine ⟨copiesIsolated_writesAll hshort g, namesTerminated_writesAll hfit g, fun f _ => ?_⟩
    exact Field.read_writesAll_of_mem env.utf82gbk s (fun f _ => hfit f) g f.mem_order

theorem names_isolated_sample :
    NamesTerminated ((weatherDataParse (.ofTrees [responseTree sampleStrings] id)
      (responseTree sampleStrings).render).run sampleGlobals) :=
  ((names_isolated_iff (accepted_responseTree (cJSONParse_ofTrees_singleton _ _))
    (stringAt_responseTree sampleStrings) sampleGlobals).mpr
      fun n => fits_sampleStrings (.name n)).2.1

/-- The weather name of a thunderstorm with hail, in UTF-8. -/
def hailName : CStr :=
  CStr.ofBytes
    [233, 155, 183, 233, 152, 181, 233, 155, 168, 228, 188, 180, 230, 156, 137, 229, 134,
     176, 233, 155, 185]

/-- The same name in GBK, which takes fourteen bytes. -/
def hailNameGbk : CStr :=
  CStr.ofBytes
    [192, 215, 213, 243, 211, 234, 176, 233, 211, 208, 177, 249, 177, 162]

/-- A response with that weather name. -/
def hailStrings : Field → CStr
  | .name .wtNm => hailName
  | f => sampleStrings f

/-- The conversion of names as far as it concerns that response. -/
def hailConv (s : CStr) : CStr :=
  if s = hailName then hailNameGbk else s

/-- The fourteen bytes leave the array of the weather name without a NUL byte. -/
theorem names_not_always_isolated :
    ¬∀ (env : ParseEnv) (data : List UInt8) (root : CJson) (s : Field → CStr) (g : Globals),
      Accepted env data root → (∀ f, root.stringAt f.path = some (s f)) →
        CopiesIsolated g (weatherDataParse env data).writes ∧
          NamesTerminated ((weatherDataParse env data).run g) ∧
          ∀ f : Field, (∀ n, f ≠ .name n) →
            f.read ((weatherDataParse env data).run g) = f.decode env.utf82gbk (s f) := by
  intro h
  have hroot : Accepted (.ofTrees [responseTree hailStrings] hailConv)
      (responseTree hailStrings).render (responseTree hailStrings) :=
    accepted_responseTree (cJSONParse_ofTrees_singleton _ _)
  have hterm := (h _ _ _ hailStrings sampleGlobals hroot
    (stringAt_responseTree hailStrings)).2.1
  have hshort := strlen_lt_of_namesTerminated hroot (stringAt_responseTree hailStrings) hterm
    .wtNm
  exact absurd hshort (by decide)

end WeatherStation
