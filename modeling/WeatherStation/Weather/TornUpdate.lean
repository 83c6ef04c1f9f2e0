import WeatherStation.Weather.ParseSafety

/-!
# Two parses that overlap

The parser writes the globals one member at a time and without a lock, so a
thread of higher priority can run a complete parse between two assignments of
another one.  This module determines the globals after such a run for every
preemption point.

Main results:

- Theorem {lit}`writesAll_split`: a preemption point lies between two members or
  between the clearing and the copying of one name.
- Theorem {lit}`read_interleaved`: members written before the preemption hold the
  second response, members written after it the first.
-/

open Foundation

namespace WeatherStation

/-- The globals after the assignments {lit}`wsA`, interrupted once, before the
{lit}`k`-th of them, by all of {lit}`wsB`. -/
def interleaved (wsA wsB : List Assign) (k : Nat) (g : Globals) : Globals :=
  applyAll (applyAll (applyAll g (wsA.take k)) wsB) (wsA.drop k)

/-- A response that passes the success check, has a string for every member and
names that fit their arrays. -/
structure WellFormed (env : ParseEnv) (data : List UInt8) (s : Field → CStr) : Prop where
  accepted : ∃ root, Accepted env data root ∧ ∀ f : Field, root.stringAt f.path = some (s f)
  fits : ∀ f : Field, f.Fits env.utf82gbk (s f)

namespace WellFormed

variable {env : ParseEnv} {data : List UInt8} {s : Field → CStr}

/-- A well-formed response writes every member once. -/
theorem writes_eq (h : WellFormed env data s) :
    (weatherDataParse env data).writes = Field.writesAll env.utf82gbk s Field.order := by
  rcases h.accepted with ⟨root, hroot, hs⟩
  rw [weatherDataParse_of_accepted hroot, decodeFields_of_found env fun f _ => hs f]

/-- A well-formed response determines every member. -/
theorem read_run (h : WellFormed env data s) (g : Globals) (f : Field) :
    f.read (applyAll g (weatherDataParse env data).writes) = f.decode env.utf82gbk (s f) := by
  rw [h.writes_eq]
  exact Field.read_writesAll_of_mem _ _ (fun f _ => h.fits f) g f.mem_order

/-- The complete response for well-formed strings. -/
theorem of_responseTree (hdata : env.cJSONParse data = some (responseTree s))
    (hfit : ∀ f : Field, f.Fits env.utf82gbk (s f)) : WellFormed env data s where
  accepted := ⟨responseTree s, accepted_responseTree hdata, stringAt_responseTree s⟩
  fits := hfit

end WellFormed

/-! ## Preemption points -/

/-- Cutting the writes of several members at any point leaves either whole
members on both sides, or one name whose array was cleared but not yet filled. -/
theorem writesAll_split (conv : CStr → CStr) (s : Field → CStr) (fs : List Field) {k : Nat}
    (hk : k ≤ (Field.writesAll conv s fs).length) :
    (∃ pre post, fs = pre ++ post ∧
      (Field.writesAll conv s fs).take k = Field.writesAll conv s pre ∧
      (Field.writesAll conv s fs).drop k = Field.writesAll conv s post) ∨
    ∃ pre n post, fs = pre ++ .name n :: post ∧
      (Field.writesAll conv s fs).take k = Field.writesAll conv s pre ++ [.memset n] ∧
      (Field.writesAll conv s fs).drop k =
        .memcpy n (conv (s (.name n))) :: Field.writesAll conv s post := by
  induction fs generalizing k with
  | nil => exact .inl ⟨[], [], rfl, by simp, by simp⟩
  | cons f fs ih =>
      by_cases hzero : k = 0
      · subst hzero
        exact .inl ⟨[], f :: fs, rfl, rfl, rfl⟩
      by_cases hlen : (f.writes conv (s f)).length ≤ k
      · -- The cut lies behind all writes of the first member.
        rw [Field.writesAll_cons, List.length_append] at hk
        have htake : (Field.writesAll conv s (f :: fs)).take k =
            f.writes conv (s f) ++
              (Field.writesAll conv s fs).take (k - (f.writes conv (s f)).length) := by
          rw [Field.writesAll_cons, List.take_append, List.take_of_length_le hlen]
        have hdrop : (Field.writesAll conv s (f :: fs)).drop k =
            (Field.writesAll conv s fs).drop (k - (f.writes conv (s f)).length) := by
          rw [Field.writesAll_cons, List.drop_append, List.drop_eq_nil_of_le hlen, List.nil_append]
        rw [htake, hdrop]
        have hk' : k - (f.writes conv (s f)).length ≤ (Field.writesAll conv s fs).length := by
          omega
        rcases ih hk' with ⟨pre, post, rfl, ht, hd⟩ | ⟨pre, n, post, rfl, ht, hd⟩
        · exact .inl ⟨f :: pre, post, rfl, by rw [ht, Field.writesAll_cons], hd⟩
        · exact .inr ⟨f :: pre, n, post, rfl, by rw [ht, Field.writesAll_cons, List.append_assoc],
            hd⟩
      · -- The cut lies inside the writes of the first member, which is a name.
        cases f with
        | name n =>
            have hk1 : k = 1 := by
              simp only [Field.writes, Field.clear, List.length_append, List.length_singleton]
                at hlen
              omega
            subst hk1
            exact .inr ⟨[], n, fs, rfl, rfl, rfl⟩
        | _ =>
            simp only [Field.writes, Field.clear, List.nil_append, List.length_singleton] at hlen
            omega

/-! ## The mixture -/

section Overlap

variable {env : ParseEnv} {dataA dataB : List UInt8} {sA sB : Field → CStr}

/-- A preemption between two members: what was written before it holds the second
response, what is written after it the first. -/
theorem read_interleaved_between (hA : WellFormed env dataA sA) (hB : WellFormed env dataB sB)
    {pre post : List Field} (horder : Field.order = pre ++ post) (g : Globals) (f : Field) :
    f.read (interleaved (weatherDataParse env dataA).writes (weatherDataParse env dataB).writes
        (Field.writesAll env.utf82gbk sA pre).length g) =
      if f ∈ post then f.decode env.utf82gbk (sA f) else f.decode env.utf82gbk (sB f) := by
  rw [interleaved, hA.writes_eq, horder, Field.writesAll_append, List.take_left, List.drop_left]
  split_ifs with hf
  · exact Field.read_writesAll_of_mem _ _ (fun f _ => hA.fits f) _ hf
  · rw [Field.read_writesAll_of_notMem _ _ (fun f _ => hA.fits f) _ hf, hB.read_run]

/-- A preemption between the clearing and the copying of a name leaves that name's
bytes in front of what the second response wrote behind them. -/
theorem read_interleaved_within (hA : WellFormed env dataA sA) (hB : WellFormed env dataB sB)
    {pre post : List Field} {n : NameField} (horder : Field.order = pre ++ .name n :: post)
    (g : Globals) (f : Field) :
    f.read (interleaved (weatherDataParse env dataA).writes (weatherDataParse env dataB).writes
        ((Field.writesAll env.utf82gbk sA pre).length + 1) g) =
      if f ∈ post then f.decode env.utf82gbk (sA f)
      else if f = .name n then
        .bytes ((env.utf82gbk (sA f)).bytes ++
          (padName (env.utf82gbk (sB f))).drop (env.utf82gbk (sA f)).strlen)
      else f.decode env.utf82gbk (sB f) := by
  have hsplit : Field.writesAll env.utf82gbk sA Field.order =
      (Field.writesAll env.utf82gbk sA pre ++ [.memset n]) ++
        .memcpy n (env.utf82gbk (sA (.name n))) :: Field.writesAll env.utf82gbk sA post := by
    rw [horder, Field.writesAll_append, Field.writesAll_cons]
    simp [Field.writes, Field.clear, Field.store]
  have hlen : (Field.writesAll env.utf82gbk sA pre).length + 1 =
      (Field.writesAll env.utf82gbk sA pre ++ [Assign.memset n]).length := by
    rw [List.length_append, List.length_singleton]
  rw [interleaved, hA.writes_eq, hsplit, hlen, List.take_left, List.drop_left, applyAll_cons]
  split_ifs with hf hn
  · exact Field.read_writesAll_of_mem _ _ (fun f _ => hA.fits f) _ hf
  · subst hn
    rw [Field.read_writesAll_of_notMem _ _ (fun f _ => hA.fits f) _ hf]
    have hbytes := Value.bytes.inj
      (hB.read_run (applyAll g (Field.writesAll env.utf82gbk sA pre ++ [.memset n])) (.name n))
    have hprefix := Memory.read_write_front
      (applyAll (applyAll g (Field.writesAll env.utf82gbk sA pre ++ [.memset n]))
        (weatherDataParse env dataB).writes).rt n.offset (le_of_lt (hA.fits (.name n)))
    rw [hbytes] at hprefix
    exact congrArg Value.bytes hprefix
  · rw [Field.read_writesAll_of_notMem _ _ (fun f _ => hA.fits f) _ hf]
    exact (Field.read_store_of_ne env.utf82gbk (sA (.name n)) _ hn (hA.fits (.name n))).trans
      (hB.read_run _ f)

/-- For every preemption point the globals are a mixture with a sharp boundary:
members before it hold the second response and members after it the first.  Only
a preemption between the clearing and the copying of a name mixes inside that
name. -/
theorem read_interleaved (hA : WellFormed env dataA sA) (hB : WellFormed env dataB sB)
    {k : Nat} (hk : k ≤ (weatherDataParse env dataA).writes.length) (g : Globals) :
    (∃ pre post, Field.order = pre ++ post ∧
      k = (Field.writesAll env.utf82gbk sA pre).length ∧
      ∀ f : Field, f.read (interleaved (weatherDataParse env dataA).writes
          (weatherDataParse env dataB).writes k g) =
        if f ∈ post then f.decode env.utf82gbk (sA f) else f.decode env.utf82gbk (sB f)) ∨
    ∃ pre n post, Field.order = pre ++ .name n :: post ∧
      k = (Field.writesAll env.utf82gbk sA pre).length + 1 ∧
      ∀ f : Field, f.read (interleaved (weatherDataParse env dataA).writes
          (weatherDataParse env dataB).writes k g) =
        if f ∈ post then f.decode env.utf82gbk (sA f)
        else if f = .name n then
          .bytes ((env.utf82gbk (sA f)).bytes ++
            (padName (env.utf82gbk (sB f))).drop (env.utf82gbk (sA f)).strlen)
        else f.decode env.utf82gbk (sB f) := by
  rw [hA.writes_eq] at hk
  have hlen := List.length_take_of_le hk
  rcases writesAll_split env.utf82gbk sA Field.order hk with
    ⟨pre, post, horder, htake, -⟩ | ⟨pre, n, post, horder, htake, -⟩
  · rw [htake] at hlen
    exact .inl ⟨pre, post, horder, hlen.symm, fun f =>
      hlen ▸ read_interleaved_between hA hB horder g f⟩
  · rw [htake, List.length_append, List.length_singleton] at hlen
    exact .inr ⟨pre, n, post, horder, hlen.symm, fun f =>
      hlen ▸ read_interleaved_within hA hB horder g f⟩

end Overlap

/-! ## Concrete overlaps -/

/-- The member strings of a second response. -/
def otherStrings : Field → CStr
  | .name _ => CStr.ofChars ['B']
  | _ => CStr.ofChars ['2', '3']

/-- A parser that knows both sample responses. -/
def twoResponsesEnv : ParseEnv :=
  .ofTrees [responseTree sampleStrings, responseTree otherStrings] id

theorem wellFormed_sampleStrings :
    WellFormed twoResponsesEnv (responseTree sampleStrings).render sampleStrings :=
  .of_responseTree (by simp [twoResponsesEnv, ParseEnv.ofTrees]) fits_sampleStrings

theorem wellFormed_otherStrings :
    WellFormed twoResponsesEnv (responseTree otherStrings).render otherStrings := by
  refine .of_responseTree ?_ fun f => ?_
  · have hne : (responseTree sampleStrings).render ≠ (responseTree otherStrings).render := by
      decide +kernel
    simp [twoResponsesEnv, ParseEnv.ofTrees, hne]
  · cases f with
    | name n => exact (by decide : 1 < 10)
    | _ => trivial

theorem read_interleaved_sample :
    Field.aqi.read (interleaved
        (weatherDataParse twoResponsesEnv (responseTree sampleStrings).render).writes
        (weatherDataParse twoResponsesEnv (responseTree otherStrings).render).writes
        2 sampleGlobals) ∈ [Value.int 17, Value.int 23] := by
  have hlen : 2 ≤ (weatherDataParse twoResponsesEnv
      (responseTree sampleStrings).render).writes.length := by
    rw [wellFormed_sampleStrings.writes_eq]
    decide
  rcases read_interleaved wellFormed_sampleStrings wellFormed_otherStrings hlen sampleGlobals
    with ⟨pre, post, -, -, h⟩ | ⟨pre, n, post, -, -, h⟩
  · rw [h .aqi]
    split_ifs <;> decide
  · rw [h .aqi, if_neg (c := Field.aqi = .name n) (by simp)]
    split_ifs <;> decide

/-- A preemption after the first name keeps the second city's name with the first
city's air quality. -/
theorem interleaved_not_whole :
    ¬∀ (env : ParseEnv) (dataA dataB : List UInt8) (sA sB : Field → CStr) (k : Nat) (g : Globals),
      WellFormed env dataA sA → WellFormed env dataB sB →
      0 < k → k < (weatherDataParse env dataA).writes.length →
        (∀ f : Field, f.read (interleaved (weatherDataParse env dataA).writes
          (weatherDataParse env dataB).writes k g) = f.decode env.utf82gbk (sA f)) ∨
        ∀ f : Field, f.read (interleaved (weatherDataParse env dataA).writes
          (weatherDataParse env dataB).writes k g) = f.decode env.utf82gbk (sB f) := by
  intro h
  have hsplit : Field.order = [.name .area_1] ++ Field.order.drop 1 := rfl
  have hmix := read_interleaved_between wellFormed_sampleStrings wellFormed_otherStrings hsplit
    sampleGlobals
  have hlen : 2 < (weatherDataParse twoResponsesEnv
      (responseTree sampleStrings).render).writes.length := by
    rw [wellFormed_sampleStrings.writes_eq]
    decide
  rcases h twoResponsesEnv _ _ _ _ 2 sampleGlobals wellFormed_sampleStrings
    wellFormed_otherStrings (by decide) hlen with hA | hB
  · have hname := (hmix (.name .area_1)).symm.trans (hA (.name .area_1))
    exact absurd hname (by decide)
  · have haqi := (hmix .aqi).symm.trans (hB .aqi)
    exact absurd haqi (by decide)

end WeatherStation
