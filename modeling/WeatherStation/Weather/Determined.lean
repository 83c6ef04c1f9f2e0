import Mathlib.Data.List.Nodup
import Mathlib.Data.Nat.Digits.Defs
import WeatherStation.Weather.TornUpdate

/-!
# What a response determines

A response lists its members in any order and may carry members that the parser
never asks for.  This module describes such a response by what it contains,
independently of the lookups: a member is somewhere in its object, and a number
is a decimal text.  Names that differ within each object make the first match of
every lookup the only one, so the globals after a parse are a function of the
response.

Main results:

- Theorem {lit}`stringAt_of_contains`: with distinct names every lookup finds the
  string that the tree contains at its place.
- Theorem {lit}`atoi_of_decimalText`: a decimal text in the range of {lit}`int`
  is read as its value.
- Theorem {lit}`decoding_determined`: after a complete response every member
  holds its own decoded string, whatever the globals held before.
-/

open Foundation

namespace WeatherStation

/-! ## Names without regard to case -/

/-- A member name with its letters in lower case. -/
def foldedName (name : CStr) : List UInt8 :=
  name.bytes.map tolower

theorem tolower_ne_zero {c : UInt8} (h : c ≠ 0) : tolower c ≠ 0 := by
  unfold tolower
  split_ifs with hupper
  · intro hzero
    have hnat := congrArg UInt8.toNat hzero
    have hlow : 65 ≤ c.toNat := hupper.1
    have hhigh : c.toNat ≤ 90 := hupper.2
    rw [UInt8.toNat_add] at hnat
    have hthirtytwo : (32 : UInt8).toNat = 32 := rfl
    have hnone : (0 : UInt8).toNat = 0 := rfl
    omega
  · exact h

/-- The comparison of the lookups equates names that differ in case only. -/
theorem cJSONStrcasecmp_eq_zero_iff {s1 s2 : List UInt8} (h1 : 0 ∉ s1) (h2 : 0 ∉ s2) :
    cJSONStrcasecmp s1 s2 = 0 ↔ s1.map tolower = s2.map tolower := by
  induction s1 generalizing s2 with
  | nil =>
      cases s2 with
      | nil => simp [cJSONStrcasecmp]
      | cons b s2 =>
          have hb : tolower b ≠ 0 := tolower_ne_zero fun hb => h2 (by simp [hb])
          have hnat : (tolower b).toNat ≠ 0 := fun hb' => hb (UInt8.toNat_inj.mp hb')
          simp only [cJSONStrcasecmp, List.map_nil, List.map_cons, reduceCtorEq, iff_false]
          omega
  | cons a s1 ih =>
      have ha : tolower a ≠ 0 := tolower_ne_zero fun ha => h1 (by simp [ha])
      have hnat : (tolower a).toNat ≠ 0 := fun ha' => ha (UInt8.toNat_inj.mp ha')
      cases s2 with
      | nil =>
          simp only [cJSONStrcasecmp, List.map_nil, List.map_cons, reduceCtorEq, iff_false]
          omega
      | cons b s2 =>
          rw [List.mem_cons, not_or] at h1 h2
          rw [cJSONStrcasecmp, List.map_cons, List.map_cons, List.cons.injEq, ← ih h1.2 h2.2]
          split_ifs with hab
          · simp [hab]
          · have hdiff : (tolower a).toNat ≠ (tolower b).toNat :=
              fun h => hab (UInt8.toNat_inj.mp h)
            simp only [hab, false_and, iff_false]
            omega

/-! ## What a tree contains -/

namespace CJson

mutual

/-- Within every object of the tree the names differ, even without regard to
case. -/
def NamesDistinct : CJson → Prop
  | .array child => ItemsDistinct child
  | .object child => (child.map fun c => foldedName c.1).Nodup ∧ MembersDistinct child
  | _ => True

/-- {lit}`NamesDistinct` for the items of an array. -/
def ItemsDistinct : List CJson → Prop
  | [] => True
  | c :: cs => NamesDistinct c ∧ ItemsDistinct cs

/-- {lit}`NamesDistinct` for the members of an object. -/
def MembersDistinct : List (CStr × CJson) → Prop
  | [] => True
  | (_, c) :: cs => NamesDistinct c ∧ MembersDistinct cs

end

theorem itemsDistinct_iff {cs : List CJson} :
    ItemsDistinct cs ↔ ∀ c ∈ cs, c.NamesDistinct := by
  induction cs with
  | nil => simp [ItemsDistinct]
  | cons c cs ih => simp [ItemsDistinct, ih]

theorem membersDistinct_iff {cs : List (CStr × CJson)} :
    MembersDistinct cs ↔ ∀ c ∈ cs, c.2.NamesDistinct := by
  induction cs with
  | nil => simp [MembersDistinct]
  | cons c cs ih => simp [MembersDistinct, ih]

/-- The tree contains the string {lit}`s` at the end of a path: an object has,
anywhere among its members, one of the given name, and an array has an item at
the given position. -/
def Contains (s : CStr) : CJson → List Step → Prop
  | .string s', [] => s' = s
  | .object child, .member name :: path =>
      ∃ c ∈ child, foldedName c.1 = foldedName name ∧ c.2.Contains s path
  | .array child, .index i :: path => ∃ c, child[i]? = some c ∧ c.Contains s path
  | _, _ => False

/-- What the {lit}`i`-th member contains, the object contains under its name. -/
theorem contains_member {s : CStr} {child : List (CStr × CJson)} (i : Nat) {c : CStr × CJson}
    {name : CStr} {path : List Step} (hc : child[i]? = some c)
    (hname : foldedName c.1 = foldedName name) (h : c.2.Contains s path) :
    (object child).Contains s (.member name :: path) :=
  ⟨c, List.mem_of_getElem? hc, hname, h⟩

/-- What an item contains, the array contains at the item's position. -/
theorem contains_index {s : CStr} {child : List CJson} {i : Nat} {c : CJson}
    {path : List Step} (hc : child[i]? = some c) (h : c.Contains s path) :
    (array child).Contains s (.index i :: path) :=
  ⟨c, hc, h⟩

/-- Among distinct names the first match is the only one. -/
theorem objectItem_of_mem {child : List (CStr × CJson)} {c : CStr × CJson} {name : CStr}
    (hdistinct : (child.map fun c => foldedName c.1).Nodup) (hc : c ∈ child)
    (hname : foldedName c.1 = foldedName name) :
    (object child).objectItem name = some c.2 := by
  have hmatch (c : CStr × CJson) :
      cJSONStrcasecmp c.1.bytes name.bytes = 0 ↔ foldedName c.1 = foldedName name :=
    cJSONStrcasecmp_eq_zero_iff c.1.zero_notMem name.zero_notMem
  rw [objectItem]
  cases hfind : child.find? fun c => cJSONStrcasecmp c.1.bytes name.bytes = 0 with
  | none =>
      have hno := List.find?_eq_none.mp hfind c hc
      rw [decide_eq_true_eq, hmatch] at hno
      exact absurd hname hno
  | some c' =>
      have hyes := List.find?_some hfind
      rw [decide_eq_true_eq, hmatch] at hyes
      have hsame : c' = c := List.inj_on_of_nodup_map hdistinct (List.mem_of_find?_eq_some hfind)
        hc (hyes.trans hname.symm)
      rw [Option.map_some, hsame]

/-- With distinct names the lookups along a path find the string that the tree
contains there. -/
theorem stringAt_of_contains {s : CStr} {path : List Step} {item : CJson}
    (hdistinct : item.NamesDistinct) (h : item.Contains s path) :
    item.stringAt path = some s := by
  induction path generalizing item with
  | nil =>
      cases item with
      | string s' =>
          rw [Contains] at h
          rw [stringAt, stringValue, h]
      | _ => simp [Contains] at h
  | cons st path ih =>
      cases st with
      | member name =>
          cases item with
          | object child =>
              rw [Contains] at h
              rw [NamesDistinct, membersDistinct_iff] at hdistinct
              rcases h with ⟨c, hc, hname, hrest⟩
              rw [stringAt, CJson.child, objectItem_of_mem hdistinct.1 hc hname, Option.bind_some]
              exact ih (hdistinct.2 c hc) hrest
          | _ => simp [Contains] at h
      | index i =>
          cases item with
          | array child =>
              rw [Contains] at h
              rw [NamesDistinct, itemsDistinct_iff] at hdistinct
              rcases h with ⟨c, hc, hrest⟩
              rw [stringAt, CJson.child, arrayItem, hc, Option.bind_some]
              exact ih (hdistinct c (List.mem_of_getElem? hc)) hrest
          | _ => simp [Contains] at h

end CJson

/-! ## Decimal texts -/

/-- The value of decimal digits, the most significant one first. -/
def decimalValue (ds : List UInt8) : Nat :=
  Nat.ofDigits 10 (ds.reverse.map fun d => d.toNat - 48)

/-- A decimal number: digits, possibly after a sign. -/
inductive DecimalText : List UInt8 → Int → Prop where
  | unsigned {ds : List UInt8} (hne : ds ≠ []) (hds : ∀ d ∈ ds, isdigit d) :
      DecimalText ds (decimalValue ds)
  | plus {ds : List UInt8} (hne : ds ≠ []) (hds : ∀ d ∈ ds, isdigit d) :
      DecimalText (43 :: ds) (decimalValue ds)
  | minus {ds : List UInt8} (hne : ds ≠ []) (hds : ∀ d ∈ ds, isdigit d) :
      DecimalText (45 :: ds) (-(decimalValue ds : Int))

/-- Reading the digits from the left gives their decimal value. -/
theorem digitsValue_eq_decimalValue {ds : List UInt8} (hds : ∀ d ∈ ds, isdigit d) :
    digitsValue ds = decimalValue ds := by
  have hfold (n : Nat) (es : List UInt8) :
      es.foldl (fun n d => 10 * n + (d.toNat - 48)) n =
        Nat.ofDigits 10 (es.reverse.map fun d => d.toNat - 48) + 10 ^ es.length * n := by
    induction es generalizing n with
    | nil => simp
    | cons e es ih =>
        rw [List.foldl_cons, ih, List.reverse_cons, List.map_append, Nat.ofDigits_append,
          List.length_map, List.length_reverse, List.map_singleton, Nat.ofDigits_singleton,
          List.length_cons, pow_succ]
        ring
  rw [digitsValue, List.takeWhile_eq_self_iff.mpr hds, hfold, Nat.mul_zero, Nat.add_zero,
    decimalValue]

theorem clampInt_of_mem {v : Int} (h : -2147483648 ≤ v ∧ v ≤ 2147483647) : clampInt v = v := by
  unfold clampInt
  omega

/-- A digit is neither white space nor a sign. -/
theorem isdigit_ne {d : UInt8} (h : isdigit d) : isspace d = false ∧ d ≠ 43 ∧ d ≠ 45 := by
  simp only [isdigit, Bool.and_eq_true, decide_eq_true_eq, UInt8.le_iff_toNat_le] at h
  have hlow : 48 ≤ d.toNat := h.1
  have hne {c : UInt8} (hc : c.toNat < 48) : d ≠ c := by
    rintro rfl
    omega
  refine ⟨?_, hne (by decide), hne (by decide)⟩
  have hspace : ¬d ≤ 13 := by
    rw [UInt8.le_iff_toNat_le]
    exact fun hle => absurd (hlow.trans hle) (by decide)
  have hblank : d ≠ 32 := hne (by decide)
  simp [isspace, hspace, hblank]

/-- A decimal text in the range of {lit}`int` is read as its value. -/
theorem atoi_of_decimalText {s : CStr} {v : Int} (h : DecimalText s.bytes v)
    (hrange : -2147483648 ≤ v ∧ v ≤ 2147483647) : atoi s = v := by
  unfold atoi
  generalize hbytes : s.bytes = bs at h
  cases h with
  | unsigned hne hds =>
      cases bs with
      | nil => exact absurd rfl hne
      | cons d ds =>
          have hd := isdigit_ne (hds d List.mem_cons_self)
          rw [List.dropWhile_cons_of_neg (by simp [hd.1])]
          simp only [hd.2.1, hd.2.2, if_false]
          rw [digitsValue_eq_decimalValue hds, clampInt_of_mem hrange]
  | plus hne hds =>
      rw [List.dropWhile_cons_of_neg (by decide)]
      simp only [show (43 : UInt8) ≠ 45 by decide, if_false, if_true]
      rw [digitsValue_eq_decimalValue hds, clampInt_of_mem hrange]
  | minus hne hds =>
      rw [List.dropWhile_cons_of_neg (by decide)]
      simp only [if_true]
      rw [digitsValue_eq_decimalValue hds, clampInt_of_mem hrange]

/-! ## Complete responses -/

/-- The numbers that a member can hold: a byte for weather numbers and humidity,
an {lit}`int` for the other numbers.  Names are no numbers. -/
def Field.Holds : Field → Int → Prop
  | name _, _ => False
  | wtId, v | humi, v | D_wtId _, v | N_wtId _, v => 0 ≤ v ∧ v ≤ 255
  | aqi, v | temp, v | Temp_H _, v | Temp_L _, v => -2147483648 ≤ v ∧ v ≤ 2147483647

/-- A response that succeeded and contains, each at its place, a string for every
member. -/
structure CompleteResponse (root : CJson) (s : Field → CStr) : Prop where
  distinct : root.NamesDistinct
  success : root.Contains (CStr.ofChars ['1']) [.member Key.success]
  members : ∀ f : Field, root.Contains (s f) f.path

/-- The strings of a response can be stored: a converted name has at most nine
bytes, and a number is the decimal text of a value that its member holds. -/
structure Storable (conv : CStr → CStr) (s : Field → CStr) (v : Field → Int) : Prop where
  names : ∀ n : NameField, (conv (s (.name n))).strlen ≤ 9
  numbers : ∀ f : Field, (∀ n, f ≠ .name n) → DecimalText (s f).bytes (v f) ∧ f.Holds (v f)

/-- What a member should hold: the converted name, padded with zeros to the whole
array, or the number. -/
def Field.expected (conv : CStr → CStr) (s : Field → CStr) (v : Field → Int) : Field → Value
  | name n => .bytes (padName (conv (s (.name n))))
  | f => .int (v f)

/-- A complete response passes the success check and gives every member its
string. -/
theorem CompleteResponse.wellFormed {env : ParseEnv} {data : List UInt8} {root : CJson}
    {s : Field → CStr} (hdata : env.cJSONParse data = some root)
    (h : CompleteResponse root s) {v : Field → Int} (hs : Storable env.utf82gbk s v) :
    WellFormed env data s where
  accepted := by
    refine ⟨root, ⟨hdata, CStr.ofChars ['1'], ?_, by decide⟩, fun f => ?_⟩
    · exact CJson.stringAt_of_contains h.distinct h.success
    · exact CJson.stringAt_of_contains h.distinct (h.members f)
  fits f := by
    cases f with
    | name n => exact Nat.lt_succ_of_le (hs.names n)
    | _ => trivial

/-- The decode of a storable string is the expected content: no value is reduced
or clamped. -/
theorem Storable.decode_eq {conv : CStr → CStr} {s : Field → CStr} {v : Field → Int}
    (h : Storable conv s v) (f : Field) : f.decode conv (s f) = f.expected conv s v := by
  have hnumber (hf : ∀ n, f ≠ .name n) : atoi (s f) = v f := by
    rcases h.numbers f hf with ⟨htext, hholds⟩
    refine atoi_of_decimalText htext ?_
    cases f <;> simp only [Field.Holds] at hholds <;> omega
  have hbyte (hf : ∀ n, f ≠ .name n) (hrange : 0 ≤ v f ∧ v f ≤ 255) :
      atoi (s f) % 256 = v f := by
    rw [hnumber hf]
    omega
  cases f with
  | name n => rfl
  | aqi => exact congrArg Value.int (hnumber (by simp))
  | temp => exact congrArg Value.int (hnumber (by simp))
  | Temp_H d => exact congrArg Value.int (hnumber (by simp))
  | Temp_L d => exact congrArg Value.int (hnumber (by simp))
  | wtId => exact congrArg Value.int (hbyte (by simp) (h.numbers .wtId (by simp)).2)
  | humi => exact congrArg Value.int (hbyte (by simp) (h.numbers .humi (by simp)).2)
  | D_wtId d => exact congrArg Value.int (hbyte (by simp) (h.numbers (.D_wtId d) (by simp)).2)
  | N_wtId d => exact congrArg Value.int (hbyte (by simp) (h.numbers (.N_wtId d) (by simp)).2)

/-- A padded name reads back, as a string, as the name. -/
theorem ofBytes_padName (c : CStr) : CStr.ofBytes (padName c) = c := by
  have hbytes : (CStr.ofBytes (padName c)).bytes = c.bytes := by
    change (padName c).takeWhile (· ≠ 0) = c.bytes
    rw [padName, List.takeWhile_append_of_pos]
    · cases nameSize - c.strlen <;> simp [List.replicate_succ]
    · intro b hb
      simpa using c.ne_zero_of_mem hb
  cases c
  rw [CStr.mk.injEq]
  exact hbytes

/-! ## The result -/

/-- Decoding is determined by the response: whatever two states the globals were
in, a complete response ends without an invalid access and leaves the same
members in both, each one its own decoded string; and every name array holds the
converted name as its terminated string. -/
theorem decoding_determined {env : ParseEnv} {data : List UInt8} {root : CJson}
    {s : Field → CStr} {v : Field → Int} (hdata : env.cJSONParse data = some root)
    (hresponse : CompleteResponse root s) (hs : Storable env.utf82gbk s v) (g g' : Globals) :
    (weatherDataParse env data).result = .ok () ∧
    (∀ f : Field, f.read ((weatherDataParse env data).run g) =
      f.read ((weatherDataParse env data).run g')) ∧
    (∀ f : Field, f.read ((weatherDataParse env data).run g) =
      f.expected env.utf82gbk s v) ∧
    ∀ n : NameField, CStr.ofBytes (((weatherDataParse env data).run g).rt.read n.offset nameSize) =
      env.utf82gbk (s (.name n)) := by
  have hwell := hresponse.wellFormed hdata hs
  have hread (g : Globals) (f : Field) :
      f.read ((weatherDataParse env data).run g) = f.expected env.utf82gbk s v :=
    (hwell.read_run g f).trans (hs.decode_eq f)
  refine ⟨?_, fun f => (hread g f).trans (hread g' f).symm, hread g, fun n => ?_⟩
  · rcases hwell.accepted with ⟨root', hroot', hmembers⟩
    rw [weatherDataParse_of_accepted hroot', decodeFields_of_found env fun f _ => hmembers f]
  · have hname := Value.bytes.inj (hread g (.name n))
    rw [hname, ofBytes_padName]

/-! ## A response in another order -/

/-- Strings of a winter day. -/
def winterStrings : Field → CStr
  | .name _ => CStr.ofChars ['S', 'n', 'o', 'w']
  | .Temp_H _ => CStr.ofChars ['3']
  | .Temp_L _ => CStr.ofChars ['-', '1', '2']
  | _ => CStr.ofChars ['2', '0', '5']

/-- The numbers in {lit}`winterStrings`. -/
def winterNumbers : Field → Int
  | .Temp_H _ => 3
  | .Temp_L _ => -12
  | _ => 205

/-- A day with its members in reverse order and one that nobody asks for. -/
def winterDay (d : Fin 3) : CJson :=
  .object [
    (Key.wtNm, .null),
    (Key.wtTemp2, .string (winterStrings (.Temp_L d))),
    (Key.wtTemp1, .string (winterStrings (.Temp_H d))),
    (Key.wtId2, .string (winterStrings (.N_wtId d))),
    (Key.wtId1, .string (winterStrings (.D_wtId d)))]

/-- The members of its result. -/
def winterMembers : List (CStr × CJson) :=
  [(Key.futureDay, .array [winterDay 1, winterDay 2, .null]),
    (Key.today, winterDay 0),
    (Key.realTime, .object [
      (Key.wtHumi, .string (winterStrings .humi)),
      (Key.wtTemp, .string (winterStrings .temp)),
      (Key.wtNm, .string (winterStrings (.name .wtNm))),
      (Key.wtId, .string (winterStrings .wtId)),
      (Key.wtAqi, .string (winterStrings .aqi))]),
    (Key.area_2, .string (winterStrings (.name .area_2))),
    (Key.area_1, .string (winterStrings (.name .area_1)))]

/-- A response in an order of its own: the result comes before the success. -/
def winterTree : CJson :=
  .object [
    (Key.result, .object winterMembers),
    (Key.today, .number [48]),
    (CStr.ofChars ['S', 'u', 'c', 'c', 'e', 's', 's'], .string (CStr.ofChars ['1']))]

theorem completeResponse_winterTree : CompleteResponse winterTree winterStrings where
  distinct := by
    simp only [winterTree, winterMembers, winterDay, CJson.NamesDistinct, CJson.ItemsDistinct,
      CJson.MembersDistinct, and_true]
    decide
  success := CJson.contains_member 2 rfl (by decide) rfl
  members f := by
    have hresult {s : CStr} {path : List Step} (i : Nat) {c : CStr × CJson} {name : CStr}
        (hc : winterMembers[i]? = some c) (hname : foldedName c.1 = foldedName name)
        (h : c.2.Contains s path) :
        winterTree.Contains s (.member Key.result :: .member name :: path) :=
      CJson.contains_member 0 rfl rfl (CJson.contains_member i hc hname h)
    have hday (d : Fin 3) {s : CStr} {path : List Step} (h : (winterDay d).Contains s path) :
        winterTree.Contains s (dayPath d ++ path) := by
      revert d
      rw [Fin.forall_fin_succ, Fin.forall_fin_two]
      exact ⟨hresult 1 rfl rfl, fun h => hresult 0 rfl rfl (CJson.contains_index rfl h),
        fun h => hresult 0 rfl rfl (CJson.contains_index rfl h)⟩
    cases f with
    | name n =>
        cases n with
        | area_1 => exact hresult 4 rfl rfl rfl
        | area_2 => exact hresult 3 rfl rfl rfl
        | wtNm => exact hresult 2 rfl rfl (CJson.contains_member 2 rfl rfl rfl)
    | humi => exact hresult 2 rfl rfl (CJson.contains_member 0 rfl rfl rfl)
    | temp => exact hresult 2 rfl rfl (CJson.contains_member 1 rfl rfl rfl)
    | wtId => exact hresult 2 rfl rfl (CJson.contains_member 3 rfl rfl rfl)
    | aqi => exact hresult 2 rfl rfl (CJson.contains_member 4 rfl rfl rfl)
    | Temp_L d => exact hday d (CJson.contains_member 1 rfl rfl rfl)
    | Temp_H d => exact hday d (CJson.contains_member 2 rfl rfl rfl)
    | N_wtId d => exact hday d (CJson.contains_member 3 rfl rfl rfl)
    | D_wtId d => exact hday d (CJson.contains_member 4 rfl rfl rfl)

theorem storable_winterStrings : Storable id winterStrings winterNumbers where
  names _ := (by decide : 4 ≤ 9)
  numbers f hf := by
    have hhigh : DecimalText [51] 3 := .unsigned (by simp) (by simp [isdigit])
    have hlow : DecimalText [45, 49, 50] (-12) := .minus (by simp) (by simp [isdigit])
    have hother : DecimalText [50, 48, 53] 205 := .unsigned (by simp) (by simp [isdigit])
    have hint (v : Int) (hv : -100 ≤ v ∧ v ≤ 255) : -2147483648 ≤ v ∧ v ≤ 2147483647 := by
      omega
    cases f with
    | name n => exact absurd rfl (hf n)
    | Temp_H d => exact ⟨hhigh, hint 3 (by decide)⟩
    | Temp_L d => exact ⟨hlow, hint (-12) (by decide)⟩
    | aqi => exact ⟨hother, hint 205 (by decide)⟩
    | temp => exact ⟨hother, hint 205 (by decide)⟩
    | _ => exact ⟨hother, (by decide : 0 ≤ (205 : Int) ∧ (205 : Int) ≤ 255)⟩

theorem decoding_determined_winter :
    Field.expected id winterStrings winterNumbers (.Temp_L 2) = .int (-12) ∧
    ∀ g g' : Globals, ∀ f : Field,
      f.read ((weatherDataParse (.ofTrees [winterTree] id) winterTree.render).run g) =
        f.read ((weatherDataParse (.ofTrees [winterTree] id) winterTree.render).run g') := by
  refine ⟨rfl, fun g g' => ?_⟩
  exact (decoding_determined (cJSONParse_ofTrees_singleton winterTree id)
    completeResponse_winterTree storable_winterStrings g g').2.1

end WeatherStation
