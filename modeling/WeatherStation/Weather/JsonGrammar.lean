import WeatherStation.Weather.JsonString

/-!
# The grammar of JSON

What a JSON text is, independently of the parser: white space, numbers, strings,
arrays and objects by their productions.  Every text of the grammar is parsed to
the tree that it stands for, with the pointer left behind it.

Main results:

- Theorem {lit}`parseNumber_numberText`: a number ends where its production ends.
- Theorem {lit}`Derives.parsed`: the parser follows every production.
- Theorem {lit}`cJSONParse_complete`: a terminated JSON text gives its tree and no
  other.
-/

open Foundation

namespace WeatherStation

namespace JsonText

/-! ## White space -/

/-- White space between the tokens. -/
def IsSpace (w : List UInt8) : Prop :=
  ∀ c ∈ w, c = 32 ∨ c = 9 ∨ c = 10 ∨ c = 13

/-- The text behind a token starts with a byte for which {lit}`P` holds. -/
def Starts (P : UInt8 → Prop) (q : List UInt8) : Prop :=
  ∃ c r, q = c :: r ∧ P c

/-- A byte that {lit}`skip` stops at. -/
def Solid (c : UInt8) : Prop :=
  c = 0 ∨ 32 < c

theorem Starts.mono {P Q : UInt8 → Prop} {q : List UInt8} (h : Starts P q)
    (hPQ : ∀ c, P c → Q c) : Starts Q q := by
  rcases h with ⟨c, r, rfl, hc⟩
  exact ⟨c, r, rfl, hPQ c hc⟩

theorem skip_of_solid {q : List UInt8} (h : Starts Solid q) : skip q = .ok q := by
  rcases h with ⟨c, r, rfl, hc⟩
  rw [skip, if_neg]
  rintro ⟨hne, hle⟩
  rcases hc with rfl | hlt
  · exact hne rfl
  · exact absurd (UInt8.lt_of_lt_of_le hlt hle) (UInt8.lt_irrefl 32)

theorem skip_append {w q : List UInt8} (hw : IsSpace w) (hq : Starts Solid q) :
    skip (w ++ q) = .ok q := by
  induction w with
  | nil => exact skip_of_solid hq
  | cons c w ih =>
      have hc : c ≠ 0 ∧ c ≤ 32 := by
        rcases hw c List.mem_cons_self with rfl | rfl | rfl | rfl <;> decide
      rw [List.cons_append, skip, if_pos hc]
      exact ih fun d hd => hw d (List.mem_cons_of_mem c hd)

/-- What is left after skipping cannot be skipped any further. -/
theorem skip_skip {x p : Text} (h : skip x = .ok p) : skip p = .ok p := by
  induction x with
  | nil => cases h
  | cons c x ih =>
      rw [skip] at h
      split_ifs at h with hc
      · exact ih h
      · cases h
        rw [skip, if_neg hc]

/-! ## Numbers -/

/-- Decimal digits. -/
def IsDigits (ds : List UInt8) : Prop :=
  ∀ d ∈ ds, isdigit d

/-- A number: a sign, an integer without leading zeros, a fraction and an exponent. -/
inductive NumberText : List UInt8 → Prop where
  | parts {sign int frac exp : List UInt8} (hsign : sign = [] ∨ sign = [45])
      (hint : int = [48] ∨ ∃ c ds, int = c :: ds ∧ (49 ≤ c ∧ c ≤ 57) ∧ IsDigits ds)
      (hfrac : frac = [] ∨ ∃ d ds, frac = 46 :: d :: ds ∧ isdigit d ∧ IsDigits ds)
      (hexp : exp = [] ∨ ∃ e sgn d ds, exp = e :: (sgn ++ d :: ds) ∧ (e = 101 ∨ e = 69) ∧
        (sgn = [] ∨ sgn = [43] ∨ sgn = [45]) ∧ isdigit d ∧ IsDigits ds) :
      NumberText (sign ++ (int ++ (frac ++ exp)))

/-- A byte that ends a value: white space, a separator, a closing bracket or the
terminator. -/
def EndsValue (c : UInt8) : Prop :=
  c ≤ 32 ∨ c = 44 ∨ c = 93 ∨ c = 125

theorem EndsValue.not_number {c : UInt8} (h : EndsValue c) :
    ¬isdigit c ∧ c ≠ 46 ∧ c ≠ 101 ∧ c ≠ 69 := by
  rcases h with h | rfl | rfl | rfl
  · have hle : c.toNat ≤ 32 := h
    refine ⟨?_, ?_, ?_, ?_⟩
    · intro hdigit
      simp only [isdigit, Bool.and_eq_true, decide_eq_true_eq, UInt8.le_iff_toNat_le] at hdigit
      have hlow : 48 ≤ c.toNat := hdigit.1
      omega
    all_goals
      rintro rfl
      exact absurd hle (by decide)
  all_goals decide

theorem digits_append {ds q : List UInt8} (hds : IsDigits ds)
    (hq : Starts (fun c => ¬isdigit c) q) : digits (ds ++ q) = .ok q := by
  induction ds with
  | nil =>
      rcases hq with ⟨c, r, rfl, hc⟩
      rw [List.nil_append, digits, if_neg hc]
  | cons d ds ih =>
      rw [List.cons_append, digits, if_pos (hds d List.mem_cons_self)]
      exact ih fun e he => hds e (List.mem_cons_of_mem d he)

theorem isdigit_of_leading {c : UInt8} (hc : 49 ≤ c ∧ c ≤ 57) : isdigit c := by
  simp only [isdigit, Bool.and_eq_true, decide_eq_true_eq]
  exact ⟨UInt8.le_trans (by decide) hc.1, hc.2⟩

theorem isdigit_ne_signs {d : UInt8} (h : isdigit d) : d ≠ 43 ∧ d ≠ 45 := by
  constructor
  · rintro rfl
    exact absurd h (by decide)
  · rintro rfl
    exact absurd h (by decide)

/-- The integer is read up to a byte that is no digit. -/
theorem numberInt_append {int q : List UInt8}
    (hint : int = [48] ∨ ∃ c ds, int = c :: ds ∧ (49 ≤ c ∧ c ≤ 57) ∧ IsDigits ds)
    (hq : Starts (fun c => ¬isdigit c) q) : numberInt (int ++ q) = .ok q := by
  rcases hint with rfl | ⟨c, ds, rfl, hc, hds⟩
  · rcases hq with ⟨e, r, rfl, he⟩
    have hlarge : ¬(49 ≤ e ∧ e ≤ 57) := fun h => he (isdigit_of_leading h)
    simp [numberInt, deref, hlarge]
  · have hzero : c ≠ 48 := by
      rintro rfl
      exact absurd hc.1 (by decide)
    have hdigits := digits_append hds hq
    simp [numberInt, deref, hzero, hc, digits, isdigit_of_leading hc, hdigits]

/-- The fraction is read up to a byte that continues no number. -/
theorem numberFrac_append {frac q : List UInt8}
    (hfrac : frac = [] ∨ ∃ d ds, frac = 46 :: d :: ds ∧ isdigit d ∧ IsDigits ds)
    (hq : Starts (fun c => ¬isdigit c ∧ c ≠ 46) q) : numberFrac (frac ++ q) = .ok q := by
  rcases hfrac with rfl | ⟨d, ds, rfl, hd, hds⟩
  · rcases hq with ⟨c, r, rfl, hc⟩
    simp [numberFrac, deref, hc.2]
  · have hdigits := digits_append hds (hq.mono fun c hc => hc.1)
    simp [numberFrac, deref, hd, digits, hdigits]

/-- The exponent is read up to a byte that continues no number. -/
theorem numberExp_append {exp q : List UInt8}
    (hexp : exp = [] ∨ ∃ e sgn d ds, exp = e :: (sgn ++ d :: ds) ∧ (e = 101 ∨ e = 69) ∧
      (sgn = [] ∨ sgn = [43] ∨ sgn = [45]) ∧ isdigit d ∧ IsDigits ds)
    (hq : Starts (fun c => ¬isdigit c ∧ c ≠ 101 ∧ c ≠ 69) q) : numberExp (exp ++ q) = .ok q := by
  rcases hexp with rfl | ⟨e, sgn, d, ds, rfl, he, hsgn, hd, hds⟩
  · rcases hq with ⟨c, r, rfl, hc⟩
    simp [numberExp, deref, hc.2]
  · have hdigits := digits_append hds (hq.mono fun c hc => hc.1)
    have hne := isdigit_ne_signs hd
    rcases hsgn with rfl | rfl | rfl <;>
      simp [numberExp, deref, he, hd, hne, digits, hdigits]

/-- A number ends where its production ends. -/
theorem parseNumber_numberText {t q : List UInt8} (h : NumberText t) (hq : Starts EndsValue q) :
    parseNumber (t ++ q) = .ok q := by
  cases h with
  | @parts sign int frac exp hsign hint hfrac hexp =>
      have hq' := hq.mono fun c => EndsValue.not_number
      have hexpStarts : Starts (fun c => ¬isdigit c ∧ c ≠ 46) (exp ++ q) := by
        rcases hexp with rfl | ⟨e, sgn, d, ds, rfl, rfl | rfl, -⟩
        · exact hq'.mono fun c hc => ⟨hc.1, hc.2.1⟩
        · exact ⟨101, _, rfl, by decide⟩
        · exact ⟨69, _, rfl, by decide⟩
      have hfracStarts : Starts (fun c => ¬isdigit c) (frac ++ (exp ++ q)) := by
        rcases hfrac with rfl | ⟨d, ds, rfl, -⟩
        · exact hexpStarts.mono fun c hc => hc.1
        · exact ⟨46, _, rfl, by decide⟩
      have hunsigned : (do
          let num ← numberInt (int ++ (frac ++ (exp ++ q)))
          let num ← numberFrac num
          numberExp num) = .ok q := by
        rw [numberInt_append hint hfracStarts, Outcome.ok_bind,
          numberFrac_append hfrac hexpStarts, Outcome.ok_bind,
          numberExp_append hexp (hq'.mono fun c hc => ⟨hc.1, hc.2.2⟩)]
      rw [List.append_assoc, List.append_assoc, List.append_assoc, ← hunsigned]
      rcases hsign with rfl | rfl
      · obtain ⟨c, r, hstart, hc⟩ : Starts (fun c => c ≠ 45) (int ++ (frac ++ (exp ++ q))) := by
          rcases hint with rfl | ⟨c, ds, rfl, hc, -⟩
          · exact ⟨48, _, rfl, by decide⟩
          · exact ⟨c, _, rfl, (isdigit_ne_signs (isdigit_of_leading hc)).2⟩
        rw [List.nil_append, parseNumber, hstart, deref, Outcome.ok_bind, if_neg hc]
      · rfl

/-- A number starts with a digit or a minus sign. -/
theorem NumberText.head {t : List UInt8} (h : NumberText t) :
    ∃ c r, t = c :: r ∧ (c = 45 ∨ isdigit c) := by
  cases h with
  | @parts sign int frac exp hsign hint hfrac hexp =>
      rcases hsign with rfl | rfl
      · rcases hint with rfl | ⟨c, ds, rfl, hc, -⟩
        · exact ⟨48, _, rfl, .inr (by decide)⟩
        · exact ⟨c, _, rfl, .inr (isdigit_of_leading hc)⟩
      · exact ⟨45, _, rfl, .inl rfl⟩

/-! ## Values -/

/-- What a text can be derived as. -/
inductive Nonterminal where
  | value (c : CJson)
  /-- A value with the white space around it. -/
  | item (c : CJson)
  | items (cs : List CJson)
  | member (c : CStr × CJson)
  | members (cs : List (CStr × CJson))

/-- The productions of JSON. -/
inductive Derives : Nonterminal → List UInt8 → Prop where
  | null : Derives (.value .null) nullWord
  | «false» : Derives (.value .false) falseWord
  | «true» : Derives (.value .true) trueWord
  | number {t : List UInt8} (h : NumberText t) : Derives (.value (.number t)) t
  | string {t : List UInt8} {s : CStr} (h : StringText t s.bytes) :
      Derives (.value (.string s)) (34 :: (t ++ [34]))
  | emptyArray {w : List UInt8} (hw : IsSpace w) : Derives (.value (.array [])) (91 :: (w ++ [93]))
  | array {t : List UInt8} {cs : List CJson} (h : Derives (.items cs) t) :
      Derives (.value (.array cs)) (91 :: (t ++ [93]))
  | emptyObject {w : List UInt8} (hw : IsSpace w) :
      Derives (.value (.object [])) (123 :: (w ++ [125]))
  | object {t : List UInt8} {cs : List (CStr × CJson)} (h : Derives (.members cs) t) :
      Derives (.value (.object cs)) (123 :: (t ++ [125]))
  | item {w t w' : List UInt8} {c : CJson} (hw : IsSpace w) (h : Derives (.value c) t)
      (hw' : IsSpace w') : Derives (.item c) (w ++ (t ++ w'))
  | lastItem {t : List UInt8} {c : CJson} (h : Derives (.item c) t) : Derives (.items [c]) t
  | moreItems {t t' : List UInt8} {c : CJson} {cs : List CJson} (h : Derives (.item c) t)
      (h' : Derives (.items cs) t') : Derives (.items (c :: cs)) (t ++ 44 :: t')
  | member {w n w' t : List UInt8} {s : CStr} {c : CJson} (hw : IsSpace w)
      (hn : StringText n s.bytes) (hw' : IsSpace w') (h : Derives (.item c) t) :
      Derives (.member (s, c)) (w ++ 34 :: (n ++ 34 :: (w' ++ 58 :: t)))
  | lastMember {t : List UInt8} {c : CStr × CJson} (h : Derives (.member c) t) :
      Derives (.members [c]) t
  | moreMembers {t t' : List UInt8} {c : CStr × CJson} {cs : List (CStr × CJson)}
      (h : Derives (.member c) t) (h' : Derives (.members cs) t') :
      Derives (.members (c :: cs)) (t ++ 44 :: t')

/-- The text of a value is not empty. -/
theorem Derives.value_ne_nil {t : List UInt8} {c : CJson} (h : Derives (.value c) t) : t ≠ [] := by
  cases h with
  | null => exact List.cons_ne_nil _ _
  | «false» => exact List.cons_ne_nil _ _
  | «true» => exact List.cons_ne_nil _ _
  | number h =>
      obtain ⟨c, r, rfl, -⟩ := h.head
      exact List.cons_ne_nil _ _
  | string h => exact List.cons_ne_nil _ _
  | emptyArray hw => exact List.cons_ne_nil _ _
  | array h => exact List.cons_ne_nil _ _
  | emptyObject hw => exact List.cons_ne_nil _ _
  | object h => exact List.cons_ne_nil _ _

theorem Derives.item_ne_nil {t : List UInt8} {c : CJson} (h : Derives (.item c) t) : t ≠ [] := by
  cases h with
  | item hw h hw' =>
      intro hnil
      exact h.value_ne_nil (List.append_eq_nil_iff.mp (List.append_eq_nil_iff.mp hnil).2).1

/-! ## The parser on the productions -/

/-- A byte that stands behind an item or a member. -/
def IsSeparator (c : UInt8) : Prop :=
  c = 0 ∨ c = 44 ∨ c = 93 ∨ c = 125

theorem IsSeparator.solid {c : UInt8} (h : IsSeparator c) : Solid c := by
  rcases h with rfl | rfl | rfl | rfl
  · exact .inl rfl
  all_goals exact .inr (by decide)

theorem IsSeparator.endsValue {c : UInt8} (h : IsSeparator c) : EndsValue c := by
  rcases h with rfl | h
  · exact .inl (by decide)
  · exact .inr h

/-- A byte that starts a value. -/
def StartsValue (c : UInt8) : Prop :=
  c = 110 ∨ c = 102 ∨ c = 116 ∨ c = 34 ∨ (c = 45 ∨ isdigit c) ∨ c = 91 ∨ c = 123

/-- Only the start of a value is parsed as one. -/
theorem startsValue_of_parseValue {n : Nat} {c : UInt8} {r : Text} {x : CJson × Text}
    (h : parseValue n (c :: r) = .ok x) : StartsValue c := by
  by_contra hc
  simp only [StartsValue, not_or] at hc
  cases n with
  | zero => cases h
  | succ n =>
      simp [parseValue, startsWith, nullWord, falseWord, trueWord, deref, hc] at h

/-- A member starts with the quote of its name. -/
theorem skip_of_parseMember {n : Nat} {x : Text} {y : (CStr × CJson) × Text}
    (h : parseMember n x = .ok y) : ∃ r, skip x = .ok (34 :: r) := by
  cases n with
  | zero => cases h
  | succ n =>
      cases hskip : skip x with
      | refused => simp [parseMember, hskip] at h
      | fault e => simp [parseMember, hskip] at h
      | ok p =>
          cases p with
          | nil => simp [parseMember, hskip, parseString, deref] at h
          | cons c r =>
              by_cases hc : c = 34
              · exact ⟨r, by rw [hc]⟩
              · simp [parseMember, hskip, parseString, deref, hc] at h

/-- What is skipped before a member does not matter. -/
theorem parseMember_skip {x p : Text} (h : skip x = .ok p) (n : Nat) :
    parseMember n p = parseMember n x := by
  cases n with
  | zero => rfl
  | succ n => rw [parseMember, parseMember, h, skip_skip h]

/-- The parser follows a derivation: it hands back the tree and leaves the pointer
behind the text, with a depth bound of three times the length of the text. -/
def Parsed (t : List UInt8) : Nonterminal → Prop
  | .value c => ∀ n rest, 3 * t.length ≤ n → Starts EndsValue rest →
      parseValue n (t ++ rest) = .ok (c, rest)
  | .item c => ∀ n rest, 3 * t.length ≤ n → Starts IsSeparator rest →
      ∃ p q, skip (t ++ rest) = .ok p ∧ parseValue n p = .ok (c, q) ∧ skip q = .ok rest
  | .items cs => ∃ c cs', cs = c :: cs' ∧ ∀ n r, 3 * t.length + 1 ≤ n →
      ∃ p q q', skip (t ++ 93 :: r) = .ok p ∧ parseValue n p = .ok (c, q) ∧ skip q = .ok q' ∧
        parseItems n q' = .ok (cs', 93 :: r)
  | .member c => ∀ n rest, 3 * t.length ≤ n → Starts IsSeparator rest →
      parseMember n (t ++ rest) = .ok (c, rest)
  | .members cs => ∃ c cs', cs = c :: cs' ∧ ∀ n r, 3 * t.length + 1 ≤ n →
      ∃ q, parseMember n (t ++ 125 :: r) = .ok (c, q) ∧ parseMembers n q = .ok (cs', 125 :: r)

theorem parsed_string {t : List UInt8} {s : CStr} (h : StringText t s.bytes) :
    Parsed (34 :: (t ++ [34])) (.value (.string s)) := by
  intro n rest hn hrest
  obtain ⟨n, rfl⟩ : ∃ k, n = k + 1 := ⟨n - 1, by simp only [List.length_cons] at hn; omega⟩
  have hstring : parseString (34 :: (t ++ 34 :: rest)) = .ok (s, rest) :=
    parseString_stringText rest h
  simp [parseValue, startsWith, nullWord, falseWord, trueWord, deref, hstring]

theorem parsed_number {t : List UInt8} (h : NumberText t) : Parsed t (.value (.number t)) := by
  intro n rest hn hrest
  obtain ⟨c, r, rfl, hc⟩ := h.head
  obtain ⟨n, rfl⟩ : ∃ k, n = k + 1 := ⟨n - 1, by simp only [List.length_cons] at hn; omega⟩
  have hend := parseNumber_numberText h hrest
  have hword : c ≠ 110 ∧ c ≠ 102 ∧ c ≠ 116 ∧ c ≠ 34 := by
    refine ⟨?_, ?_, ?_, ?_⟩ <;>
      (rintro rfl; exact absurd hc (by decide))
  have hchars :
      List.take (r.length + rest.length + 1 - rest.length) (c :: (r ++ rest)) = c :: r := by
    rw [Nat.add_right_comm, Nat.add_sub_cancel]
    exact @List.take_left _ (c :: r) rest
  rw [List.cons_append] at hend
  simp [parseValue, startsWith, nullWord, falseWord, trueWord, deref, hword, hc, hend, hchars]

theorem parsed_array {t : List UInt8} {cs : List CJson} (h : Parsed t (.items cs)) :
    Parsed (91 :: (t ++ [93])) (.value (.array cs)) := by
  intro n rest hn hrest
  simp only [List.length_cons, List.length_append, List.length_nil] at hn
  obtain ⟨n, rfl⟩ : ∃ k, n = k + 2 := ⟨n - 2, by omega⟩
  obtain ⟨c, cs', rfl, hitems⟩ := h
  obtain ⟨p, q, q', hp, hvalue, hq, hrest'⟩ := hitems n rest (by omega)
  have harray : parseArray (n + 1) (91 :: (t ++ 93 :: rest)) = .ok (.array (c :: cs'), rest) := by
    cases p with
    | nil => cases n <;> simp [parseValue, startsWith, nullWord] at hvalue
    | cons d p =>
        have hd : d ≠ 93 := by
          rintro rfl
          exact absurd (startsValue_of_parseValue hvalue) (by simp [StartsValue, isdigit])
        simp [parseArray, deref, hp, hd, skip_skip hp, hvalue, hq, hrest']
  simp [parseValue, startsWith, nullWord, falseWord, trueWord, deref, isdigit, harray]

theorem parsed_object {t : List UInt8} {cs : List (CStr × CJson)} (h : Parsed t (.members cs)) :
    Parsed (123 :: (t ++ [125])) (.value (.object cs)) := by
  intro n rest hn hrest
  simp only [List.length_cons, List.length_append, List.length_nil] at hn
  obtain ⟨n, rfl⟩ : ∃ k, n = k + 2 := ⟨n - 2, by omega⟩
  obtain ⟨c, cs', rfl, hmembers⟩ := h
  obtain ⟨q, hmember, hrest'⟩ := hmembers n rest (by omega)
  have hobject : parseObject (n + 1) (123 :: (t ++ 125 :: rest)) =
      .ok (.object (c :: cs'), rest) := by
    obtain ⟨p, hp⟩ := skip_of_parseMember hmember
    rw [← parseMember_skip hp] at hmember
    simp [parseObject, deref, hp, hmember, hrest']
  simp [parseValue, startsWith, nullWord, falseWord, trueWord, deref, isdigit, hobject]

theorem parsed_item {w t w' : List UInt8} {c : CJson} (hw : IsSpace w)
    (h : Parsed t (.value c)) (hw' : IsSpace w') : Parsed (w ++ (t ++ w')) (.item c) := by
  intro n rest hn hrest
  simp only [List.length_append] at hn
  have hq : Starts EndsValue (w' ++ rest) := by
    cases w' with
    | nil => exact hrest.mono fun c => IsSeparator.endsValue
    | cons d w' =>
        refine ⟨d, w' ++ rest, rfl, .inl ?_⟩
        rcases hw' d List.mem_cons_self with rfl | rfl | rfl | rfl <;> decide
  have hvalue := h n (w' ++ rest) (by omega) hq
  refine ⟨t ++ (w' ++ rest), w' ++ rest, ?_, hvalue,
    skip_append hw' (hrest.mono fun c => IsSeparator.solid)⟩
  rw [List.append_assoc, List.append_assoc]
  refine skip_append hw ?_
  cases hp : t ++ (w' ++ rest) with
  | nil =>
      rw [hp] at hvalue
      cases n <;> simp [parseValue, startsWith, nullWord] at hvalue
  | cons d p =>
      rw [hp] at hvalue
      refine ⟨d, p, rfl, .inr ?_⟩
      rcases startsValue_of_parseValue hvalue with rfl | rfl | rfl | rfl | (rfl | hd) | rfl | rfl
      · decide
      · decide
      · decide
      · decide
      · decide
      · simp only [isdigit, Bool.and_eq_true, decide_eq_true_eq] at hd
        exact UInt8.lt_of_lt_of_le (by decide) hd.1
      · decide
      · decide

theorem parsed_moreItems {t t' : List UInt8} {c : CJson} {cs : List CJson}
    (h : Parsed t (.item c)) (h' : Parsed t' (.items cs)) :
    Parsed (t ++ 44 :: t') (.items (c :: cs)) := by
  obtain ⟨c', cs', rfl, hitems⟩ := h'
  refine ⟨c, c' :: cs', rfl, ?_⟩
  intro n r hn
  simp only [List.length_append, List.length_cons] at hn
  obtain ⟨n, rfl⟩ : ∃ k, n = k + 1 := ⟨n - 1, by omega⟩
  obtain ⟨p, q, hp, hvalue, hq⟩ :=
    h (n + 1) (44 :: (t' ++ 93 :: r)) (by omega) ⟨44, _, rfl, .inr (.inl rfl)⟩
  obtain ⟨p', u, u', hp', hvalue', hu, hrest⟩ := hitems n r (by omega)
  refine ⟨p, q, 44 :: (t' ++ 93 :: r), ?_, hvalue, hq, ?_⟩
  · rw [List.append_assoc, List.cons_append]
    exact hp
  · simp [parseItems, deref, hp', hvalue', hu, hrest]

theorem parsed_member {w n w' t : List UInt8} {s : CStr} {c : CJson} (hw : IsSpace w)
    (hn : StringText n s.bytes) (hw' : IsSpace w') (h : Parsed t (.item c)) :
    Parsed (w ++ 34 :: (n ++ 34 :: (w' ++ 58 :: t))) (.member (s, c)) := by
  intro k rest hk hrest
  simp only [List.length_append, List.length_cons] at hk
  obtain ⟨k, rfl⟩ : ∃ j, k = j + 1 := ⟨k - 1, by omega⟩
  obtain ⟨p, q, hp, hvalue, hq⟩ := h k rest (by omega) hrest
  have hquote := skip_append (q := 34 :: (n ++ 34 :: (w' ++ 58 :: (t ++ rest)))) hw
    ⟨34, _, rfl, .inr (by decide)⟩
  have hcolon := skip_append (q := 58 :: (t ++ rest)) hw' ⟨58, _, rfl, .inr (by decide)⟩
  have hstring := parseString_stringText (w' ++ 58 :: (t ++ rest)) hn
  simp [parseMember, hquote, hstring, hcolon, deref, hp, hvalue, hq]

theorem parsed_moreMembers {t t' : List UInt8} {c : CStr × CJson} {cs : List (CStr × CJson)}
    (h : Parsed t (.member c)) (h' : Parsed t' (.members cs)) :
    Parsed (t ++ 44 :: t') (.members (c :: cs)) := by
  obtain ⟨c', cs', rfl, hmembers⟩ := h'
  refine ⟨c, c' :: cs', rfl, ?_⟩
  intro n r hn
  simp only [List.length_append, List.length_cons] at hn
  obtain ⟨n, rfl⟩ : ∃ k, n = k + 1 := ⟨n - 1, by omega⟩
  have hmember := h (n + 1) (44 :: (t' ++ 125 :: r)) (by omega) ⟨44, _, rfl, .inr (.inl rfl)⟩
  obtain ⟨q, hmember', hrest⟩ := hmembers n r (by omega)
  refine ⟨44 :: (t' ++ 125 :: r), ?_, ?_⟩
  · rw [List.append_assoc, List.cons_append]
    exact hmember
  · simp [parseMembers, deref, hmember', hrest]

/-- The parser follows every production. -/
theorem Derives.parsed {nt : Nonterminal} {t : List UInt8} (h : Derives nt t) : Parsed t nt := by
  have hword {word : List UInt8} {c : CJson} (hpos : 0 < word.length)
      (hparse : ∀ n rest, parseValue (n + 1) (word ++ rest) = .ok (c, rest)) :
      Parsed word (.value c) := by
    intro n rest hn hrest
    obtain ⟨n, rfl⟩ : ∃ k, n = k + 1 := ⟨n - 1, by omega⟩
    exact hparse n rest
  induction h with
  | null => exact hword (by decide) fun n rest => rfl
  | «false» => exact hword (by decide) fun n rest => rfl
  | «true» => exact hword (by decide) fun n rest => rfl
  | number h => exact parsed_number h
  | string h => exact parsed_string h
  | @emptyArray w hw =>
      intro n rest hn hrest
      obtain ⟨n, rfl⟩ : ∃ k, n = k + 2 := ⟨n - 2, by simp only [List.length_cons] at hn; omega⟩
      have hskip := skip_append (q := 93 :: rest) hw ⟨93, _, rfl, .inr (by decide)⟩
      simp [parseValue, startsWith, nullWord, falseWord, trueWord, deref, isdigit, parseArray,
        hskip]
  | array h ih => exact parsed_array ih
  | @emptyObject w hw =>
      intro n rest hn hrest
      obtain ⟨n, rfl⟩ : ∃ k, n = k + 2 := ⟨n - 2, by simp only [List.length_cons] at hn; omega⟩
      have hskip := skip_append (q := 125 :: rest) hw ⟨125, _, rfl, .inr (by decide)⟩
      simp [parseValue, startsWith, nullWord, falseWord, trueWord, deref, isdigit, parseObject,
        hskip]
  | object h ih => exact parsed_object ih
  | item hw h hw' ih => exact parsed_item hw ih hw'
  | @lastItem t c h ih =>
      refine ⟨c, [], rfl, ?_⟩
      intro n r hn
      obtain ⟨n, rfl⟩ : ∃ k, n = k + 1 := ⟨n - 1, by omega⟩
      obtain ⟨p, q, hp, hvalue, hq⟩ :=
        ih (n + 1) (93 :: r) (by omega) ⟨93, r, rfl, .inr (.inr (.inl rfl))⟩
      refine ⟨p, q, 93 :: r, hp, hvalue, hq, ?_⟩
      simp [parseItems, deref]
  | moreItems h h' ih ih' => exact parsed_moreItems ih ih'
  | member hw hn hw' h ih => exact parsed_member hw hn hw' ih
  | @lastMember t c h ih =>
      refine ⟨c, [], rfl, ?_⟩
      intro n r hn
      obtain ⟨n, rfl⟩ : ∃ k, n = k + 1 := ⟨n - 1, by omega⟩
      refine ⟨125 :: r, ih (n + 1) (125 :: r) (by omega) ⟨125, r, rfl, .inr (.inr (.inr rfl))⟩, ?_⟩
      simp [parseMembers, deref]
  | moreMembers h h' ih ih' => exact parsed_moreMembers ih ih'

/-! ## Whole texts -/

/-- A JSON text in front of its terminator is parsed to its tree.  The options do not
matter, and neither does what stands behind the terminator. -/
theorem cJSONParseWithOpts_of_derives {t : List UInt8} {c : CJson} (h : Derives (.item c) t)
    (after : List UInt8) (require_null_terminated : Bool) :
    ∃ «end», cJSONParseWithOpts (t ++ 0 :: after) require_null_terminated = .ok (c, «end») ∧
      skip «end» = .ok (0 :: after) := by
  have hterminator : Starts IsSeparator (0 :: after) := ⟨0, after, rfl, .inl rfl⟩
  obtain ⟨p, q, hp, hvalue, hq⟩ := h.parsed (3 * (t ++ 0 :: after).length + 3) (0 :: after)
    (by rw [List.length_append]; omega) hterminator
  cases require_null_terminated with
  | false =>
      refine ⟨q, ?_, hq⟩
      rw [cJSONParseWithOpts, hp, Outcome.ok_bind, hvalue]
      rfl
  | true =>
      refine ⟨0 :: after, ?_, skip_of_solid (hterminator.mono fun c => IsSeparator.solid)⟩
      rw [cJSONParseWithOpts, hp, Outcome.ok_bind, hvalue]
      simp [hq, deref]

/-- Every JSON text gives the tree that it stands for. -/
theorem cJSONParse_of_derives {t : List UInt8} {c : CJson} (h : Derives (.item c) t)
    (after : List UInt8) : cJSONParse (t ++ 0 :: after) = .ok c := by
  obtain ⟨«end», hparse, -⟩ := cJSONParseWithOpts_of_derives h after false
  rw [cJSONParse, hparse]
  rfl

/-- Every JSON text is parsed completely: it gives the tree that it stands for, the
strict option finds nothing but white space behind it, and no other tree has this text. -/
theorem cJSONParse_complete {t : List UInt8} {c : CJson} (h : Derives (.item c) t)
    (after : List UInt8) :
    cJSONParse (t ++ 0 :: after) = .ok c ∧
    (∃ «end», cJSONParseWithOpts (t ++ 0 :: after) true = .ok (c, «end») ∧
      skip «end» = .ok (0 :: after)) ∧
    ∀ c', Derives (.item c') t → c' = c := by
  refine ⟨cJSONParse_of_derives h after, cJSONParseWithOpts_of_derives h after true, ?_⟩
  intro c' h'
  have hparse := cJSONParse_of_derives h []
  rw [cJSONParse_of_derives h' []] at hparse
  exact Outcome.ok.inj hparse

/-- An array of two numbers with white space in it. -/
theorem cJSONParse_complete_array :
    cJSONParse ([32, 91, 49, 32, 44, 10, 45, 50, 93] ++ [0]) =
      .ok (.array [.number [49], .number [45, 50]]) := by
  have hspace {w : List UInt8} (hw : w = [] ∨ w = [32] ∨ w = [10]) : IsSpace w := by
    rcases hw with rfl | rfl | rfl <;> simp [IsSpace]
  have hone : NumberText [49] :=
    .parts (.inl rfl) (.inr ⟨49, [], rfl, by decide, by simp [IsDigits]⟩) (.inl rfl) (.inl rfl)
  have htwo : NumberText [45, 50] :=
    .parts (.inr rfl) (.inr ⟨50, [], rfl, by decide, by simp [IsDigits]⟩) (.inl rfl) (.inl rfl)
  have hitems := Derives.moreItems
    (.item (hspace (.inl rfl)) (.number hone) (hspace (.inr (.inl rfl))))
    (.lastItem (.item (hspace (.inr (.inr rfl))) (.number htwo) (hspace (.inl rfl))))
  exact (cJSONParse_complete
    (.item (hspace (.inr (.inl rfl))) (.array hitems) (hspace (.inl rfl))) []).1

end JsonText

end WeatherStation
