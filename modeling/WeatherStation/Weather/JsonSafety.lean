import Mathlib.Data.Fin.VecNotation
import WeatherStation.Weather.JsonGrammar

/-!
# Memory safety of the JSON parser

The parser stops at the terminator of its text only where it looks for it.  A
backslash makes it step over the next character, and {lit}`\u` over four
characters, without a look.  When every escape is complete, no byte behind the
terminator is read and no string is written past its block, however malformed the
text is otherwise.  An incomplete escape breaks both.

Main results:

- Theorem {lit}`exists_copies`: with complete escapes a string is stepped over up to
  a quote or the terminator.
- Theorem {lit}`parse_satisfies`: every routine stays in front of the terminator.
- Theorem {lit}`cJSONParse_ne_fault`: the parser makes no invalid access.
- Theorem {lit}`cJSONParse_short_escape`: an escape that stops at a quote makes the
  string's block overflow by what follows.
-/

open Foundation

namespace WeatherStation

namespace JsonText

/-! ## Complete escapes -/

/-- The escapes are complete in the text behind a quote, up to the next quote. -/
inductive CompleteEscapes : List UInt8 → Prop where
  | ends : CompleteEscapes []
  | quote (t : List UInt8) : CompleteEscapes (34 :: t)
  | plain {c : UInt8} {t : List UInt8} (hc : c ≠ 92) (h : CompleteEscapes t) :
      CompleteEscapes (c :: t)
  | short {c : UInt8} {t : List UInt8} (hc : c ≠ 117) (h : CompleteEscapes t) :
      CompleteEscapes (92 :: c :: t)
  | unicode {d t : List UInt8} {u : Nat} (hd : HexText d u) (h : CompleteEscapes t) :
      CompleteEscapes (92 :: 117 :: (d ++ t))

/-- An escaped code unit follows, or the parser sees that none does. -/
theorem CompleteEscapes.second {t : List UInt8} (h : CompleteEscapes t) (after : List UInt8) :
    (∃ d u t', t = 92 :: 117 :: (d ++ t') ∧ HexText d u ∧ CompleteEscapes t') ∨
      startsWith [92, 117] (t ++ 0 :: after) = .ok false := by
  cases h with
  | ends => exact .inr rfl
  | quote t => exact .inr rfl
  | plain hc h => exact .inr (if_neg hc)
  | short hc h => exact .inr ((if_pos rfl).trans (if_neg hc))
  | unicode hd h => exact .inl ⟨_, _, _, rfl, hd, h⟩

/-- With complete escapes both loops of {lit}`parse_string` step over the text up to
a quote or the terminator. -/
theorem exists_copies {t : List UInt8} (h : CompleteEscapes t) (hzero : 0 ∉ t)
    (after : List UInt8) :
    ∃ t' s bs, t = t' ++ s ∧ Copies (s ++ 0 :: after) t' bs ∧ (s = [] ∨ ∃ s', s = 34 :: s') := by
  -- One more text `u` in front of the rest, which is shorter than `t`.
  have hstep {u t₂ bs : List UInt8} (hcopy : Copies (t₂ ++ 0 :: after) u bs)
      (hrest : ∃ t' s bs, t₂ = t' ++ s ∧ Copies (s ++ 0 :: after) t' bs ∧
        (s = [] ∨ ∃ s', s = 34 :: s')) :
      ∃ t' s bs, u ++ t₂ = t' ++ s ∧ Copies (s ++ 0 :: after) t' bs ∧
        (s = [] ∨ ∃ s', s = 34 :: s') := by
    obtain ⟨t', s, bs', rfl, hcopy', hs⟩ := hrest
    rw [List.append_assoc] at hcopy
    exact ⟨u ++ t', s, bs ++ bs', (List.append_assoc u t' s).symm, hcopy.append hcopy', hs⟩
  induction hlen : t.length using Nat.strong_induction_on generalizing t with
  | h len ih =>
      cases h with
      | ends => exact ⟨[], [], [], rfl, Copies.nil _, .inl rfl⟩
      | quote t => exact ⟨[], 34 :: t, [], rfl, Copies.nil _, .inr ⟨t, rfl⟩⟩
      | @plain c t hc h =>
          rw [List.mem_cons, not_or] at hzero
          by_cases hquote : c = 34
          · rw [hquote]
            exact ⟨[], 34 :: t, [], rfl, Copies.nil _, .inr ⟨t, rfl⟩⟩
          · exact hstep (copies_plain hquote (Ne.symm hzero.1) hc)
              (ih t.length (by rw [← hlen]; simp) h hzero.2 rfl)
      | @short c t hc h =>
          exact hstep (u := [92, c]) (copies_short hc)
            (ih t.length (by rw [← hlen, List.length_cons, List.length_cons]; omega) h
              (by simp_all) rfl)
      | @unicode d t u hd h =>
          have hzero' : 0 ∉ t := by simp_all
          have hrest := ih t.length (by rw [← hlen]; simp; omega) h hzero' rfl
          by_cases hdrop : 0xDC00 ≤ u ∧ u ≤ 0xDFFF ∨ u = 0
          · exact hstep (u := 92 :: 117 :: d) (copies_dropped hd hdrop) hrest
          by_cases hhigh : 0xD800 ≤ u ∧ u ≤ 0xDBFF
          · rcases h.second after with ⟨d', u', t₂, rfl, hd', h'⟩ | hlone
            · -- The high surrogate takes the second code unit with it.
              have hrest' := ih t₂.length (by rw [← hlen]; simp; omega) h' (by simp_all) rfl
              have hpair := hstep (copies_pair hd hhigh hd') hrest'
              simp only [List.cons_append, List.append_assoc] at hpair ⊢
              exact hpair
            · exact hstep (u := 92 :: 117 :: d) (copies_lone hd hhigh hlone) hrest
          · exact hstep (u := 92 :: 117 :: d) (copies_unit hd (by omega) (by omega)) hrest

/-! ## In front of the terminator -/

/-- The escapes are complete behind every quote of the text. -/
def EscapesComplete (t : List UInt8) : Prop :=
  ∀ u v, t = u ++ 34 :: v → CompleteEscapes v

theorem EscapesComplete.suffix {t u : List UInt8} (h : EscapesComplete (u ++ t)) :
    EscapesComplete t := by
  rintro u' v rfl
  exact h (u ++ u') v (by rw [List.append_assoc])

/-- The pointer stands in front of the terminator, or at it, in a text with complete
escapes. -/
def Within (after p : Text) : Prop :=
  ∃ t, p = t ++ 0 :: after ∧ 0 ∉ t ∧ EscapesComplete t

variable {after : Text}

theorem Within.exists_cons {p : Text} (h : Within after p) : ∃ c r, p = c :: r := by
  obtain ⟨t, rfl, -, -⟩ := h
  cases t with
  | nil => exact ⟨0, after, rfl⟩
  | cons c t => exact ⟨c, t ++ 0 :: after, rfl⟩

theorem Within.length_pos {p : Text} (h : Within after p) : 0 < p.length := by
  obtain ⟨c, r, rfl⟩ := h.exists_cons
  exact Nat.succ_pos _

/-- One step forward from a character that is not the terminator. -/
theorem Within.next {c : UInt8} {p : Text} (h : Within after (c :: p)) (hc : c ≠ 0) :
    Within after p := by
  obtain ⟨t, ht, hzero, hescapes⟩ := h
  cases t with
  | nil =>
      rw [List.nil_append, List.cons.injEq] at ht
      exact absurd ht.1 hc
  | cons d t =>
      rw [List.cons_append, List.cons.injEq] at ht
      exact ⟨t, ht.2, fun hmem => hzero (List.mem_cons_of_mem d hmem),
        EscapesComplete.suffix (u := [d]) hescapes⟩

/-- What a routine hands back when it stays in front of the terminator and its pointer
moves by at least {lit}`k` characters. -/
def Moved (after : Text) (k : Nat) (p q : Text) : Prop :=
  Within after q ∧ q.length + k ≤ p.length

theorem Moved.refl {p : Text} (h : Within after p) : Moved after 0 p p :=
  ⟨h, le_rfl⟩

theorem Moved.trans {k k' : Nat} {p q r : Text} (h : Moved after k p q)
    (h' : Moved after k' q r) : Moved after (k + k') p r :=
  ⟨h'.1, by have hpq := h.2; have hqr := h'.2; omega⟩

theorem Moved.mono {k k' : Nat} {p q : Text} (h : Moved after k p q) (hk : k' ≤ k) :
    Moved after k' p q :=
  ⟨h.1, by have hpq := h.2; omega⟩

theorem Within.moved_next {c : UInt8} {p : Text} (h : Within after (c :: p)) (hc : c ≠ 0) :
    Moved after 1 (c :: p) p :=
  ⟨h.next hc, le_rfl⟩

theorem deref_satisfies {p : Text} (h : Within after p) :
    (deref p).Satisfies fun c => ∃ r, p = c :: r := by
  obtain ⟨c, r, rfl⟩ := h.exists_cons
  exact ⟨r, rfl⟩

theorem skip_satisfies {p : Text} (h : Within after p) :
    (skip p).Satisfies (Moved after 0 p) := by
  induction p with
  | nil =>
      obtain ⟨c, r, hnil⟩ := h.exists_cons
      cases hnil
  | cons c p ih =>
      rw [skip]
      split_ifs with hc
      · exact (ih (h.next hc.1)).mono fun q hq => ((h.moved_next hc.1).trans hq).mono (by omega)
      · exact Moved.refl h

theorem startsWith_satisfies {word p : Text} (hword : 0 ∉ word) (h : Within after p) :
    (startsWith word p).Satisfies fun found =>
      found = true → Moved after word.length p (p.drop word.length) := by
  induction word generalizing p with
  | nil => exact fun hfound => Moved.refl h
  | cons w word ih =>
      rw [List.mem_cons, not_or] at hword
      obtain ⟨c, p, rfl⟩ := h.exists_cons
      rw [startsWith]
      split_ifs with hc
      · have hc0 : c ≠ 0 := fun hc0 => hword.1 (hc0.symm.trans hc)
        refine (ih hword.2 (h.next hc0)).mono ?_
        intro found hrest hfound
        exact ((h.moved_next hc0).trans (hrest hfound)).mono (by simp [Nat.add_comm])
      · exact fun hfound => absurd hfound (by decide)

/-! ## Numbers and strings -/

theorem digits_satisfies {p : Text} (h : Within after p) :
    (digits p).Satisfies (Moved after 0 p) := by
  induction p with
  | nil =>
      obtain ⟨c, r, hnil⟩ := h.exists_cons
      cases hnil
  | cons c p ih =>
      rw [digits]
      split_ifs with hc
      · have hc0 : c ≠ 0 := by
          rintro rfl
          exact absurd hc (by decide)
        exact (ih (h.next hc0)).mono fun q hq => ((h.moved_next hc0).trans hq).mono (by omega)
      · exact Moved.refl h

theorem numberInt_satisfies {c : UInt8} {p : Text} (h : Within after (c :: p)) :
    (numberInt (c :: p)).Satisfies (Moved after (if isdigit c then 1 else 0) (c :: p)) := by
  have htail {q : Text} (hq : Within after q) :
      Outcome.Satisfies (do
        let d ← deref q
        if 49 ≤ d ∧ d ≤ 57 then digits q else pure q) (Moved after 0 q) := by
    refine (deref_satisfies hq).bind ?_
    intro d hd
    split_ifs
    · exact digits_satisfies hq
    · exact Moved.refl hq
  rw [numberInt, deref_cons, Outcome.ok_bind, List.drop_one, List.tail_cons]
  by_cases hzero : c = 48
  · have hmoved : Moved after 1 (c :: p) p := h.moved_next (by rw [hzero]; decide)
    rw [if_pos hzero]
    refine (htail hmoved.1).mono ?_
    intro q hq
    exact (hmoved.trans hq).mono (by split_ifs <;> omega)
  · rw [if_neg hzero]
    simp only [deref_cons, Outcome.ok_bind]
    split_ifs with hdigits hdigit hdigit
    · have hc : c ≠ 0 := by
        rintro rfl
        exact absurd hdigit (by decide)
      rw [digits, if_pos hdigit]
      exact (digits_satisfies (h.next hc)).mono fun q hq => (h.moved_next hc).trans hq
    · exact absurd (isdigit_of_leading hdigits) hdigit
    · simp only [isdigit, Bool.and_eq_true, decide_eq_true_eq] at hdigit
      exfalso
      refine hdigits ⟨?_, hdigit.2⟩
      have hlow : 48 ≤ c.toNat := hdigit.1
      have hne : c.toNat ≠ 48 := fun heq => hzero (UInt8.toNat_inj.mp heq)
      exact UInt8.le_iff_toNat_le.mpr (by change 49 ≤ c.toNat; omega)
    · exact Moved.refl h

theorem numberFrac_satisfies {p : Text} (h : Within after p) :
    (numberFrac p).Satisfies (Moved after 0 p) := by
  obtain ⟨c, p, rfl⟩ := h.exists_cons
  rw [numberFrac, deref_cons, Outcome.ok_bind, List.drop_one, List.tail_cons]
  split_ifs with hpoint
  · have hmoved : Moved after 1 (c :: p) p := h.moved_next (by rw [hpoint]; decide)
    refine (deref_satisfies hmoved.1).bind ?_
    intro d hd
    split_ifs
    · exact (digits_satisfies hmoved.1).mono fun q hq => (hmoved.trans hq).mono (by omega)
    · exact Moved.refl h
  · exact Moved.refl h

theorem numberExp_satisfies {p : Text} (h : Within after p) :
    (numberExp p).Satisfies (Moved after 0 p) := by
  obtain ⟨c, p, rfl⟩ := h.exists_cons
  rw [numberExp, deref_cons, Outcome.ok_bind, List.drop_one, List.tail_cons]
  split_ifs with hexp
  · have hmoved : Moved after 1 (c :: p) p :=
      h.moved_next (by rcases hexp with rfl | rfl <;> decide)
    obtain ⟨d, r, rfl⟩ := hmoved.1.exists_cons
    simp only [deref_cons, Outcome.ok_bind, List.drop_one, List.tail_cons]
    split_ifs with hsign
    · have hsigned := hmoved.trans
        (hmoved.1.moved_next (by rcases hsign with rfl | rfl <;> decide))
      exact (digits_satisfies hsigned.1).mono fun q hq => (hsigned.trans hq).mono (by omega)
    · exact (digits_satisfies hmoved.1).mono fun q hq => (hmoved.trans hq).mono (by omega)
  · exact Moved.refl h

/-- A number moves the pointer at least over its first character. -/
theorem parseNumber_satisfies {c : UInt8} {p : Text} (h : Within after (c :: p))
    (hc : c = 45 ∨ isdigit c) : (parseNumber (c :: p)).Satisfies (Moved after 1 (c :: p)) := by
  have hint : (numberInt (if c = 45 then p else c :: p)).Satisfies (Moved after 1 (c :: p)) := by
    split_ifs with hminus
    · have hmoved : Moved after 1 (c :: p) p := h.moved_next (by rw [hminus]; decide)
      obtain ⟨d, r, rfl⟩ := hmoved.1.exists_cons
      exact (numberInt_satisfies hmoved.1).mono fun q hq => (hmoved.trans hq).mono (by omega)
    · exact (numberInt_satisfies h).mono fun q hq => hq.mono
        (by rw [if_pos (hc.resolve_left hminus)])
  rw [parseNumber, deref_cons, Outcome.ok_bind, List.drop_one, List.tail_cons]
  refine hint.bind ?_
  intro q hq
  refine (numberFrac_satisfies hq.1).bind ?_
  intro r hr
  exact (numberExp_satisfies hr.1).mono fun u hu => (hq.trans hr).trans hu

/-- A string moves the pointer at least over its opening quote, and it fits in its
block. -/
theorem parseString_satisfies {p : Text} (h : Within after p) :
    (parseString p).Satisfies fun x => Moved after 1 p x.2 := by
  obtain ⟨t, rfl, hzero, hescapes⟩ := h
  cases t with
  | nil => exact trivial
  | cons c t =>
      by_cases hquote : c = 34
      · rw [hquote] at hescapes ⊢
        obtain ⟨t', s, bs, rfl, hcopy, hs⟩ :=
          exists_copies (hescapes [] t rfl) (fun hmem => hzero (List.mem_cons_of_mem c hmem)) after
        rw [List.mem_cons, List.mem_append, not_or, not_or] at hzero
        rw [List.cons_append, List.append_assoc]
        rcases hs with rfl | ⟨s', rfl⟩
        · rw [List.nil_append] at hcopy ⊢
          rw [parseString_of_copies hcopy (.inr rfl), if_neg (by decide)]
          refine ⟨⟨[], rfl, List.not_mem_nil, EscapesComplete.suffix (u := 34 :: (t' ++ []))
            (by simpa using hescapes)⟩, ?_⟩
          simp only [List.length_cons, List.length_append]
          omega
        · rw [List.cons_append] at hcopy ⊢
          rw [parseString_of_copies hcopy (.inl rfl), if_pos rfl]
          refine ⟨⟨s', rfl, fun hmem => hzero.2.2 (List.mem_cons_of_mem 34 hmem),
            EscapesComplete.suffix (u := 34 :: (t' ++ [34])) (by simpa using hescapes)⟩, ?_⟩
          simp only [List.length_cons, List.length_append]
          omega
      · simp [parseString, deref, hquote]

/-! ## Values -/

/-- With a depth bound of {lit}`n`, which suffices for the rest of the text, no routine
makes an invalid access or leaves the text, and a value moves the pointer. -/
structure Safe (after : Text) (n : Nat) : Prop where
  value : ∀ p, Within after p → 3 * p.length < n →
    (parseValue n p).Satisfies fun x => Moved after 1 p x.2
  array : ∀ p, Within after p → 3 * p.length ≤ n →
    (parseArray n p).Satisfies fun x => Moved after 1 p x.2
  items : ∀ p, Within after p → 3 * p.length ≤ n →
    (parseItems n p).Satisfies fun x => Moved after 0 p x.2
  member : ∀ p, Within after p → 3 * p.length ≤ n →
    (parseMember n p).Satisfies fun x => Moved after 1 p x.2
  object : ∀ p, Within after p → 3 * p.length ≤ n →
    (parseObject n p).Satisfies fun x => Moved after 1 p x.2
  members : ∀ p, Within after p → 3 * p.length ≤ n →
    (parseMembers n p).Satisfies fun x => Moved after 0 p x.2

variable {n : Nat}

theorem value_satisfies (ih : Safe after n) {p : Text} (h : Within after p)
    (hn : 3 * p.length < n + 1) :
    (parseValue (n + 1) p).Satisfies fun x => Moved after 1 p x.2 := by
  rw [parseValue]
  refine (startsWith_satisfies (by decide) h).bind ?_
  intro isNull hNull
  split_ifs with hfound
  · exact (hNull hfound).mono (by decide)
  refine (startsWith_satisfies (by decide) h).bind ?_
  intro isFalse hFalse
  split_ifs with hfound
  · exact (hFalse hfound).mono (by decide)
  refine (startsWith_satisfies (by decide) h).bind ?_
  intro isTrue hTrue
  split_ifs with hfound
  · exact (hTrue hfound).mono (by decide)
  refine (deref_satisfies h).bind ?_
  rintro c ⟨r, rfl⟩
  split_ifs with hstring hnumber harray hobject
  · exact (parseString_satisfies h).bind fun x hx => hx
  · exact (parseNumber_satisfies h hnumber).bind fun _ hq => hq
  · exact ih.array _ h (by omega)
  · exact ih.object _ h (by omega)
  · trivial

theorem array_satisfies (ih : Safe after n) {p : Text} (h : Within after p)
    (hn : 3 * p.length ≤ n + 1) :
    (parseArray (n + 1) p).Satisfies fun x => Moved after 1 p x.2 := by
  rw [parseArray]
  refine (deref_satisfies h).bind ?_
  rintro c ⟨r, rfl⟩
  split_ifs with hc
  · trivial
  have hopen : Moved after 1 (c :: r) r :=
    h.moved_next (by rw [Decidable.not_not.mp hc]; decide)
  rw [List.drop_one, List.tail_cons]
  refine (skip_satisfies hopen.1).bind ?_
  intro q hq
  have hq := hopen.trans hq
  refine (deref_satisfies hq.1).bind ?_
  rintro d ⟨s, rfl⟩
  split_ifs with hd
  · exact (hq.trans (hq.1.moved_next (by rw [hd]; decide))).mono (by decide)
  refine (skip_satisfies hq.1).bind ?_
  intro u hu
  have hu := hq.trans hu
  refine (ih.value u hu.1 (by have hlen := hu.2; omega)).bind ?_
  rintro ⟨child, v⟩ hv
  have hv := hu.trans hv
  refine (skip_satisfies hv.1).bind ?_
  intro w hw
  have hw := hv.trans hw
  refine (ih.items w hw.1 (by have hlen := hw.2; omega)).bind ?_
  rintro ⟨children, x⟩ hx
  have hx := hw.trans hx
  refine (deref_satisfies hx.1).bind ?_
  rintro e ⟨y, rfl⟩
  split_ifs with he
  · exact (hx.trans (hx.1.moved_next (by rw [he]; decide))).mono (by decide)
  · trivial

theorem items_satisfies (ih : Safe after n) {p : Text} (h : Within after p)
    (hn : 3 * p.length ≤ n + 1) :
    (parseItems (n + 1) p).Satisfies fun x => Moved after 0 p x.2 := by
  rw [parseItems]
  refine (deref_satisfies h).bind ?_
  rintro c ⟨r, rfl⟩
  split_ifs with hc
  · have hcomma : Moved after 1 (c :: r) r := h.moved_next (by rw [hc]; decide)
    rw [List.drop_one, List.tail_cons]
    refine (skip_satisfies hcomma.1).bind ?_
    intro u hu
    have hu := hcomma.trans hu
    refine (ih.value u hu.1 (by have hlen := hu.2; omega)).bind ?_
    rintro ⟨child, v⟩ hv
    have hv := hu.trans hv
    refine (skip_satisfies hv.1).bind ?_
    intro w hw
    have hw := hv.trans hw
    refine (ih.items w hw.1 (by have hlen := hw.2; omega)).bind ?_
    rintro ⟨children, x⟩ hx
    exact (hw.trans hx).mono (Nat.zero_le _)
  · exact Moved.refl h

theorem member_satisfies (ih : Safe after n) {p : Text} (h : Within after p)
    (hn : 3 * p.length ≤ n + 1) :
    (parseMember (n + 1) p).Satisfies fun x => Moved after 1 p x.2 := by
  rw [parseMember]
  refine (skip_satisfies h).bind ?_
  intro q hq
  refine (parseString_satisfies hq.1).bind ?_
  rintro ⟨string, r⟩ hr
  have hr := hq.trans hr
  refine (skip_satisfies hr.1).bind ?_
  intro u hu
  have hu := hr.trans hu
  refine (deref_satisfies hu.1).bind ?_
  rintro c ⟨v, rfl⟩
  split_ifs with hc
  · trivial
  have hcolon := hu.trans (hu.1.moved_next (by rw [Decidable.not_not.mp hc]; decide))
  rw [List.drop_one, List.tail_cons]
  refine (skip_satisfies hcolon.1).bind ?_
  intro w hw
  have hw := hcolon.trans hw
  refine (ih.value w hw.1 (by have hlen := hw.2; omega)).bind ?_
  rintro ⟨child, x⟩ hx
  have hx := hw.trans hx
  refine (skip_satisfies hx.1).bind ?_
  intro y hy
  exact (hx.trans hy).mono (by omega)

theorem object_satisfies (ih : Safe after n) {p : Text} (h : Within after p)
    (hn : 3 * p.length ≤ n + 1) :
    (parseObject (n + 1) p).Satisfies fun x => Moved after 1 p x.2 := by
  rw [parseObject]
  refine (deref_satisfies h).bind ?_
  rintro c ⟨r, rfl⟩
  split_ifs with hc
  · trivial
  have hopen : Moved after 1 (c :: r) r :=
    h.moved_next (by rw [Decidable.not_not.mp hc]; decide)
  rw [List.drop_one, List.tail_cons]
  refine (skip_satisfies hopen.1).bind ?_
  intro q hq
  have hq := hopen.trans hq
  refine (deref_satisfies hq.1).bind ?_
  rintro d ⟨s, rfl⟩
  split_ifs with hd
  · exact (hq.trans (hq.1.moved_next (by rw [hd]; decide))).mono (by decide)
  refine (ih.member _ hq.1 (by have hlen := hq.2; omega)).bind ?_
  rintro ⟨child, v⟩ hv
  have hv := hq.trans hv
  refine (ih.members v hv.1 (by have hlen : v.length + _ ≤ _ := hv.2; omega)).bind ?_
  rintro ⟨children, x⟩ hx
  have hx := hv.trans hx
  refine (deref_satisfies hx.1).bind ?_
  rintro e ⟨y, rfl⟩
  split_ifs with he
  · exact (hx.trans (hx.1.moved_next (by rw [he]; decide))).mono (by decide)
  · trivial

theorem members_satisfies (ih : Safe after n) {p : Text} (h : Within after p)
    (hn : 3 * p.length ≤ n + 1) :
    (parseMembers (n + 1) p).Satisfies fun x => Moved after 0 p x.2 := by
  rw [parseMembers]
  refine (deref_satisfies h).bind ?_
  rintro c ⟨r, rfl⟩
  split_ifs with hc
  · have hcomma : Moved after 1 (c :: r) r := h.moved_next (by rw [hc]; decide)
    rw [List.drop_one, List.tail_cons]
    refine (ih.member r hcomma.1 (by have hlen := hcomma.2; omega)).bind ?_
    rintro ⟨child, v⟩ hv
    have hv := hcomma.trans hv
    refine (ih.members v hv.1 (by have hlen : v.length + _ ≤ _ := hv.2; omega)).bind ?_
    rintro ⟨children, x⟩ hx
    exact (hv.trans hx).mono (Nat.zero_le _)
  · exact Moved.refl h

/-- Every routine stays in front of the terminator. -/
theorem parse_satisfies (after : Text) (n : Nat) : Safe after n := by
  induction n with
  | zero =>
      have hnone {P : Prop} {p : Text} (h : Within after p) (hp : 3 * p.length ≤ 0) : P := by
        have hpos := h.length_pos
        omega
      exact ⟨fun p h hp => hnone h (by omega), fun p h => hnone h, fun p h => hnone h,
        fun p h => hnone h, fun p h => hnone h, fun p h => hnone h⟩
  | succ n ih =>
      exact ⟨fun p => value_satisfies ih, fun p => array_satisfies ih, fun p => items_satisfies ih,
        fun p => member_satisfies ih, fun p => object_satisfies ih, fun p => members_satisfies ih⟩

/-- With complete escapes the parser makes no invalid access: it reads no byte behind
the terminator, whatever stands there, and every string fits in its block. -/
theorem cJSONParseWithOpts_satisfies {t : List UInt8} (hzero : 0 ∉ t) (h : EscapesComplete t)
    (after : List UInt8) (require_null_terminated : Bool) :
    (cJSONParseWithOpts (t ++ 0 :: after) require_null_terminated).Satisfies
      fun x => Within after x.2 := by
  rw [cJSONParseWithOpts]
  refine (skip_satisfies ⟨t, rfl, hzero, h⟩).bind ?_
  intro p hp
  refine ((parse_satisfies after _).value p hp.1 (by have hlen := hp.2; omega)).bind ?_
  rintro ⟨c, q⟩ hq
  split_ifs
  · refine (skip_satisfies hq.1).bind ?_
    intro r hr
    refine (deref_satisfies hr.1).bind ?_
    intro d hd
    split_ifs
    · trivial
    · exact hr.1
  · exact hq.1

/-- A text with complete escapes and its terminator, in a block that ends with the
terminator, is parsed or refused. -/
theorem cJSONParse_ne_fault {t : List UInt8} (hzero : 0 ∉ t) (h : EscapesComplete t)
    (after : List UInt8) (e : TextFault) : cJSONParse (t ++ 0 :: after) ≠ .fault e := by
  have hparse : (cJSONParse (t ++ 0 :: after)).Satisfies fun _ => True :=
    (cJSONParseWithOpts_satisfies hzero h after false).bind fun x hx => trivial
  exact hparse.ne_fault e

/-- A string that is never closed. -/
theorem cJSONParse_ne_fault_unclosed :
    cJSONParse ([34, 92, 117, 48, 48, 52, 49] ++ [0]) ≠ .fault .overread := by
  have hhex : HexText [48, 48, 52, 49] 65 := .digits (fun _ => false) ![0, 0, 4, 1]
  have hescapes : EscapesComplete [34, 92, 117, 48, 48, 52, 49] := by
    rintro u v h
    rcases List.cons_eq_append_iff.mp h with ⟨rfl, hv⟩ | ⟨u', rfl, hu'⟩
    · obtain rfl := (List.cons.inj hv).2
      exact .unicode hhex .ends
    · have hmem : (34 : UInt8) ∈ [92, 117, 48, 48, 52, 49] := by
        rw [hu']
        exact List.mem_append_right u' List.mem_cons_self
      exact absurd hmem (by decide)
  exact cJSONParse_ne_fault (by decide) hescapes [] .overread

/-! ## Incomplete escapes -/

/-- Characters that both loops take one by one. -/
def Plain (p : List UInt8) : Prop :=
  ∀ c ∈ p, c ≠ 34 ∧ c ≠ 0 ∧ c ≠ 92

/-- Characters that are counted one by one. -/
theorem stringLength_append {p : List UInt8} (hp : Plain p) (t : Text) :
    stringLength (p ++ t) = more (stringLength t) p.length := by
  induction p with
  | nil => exact (more_zero _).symm
  | cons c p ih =>
      have hc := hp c List.mem_cons_self
      rw [List.cons_append, stringLength_plain hc.1 hc.2.1 hc.2.2,
        ih fun d hd => hp d (List.mem_cons_of_mem c hd), more_more, List.length_cons]

/-- Characters that are copied one by one, until the block is full. -/
theorem copyString_append {p : List UInt8} (hp : Plain p) (t : Text) (cap n : Nat)
    (out : List UInt8) (hout : out.length ≤ cap) :
    copyString cap (n + p.length) (p ++ t) out =
      if out.length + p.length ≤ cap then copyString cap n t (out ++ p) else .fault .overflow := by
  induction p generalizing out with
  | nil => simp [hout]
  | cons c p ih =>
      have hc := hp c List.mem_cons_self
      have hround : copyString cap (n + (c :: p).length) (c :: (p ++ t)) out = (do
          let out ← put cap out [c]
          copyString cap (n + p.length) (p ++ t) out) := by
        rw [List.length_cons, ← Nat.add_assoc, copyString]
        simp [hc]
      rw [List.cons_append, hround, List.length_cons]
      by_cases hfull : out.length + 1 ≤ cap
      · rw [put_of_le hfull, Outcome.ok_bind, ih (fun d hd => hp d (List.mem_cons_of_mem c hd))
          (out ++ [c]) (by rw [List.length_append]; exact hfull), List.length_append,
          List.append_assoc]
        simp [Nat.add_assoc, Nat.add_comm 1]
      · rw [put, if_neg (show ¬out.length + [c].length ≤ cap from hfull), Outcome.fault_bind,
          if_neg (by omega)]

/-- A quote or the terminator ends the second loop. -/
theorem copyString_end {e : UInt8} (he : e = 34 ∨ e = 0) (rest : List UInt8) (cap n : Nat)
    (out : List UInt8) : copyString cap (n + 1) (e :: rest) out = .ok (out, e :: rest) := by
  rcases he with rfl | rfl <;> rfl

/-- {lit}`parse_hex4` gives up at a quote. -/
theorem hexDigits_quote {ds : List UInt8} {n : Nat} (hn : ds.length < n) (h : Nat) (t : Text) :
    hexDigits n h (ds ++ 34 :: t) = .ok 0 := by
  induction ds generalizing n h with
  | nil =>
      obtain ⟨m, rfl⟩ := Nat.exists_eq_succ_of_ne_zero (Nat.ne_zero_of_lt hn)
      rfl
  | cons c ds ih =>
      obtain ⟨m, rfl⟩ := Nat.exists_eq_succ_of_ne_zero (Nat.ne_zero_of_lt hn)
      rw [List.cons_append, hexDigits]
      cases Hex.hexDigit c with
      | none => rfl
      | some d => exact ih (Nat.lt_of_succ_lt_succ hn) _

/-- An escape that stops at a quote writes nothing and moves the pointer over four characters
all the same. -/
theorem transcode_quote {ds sk : List UInt8} (hfour : ds.length + sk.length = 3) (t : Text) :
    ∃ ptr, transcode (117 :: (ds ++ 34 :: (sk ++ t))) = .ok ([], ptr) ∧ ptr.drop 1 = t := by
  refine ⟨(117 :: (ds ++ 34 :: (sk ++ t))).drop 4, ?_, ?_⟩
  · rw [transcode, List.drop_one, List.tail_cons, parseHex4, hexDigits_quote (by omega),
      Outcome.ok_bind]
    rfl
  · rw [List.drop_drop]
    have hsplit : 117 :: (ds ++ 34 :: (sk ++ t)) = (117 :: ds ++ 34 :: sk) ++ t := by simp
    rw [hsplit]
    refine List.drop_left' ?_
    simp only [List.length_append, List.length_cons]
    omega

/-- A string with an escape that stops at a quote: the first loop ends there, with one character
for the escape and one for each of its digits {lit}`ds`; the second loop steps over the quote and
over the bytes {lit}`sk` behind it, whatever they are, and copies what follows up to another
quote or a terminator.  The block holds at most one byte of it more than there are digits. -/
theorem parseString_short_escape {pre ds sk p : List UInt8} (hpre : Plain pre) (hds : Plain ds)
    (hfour : ds.length + sk.length = 3) (hp : Plain p) {e : UInt8} (he : e = 34 ∨ e = 0)
    (rest : List UInt8) :
    parseString (34 :: (pre ++ 92 :: 117 :: (ds ++ 34 :: (sk ++ (p ++ e :: rest))))) =
      if p.length ≤ ds.length + 1 then
        .ok (CStr.ofBytes (pre ++ p), if e = 34 then rest else e :: rest)
      else .fault .overflow := by
  have hlen : stringLength (pre ++ 92 :: 117 :: (ds ++ 34 :: (sk ++ (p ++ e :: rest)))) =
      .ok (ds.length + 1 + pre.length) := by
    rw [stringLength_append hpre]
    change more (more (stringLength (ds ++ 34 :: (sk ++ (p ++ e :: rest)))) 1) pre.length = _
    rw [stringLength_append hds]
    have hquote : stringLength (34 :: (sk ++ (p ++ e :: rest))) = .ok 0 := by
      rw [stringLength.eq_def]
      rfl
    rw [hquote]
    change Outcome.ok (0 + ds.length + 1 + pre.length) = _
    rw [Nat.zero_add]
  have hrounds : (34 :: (pre ++ 92 :: 117 :: (ds ++ 34 :: (sk ++ (p ++ e :: rest))))).length =
      rest.length + 6 + 1 + p.length + 1 + pre.length := by
    simp only [List.length_cons, List.length_append]
    omega
  obtain ⟨ptr, htranscode, hptr⟩ := transcode_quote hfour (p ++ e :: rest)
  have hescape : unescape (117 :: (ds ++ 34 :: (sk ++ (p ++ e :: rest)))) = .ok ([], ptr) :=
    htranscode
  have hcopy : copyString (ds.length + 1 + pre.length + 1)
      (34 :: (pre ++ 92 :: 117 :: (ds ++ 34 :: (sk ++ (p ++ e :: rest))))).length
      (pre ++ 92 :: 117 :: (ds ++ 34 :: (sk ++ (p ++ e :: rest)))) [] =
      if p.length ≤ ds.length + 2 then .ok (pre ++ p, e :: rest) else .fault .overflow := by
    rw [hrounds, copyString_append hpre _ _ _ [] (Nat.zero_le _), List.length_nil, Nat.zero_add,
      if_pos (by omega), List.nil_append, copyString_backslash, hescape, Outcome.ok_bind]
    have hput : put (ds.length + 1 + pre.length + 1) pre [] = .ok pre := by
      rw [put_of_le (by rw [List.length_nil]; omega), List.append_nil]
    dsimp only
    rw [hput, Outcome.ok_bind, hptr, copyString_append hp _ _ _ pre (by omega),
      copyString_end he]
    exact if_congr (by omega) rfl rfl
  rw [parseString]
  simp only [deref_cons, Outcome.ok_bind, ne_eq, not_true_eq_false, if_false, List.drop_one,
    List.tail_cons, hlen, hcopy]
  rcases Nat.lt_or_ge p.length (ds.length + 2) with hfit | hfull
  · have hput : put (ds.length + 1 + pre.length + 1) (pre ++ p) [0] = .ok (pre ++ p ++ [0]) :=
      put_of_le (by rw [List.length_append, List.length_singleton]; omega)
    rw [if_pos (by omega), if_pos (by omega), Outcome.ok_bind, hput, Outcome.ok_bind,
      ofBytes_append_zero]
    rfl
  · rw [if_neg (show ¬p.length ≤ ds.length + 1 by omega)]
    split_ifs with hfills
    · have hput : put (ds.length + 1 + pre.length + 1) (pre ++ p) [0] = .fault .overflow :=
        if_neg (by rw [List.length_append, List.length_singleton]; omega)
      rw [Outcome.ok_bind, hput]
      rfl
    · rfl

/-- A quote starts a string. -/
theorem parseValue_string (n : Nat) (r : Text) :
    parseValue (n + 1) (34 :: r) = (do
      let (s, value) ← parseString (34 :: r)
      pure (.string s, value)) := by
  rw [parseValue]
  rfl

/-- So a response that begins with such a string decides how far the parser writes behind its
block. -/
theorem cJSONParse_short_escape {pre ds sk p : List UInt8} (hpre : Plain pre) (hds : Plain ds)
    (hfour : ds.length + sk.length = 3) (hp : Plain p) {e : UInt8} (he : e = 34 ∨ e = 0)
    (rest : List UInt8) :
    cJSONParse (34 :: (pre ++ 92 :: 117 :: (ds ++ 34 :: (sk ++ (p ++ e :: rest))))) =
        .fault .overflow ↔
      ds.length + 2 ≤ p.length := by
  have hskip (t : Text) : skip (34 :: t) = .ok (34 :: t) := rfl
  rw [cJSONParse, cJSONParseWithOpts, hskip, Outcome.ok_bind, parseValue_string,
    parseString_short_escape hpre hds hfour hp he rest]
  rcases Nat.lt_or_ge p.length (ds.length + 2) with hfit | hfull
  · rw [if_pos (by omega)]
    refine iff_of_false ?_ (by omega)
    intro h
    cases h
  · rw [if_neg (by omega)]
    exact iff_of_true rfl hfull

/-- The string begins with b and an escape with one digit; what stands between the next two
quotes is too long for its block. -/
theorem cJSONParse_short_escape_aa :
    cJSONParse [34, 98, 92, 117, 49, 34, 44, 34, 97, 97, 97, 34, 0] = .fault .overflow := by
  have hpre : Plain [98] := List.forall_mem_singleton.mpr (by decide)
  have hds : Plain [49] := List.forall_mem_singleton.mpr (by decide)
  have hp : Plain [97, 97, 97] := by
    intro c hc
    rw [List.eq_of_mem_replicate (show c ∈ List.replicate 3 97 from hc)]
    decide
  have hfour : [(49 : UInt8)].length + [(44 : UInt8), 34].length = 3 := rfl
  exact (cJSONParse_short_escape hpre hds hfour hp (.inl rfl) [0]).mpr le_rfl

/-- A backslash in front of the terminator takes the parser behind it: in a block that
ends there, the next byte is read from outside of the block. -/
theorem parseString_backslash_nul {p : List UInt8} (hp : Plain p) :
    parseString (34 :: (p ++ [92, 0])) = .fault .overread := by
  have hlen : stringLength (p ++ [92, 0]) = .fault .overread := by
    rw [stringLength_append hp]
    rfl
  rw [parseString]
  simp [hlen]

end JsonText

end WeatherStation
