import WeatherStation.Foundation.Utf8
import WeatherStation.Weather.JsonText

/-!
# JSON strings

What {lit}`parse_string` makes of the text between two quotes.  Its first loop
counts characters for the string's block and its second loop fills the block;
both are followed through one character of the text at a time.

Main results:

- Theorem {lit}`utf8_eq_utf8EncodeChar`: an escaped code point becomes its UTF-8
  bytes.
- Theorem {lit}`StringText.copies`: the characters of a JSON string are copied one
  after another and fit in the block.
- Theorem {lit}`parseString_of_copies`: the string ends at the quote behind them.
-/

open Foundation Foundation.Hex

namespace WeatherStation

namespace JsonText

/-! ## Hexadecimal digits and code points -/

/-- Four hexadecimal digits and their value. -/
inductive HexText : List UInt8 → Nat → Prop where
  | digits (upper : Fin 4 → Bool) (d : Fin 4 → Fin 16) :
      HexText
        [hexChar (upper 0) (d 0), hexChar (upper 1) (d 1), hexChar (upper 2) (d 2),
          hexChar (upper 3) (d 3)]
        (4096 * (d 0).val + 256 * (d 1).val + 16 * (d 2).val + (d 3).val)

/-- A hexadecimal digit is no quote, backslash or terminator. -/
theorem hexChar_ne (upper : Bool) (d : Fin 16) :
    hexChar upper d ≠ 34 ∧ hexChar upper d ≠ 0 ∧ hexChar upper d ≠ 92 := by
  revert upper d
  decide

/-- {lit}`parse_hex4` reads four digits and nothing behind them. -/
theorem parseHex4_append {t : List UInt8} {u : Nat} (h : HexText t u) (q : Text) :
    parseHex4 (t ++ q) = .ok u := by
  cases h with
  | digits upper d =>
      simp only [parseHex4, hexDigits, List.cons_append, hexDigit_hexChar, Outcome.ok.injEq,
        Nat.shiftLeft_eq]
      omega

theorem continuation_eq (uc : Nat) : continuation uc = UInt8.ofNat (uc % 64 + 0x80) :=
  congrArg UInt8.ofNat (Utf8.or_and_continuation uc)

/-- The bytes written for a code point are its UTF-8 encoding. -/
theorem utf8_eq_utf8EncodeChar (c : Char) : utf8 c.toNat = String.utf8EncodeChar c := by
  have hmax : c.toNat < 0x110000 := by
    rcases c.valid with h | h
    · exact Nat.lt_trans h (by decide)
    · exact h.2
  have hval : c.val.toNat = c.toNat := rfl
  have hmark (n m k : Nat) (h : n < 2 ^ k) : n ||| m * 2 ^ k = m * 2 ^ k + n :=
    Utf8.or_mark m h
  rw [String.utf8EncodeChar, utf8, hval]
  simp only [continuation_eq, firstByteMark, Nat.shiftRight_eq_div_pow, Nat.or_zero,
    Nat.div_div_eq_div_mul]
  generalize c.toNat = n at hmax
  rcases Nat.lt_or_ge n 0x80 with h1 | h1
  · rw [if_pos h1, if_pos (show n ≤ 0x7f by omega)]
  rw [if_neg (show ¬n < 0x80 by omega), if_neg (show ¬n ≤ 0x7f by omega)]
  rcases Nat.lt_or_ge n 0x800 with h2 | h2
  · rw [if_pos h2, if_pos (show n ≤ 0x7ff by omega), show (0xC0 : Nat) = 6 * 2 ^ 5 from rfl,
      hmark _ 6 5 (by omega)]
    congr 2
    omega
  rw [if_neg (show ¬n < 0x800 by omega), if_neg (show ¬n ≤ 0x7ff by omega)]
  rcases Nat.lt_or_ge n 0x10000 with h3 | h3
  · rw [if_pos h3, if_pos (show n ≤ 0xffff by omega), show (0xE0 : Nat) = 14 * 2 ^ 4 from rfl,
      hmark _ 14 4 (by omega)]
    congr 2
    omega
  · rw [if_neg (show ¬n < 0x10000 by omega), if_neg (show ¬n ≤ 0xffff by omega),
      show (0xF0 : Nat) = 30 * 2 ^ 3 from rfl, hmark _ 30 3 (by omega)]
    congr 2
    omega

theorem length_utf8_le (uc : Nat) : (utf8 uc).length ≤ 4 := by
  unfold utf8
  split_ifs <;> simp

/-! ## The two loops -/

/-- {lit}`k` more characters than {lit}`x` counts. -/
def more (x : Scan Nat) (k : Nat) : Scan Nat := do
  let len ← x
  pure (len + k)

theorem more_zero (x : Scan Nat) : more x 0 = x := by
  cases x <;> rfl

theorem more_more (x : Scan Nat) (k k' : Nat) : more (more x k) k' = more x (k + k') := by
  cases x with
  | ok len => exact congrArg Outcome.ok (Nat.add_assoc len k k')
  | refused => rfl
  | fault e => rfl

/-- Both loops of {lit}`parse_string` step over the text {lit}`t` that stands before
{lit}`q`: the first one counts at least as many characters as the second one writes
bytes, and these are {lit}`bs`. -/
structure Copies (q t bs : List UInt8) : Prop where
  counted : ∃ k, bs.length ≤ k ∧ stringLength (t ++ q) = more (stringLength q) k
  copied : ∃ m, m ≤ t.length ∧ ∀ cap n out, out.length + bs.length ≤ cap →
    copyString cap (n + m) (t ++ q) out = copyString cap n q (out ++ bs)

theorem Copies.nil (q : List UInt8) : Copies q [] [] where
  counted := ⟨0, le_rfl, (more_zero (stringLength q)).symm⟩
  copied := by
    refine ⟨0, le_rfl, ?_⟩
    intro cap n out hcap
    simp

/-- Texts are stepped over one after another. -/
theorem Copies.append {q t t' bs bs' : List UInt8} (h : Copies (t' ++ q) t bs)
    (h' : Copies q t' bs') : Copies q (t ++ t') (bs ++ bs') where
  counted := by
    obtain ⟨k, hk, hcount⟩ := h.counted
    obtain ⟨k', hk', hcount'⟩ := h'.counted
    refine ⟨k' + k, by rw [List.length_append]; omega, ?_⟩
    rw [List.append_assoc, hcount, hcount', more_more]
  copied := by
    obtain ⟨m, hm, hcopy⟩ := h.copied
    obtain ⟨m', hm', hcopy'⟩ := h'.copied
    refine ⟨m' + m, by rw [List.length_append]; omega, ?_⟩
    intro cap n out hcap
    rw [List.length_append] at hcap
    rw [List.append_assoc, ← Nat.add_assoc, hcopy cap (n + m') out (by omega),
      hcopy' cap n (out ++ bs) (by rw [List.length_append]; omega), List.append_assoc]

theorem put_of_le {cap : Nat} {out bytes : List UInt8} (h : out.length + bytes.length ≤ cap) :
    put cap out bytes = .ok (out ++ bytes) :=
  if_pos h

theorem stringLength_plain {c : UInt8} (hquote : c ≠ 34) (hnul : c ≠ 0) (hslash : c ≠ 92)
    (ptr : Text) : stringLength (c :: ptr) = more (stringLength ptr) 1 := by
  rw [stringLength.eq_def, more]
  simp only [hquote, hnul, hslash, or_self, if_false]

/-- A character that is no quote, terminator or backslash is copied. -/
theorem copies_plain {q : List UInt8} {c : UInt8} (hquote : c ≠ 34) (hnul : c ≠ 0)
    (hslash : c ≠ 92) : Copies q [c] [c] where
  counted := ⟨1, le_rfl, stringLength_plain hquote hnul hslash q⟩
  copied := by
    refine ⟨1, le_rfl, ?_⟩
    intro cap n out hcap
    rw [copyString]
    simp [deref, hquote, hnul, hslash, put_of_le hcap]

/-- A round of the second loop at a backslash. -/
theorem copyString_backslash (cap n : Nat) (ptr : Text) (out : List UInt8) :
    copyString cap (n + 1) (92 :: ptr) out = (do
      let (bytes, ptr) ← unescape ptr
      let out ← put cap out bytes
      copyString cap n (ptr.drop 1) out) := by
  rw [copyString]
  rfl

/-- A backslash with one character other than {lit}`u` is copied as that character's
byte. -/
theorem copies_short {q : List UInt8} {c : UInt8} (hc : c ≠ 117) :
    Copies q [92, c] [escapedByte c] where
  counted := ⟨1, le_rfl, rfl⟩
  copied := by
    refine ⟨1, by simp, ?_⟩
    intro cap n out hcap
    rw [List.cons_append, List.singleton_append, copyString_backslash]
    simp [unescape, deref, hc, put_of_le hcap]

/-- Hexadecimal digits are counted one by one. -/
theorem stringLength_hexText {t : List UInt8} {u : Nat} (h : HexText t u) (q : List UInt8) :
    stringLength (92 :: 117 :: (t ++ q)) = more (stringLength q) 5 := by
  cases h with
  | digits upper d =>
      have hdigit (i : Fin 4) (p : Text) :
          stringLength (hexChar (upper i) (d i) :: p) = more (stringLength p) 1 := by
        have hne := hexChar_ne (upper i) (d i)
        exact stringLength_plain hne.1 hne.2.1 hne.2.2 p
      change more (stringLength ([_, _, _, _] ++ q)) 1 = _
      simp only [List.cons_append, List.nil_append, hdigit, more_more]

/-- An escaped code unit is stepped over in one round, together with the text
{lit}`t'` behind it that belongs to it; {lit}`transcode` decides what is written. -/
theorem copies_unicode {q t t' bs : List UInt8} {u : Nat} (h : HexText t u)
    (hcount : ∃ k, bs.length ≤ k + 5 ∧ stringLength (t' ++ q) = more (stringLength q) k)
    (htrans : ∃ c, transcode (117 :: (t ++ (t' ++ q))) = .ok (bs, c :: q)) :
    Copies q (92 :: 117 :: (t ++ t')) bs where
  counted := by
    obtain ⟨k, hk, hlen⟩ := hcount
    refine ⟨k + 5, hk, ?_⟩
    rw [List.cons_append, List.cons_append, List.append_assoc, stringLength_hexText h, hlen,
      more_more]
  copied := by
    obtain ⟨c, htrans⟩ := htrans
    refine ⟨1, by simp, ?_⟩
    intro cap n out hcap
    rw [List.cons_append, List.cons_append, List.append_assoc, copyString_backslash]
    simp [unescape, deref, htrans, put_of_le hcap]

/-! ## Escaped code units -/

/-- The pointer moves to the last of the four digits. -/
theorem exists_drop_hexText {t : List UInt8} {u : Nat} (h : HexText t u) (q : List UInt8) :
    ∃ c, List.drop 4 (117 :: (t ++ q)) = c :: q := by
  cases h with
  | digits upper d => exact ⟨_, rfl⟩

/-- What {lit}`transcode` does after the first four digits. -/
theorem transcode_hexText {t : List UInt8} {u : Nat} (h : HexText t u) (q : List UInt8) :
    ∃ c, transcode (117 :: (t ++ q)) =
      if 0xDC00 ≤ u ∧ u ≤ 0xDFFF ∨ u = 0 then .ok ([], c :: q)
      else if 0xD800 ≤ u ∧ u ≤ 0xDBFF then do
        let second ← startsWith [92, 117] q
        if second = false then pure ([], c :: q)
        else do
          let uc2 ← parseHex4 (q.drop 2)
          if uc2 < 0xDC00 ∨ 0xDFFF < uc2 then pure ([], q.drop 5)
          else pure (utf8 (0x10000 + (((u &&& 0x3FF) <<< 10) ||| (uc2 &&& 0x3FF))), q.drop 5)
      else .ok (utf8 u, c :: q) := by
  obtain ⟨c, hdrop⟩ := exists_drop_hexText h q
  refine ⟨c, ?_⟩
  rw [transcode, List.drop_one, List.tail_cons, parseHex4_append h, Outcome.ok_bind, hdrop]
  rfl

/-- A code unit that is no surrogate is written as UTF-8. -/
theorem copies_unit {q t : List UInt8} {u : Nat} (h : HexText t u) (hu : u ≠ 0)
    (hsurrogate : ¬(0xD800 ≤ u ∧ u ≤ 0xDFFF)) : Copies q (92 :: 117 :: t) (utf8 u) := by
  obtain ⟨e, htrans⟩ := transcode_hexText h q
  rw [if_neg (by omega), if_neg (by omega)] at htrans
  have hlen := length_utf8_le u
  rw [← List.append_nil t]
  exact copies_unicode h ⟨0, by omega, (more_zero _).symm⟩ ⟨e, htrans⟩

theorem toNat_not_surrogate (c : Char) : ¬(0xD800 ≤ c.toNat ∧ c.toNat ≤ 0xDFFF) := by
  rcases c.valid with hlow | hhigh
  · have hlow : c.toNat < 0xD800 := hlow
    omega
  · have hhigh : 0xDFFF < c.toNat := hhigh.1
    omega

/-- Zero and a low surrogate without its high surrogate are dropped. -/
theorem copies_dropped {q t : List UInt8} {u : Nat} (h : HexText t u)
    (hu : 0xDC00 ≤ u ∧ u ≤ 0xDFFF ∨ u = 0) : Copies q (92 :: 117 :: t) [] := by
  obtain ⟨e, htrans⟩ := transcode_hexText h q
  rw [if_pos hu] at htrans
  rw [← List.append_nil t]
  exact copies_unicode h ⟨0, Nat.zero_le _, (more_zero _).symm⟩ ⟨e, htrans⟩

/-- A high surrogate is dropped when no other escaped code unit follows. -/
theorem copies_lone {q t : List UInt8} {u : Nat} (h : HexText t u)
    (hu : 0xD800 ≤ u ∧ u ≤ 0xDBFF) (hq : startsWith [92, 117] q = .ok false) :
    Copies q (92 :: 117 :: t) [] := by
  obtain ⟨e, htrans⟩ := transcode_hexText h q
  rw [if_neg (by omega), if_pos hu, hq] at htrans
  rw [← List.append_nil t]
  exact copies_unicode h ⟨0, Nat.zero_le _, (more_zero _).symm⟩ ⟨e, htrans⟩

/-- What two escaped code units in a row write, the first one being a high
surrogate. -/
def pairBytes (hi lo : Nat) : List UInt8 :=
  if lo < 0xDC00 ∨ 0xDFFF < lo then []
  else utf8 (0x10000 + (((hi &&& 0x3FF) <<< 10) ||| (lo &&& 0x3FF)))

/-- A high surrogate takes the next escaped code unit with it, whatever it is. -/
theorem copies_pair {q t t' : List UInt8} {hi lo : Nat} (h : HexText t hi)
    (hhi : 0xD800 ≤ hi ∧ hi ≤ 0xDBFF) (h' : HexText t' lo) :
    Copies q (92 :: 117 :: (t ++ 92 :: 117 :: t')) (pairBytes hi lo) := by
  obtain ⟨e, htrans⟩ := transcode_hexText h (92 :: 117 :: (t' ++ q))
  obtain ⟨e', hdrop⟩ := exists_drop_hexText h' q
  have hsecond : startsWith [92, 117] (92 :: 117 :: (t' ++ q)) = .ok true := rfl
  have hlen : (pairBytes hi lo).length ≤ 5 + 5 := by
    unfold pairBytes
    split_ifs
    · exact Nat.zero_le _
    · exact (length_utf8_le _).trans (by decide)
  refine copies_unicode h ⟨5, hlen, stringLength_hexText h' q⟩ ⟨e', ?_⟩
  rw [List.cons_append, List.cons_append, htrans, if_neg (by omega), if_pos hhi, hsecond,
    Outcome.ok_bind, if_neg (by decide), List.drop_succ_cons, List.drop_succ_cons,
    List.drop_zero, parseHex4_append h', Outcome.ok_bind, List.drop_succ_cons, hdrop, pairBytes]
  split_ifs <;> rfl

/-! ## Whole strings -/

/-- A terminator after the bytes of a string does not change it. -/
theorem ofBytes_append_zero (bs : List UInt8) : CStr.ofBytes (bs ++ [0]) = CStr.ofBytes bs := by
  have htake : (bs ++ [0]).takeWhile (· ≠ 0) = bs.takeWhile (· ≠ 0) := by
    induction bs with
    | nil => rfl
    | cons b bs ih => rw [List.cons_append, List.takeWhile_cons, List.takeWhile_cons, ih]
  simp only [CStr.ofBytes, htake]

theorem ofBytes_bytes (s : CStr) : CStr.ofBytes s.bytes = s := by
  have htake : s.bytes.takeWhile (· ≠ 0) = s.bytes := by
    rw [List.takeWhile_eq_self_iff]
    intro b hb
    simpa using s.ne_zero_of_mem hb
  cases s
  simp only [CStr.ofBytes, CStr.mk.injEq]
  exact htake

/-- A string ends at the quote or the terminator behind the text that is stepped
over; only a quote is stepped over as well. -/
theorem parseString_of_copies {t bs rest : List UInt8} {e : UInt8}
    (h : Copies (e :: rest) t bs) (he : e = 34 ∨ e = 0) :
    parseString (34 :: (t ++ e :: rest)) =
      .ok (CStr.ofBytes bs, if e = 34 then rest else e :: rest) := by
  obtain ⟨k, hk, hcount⟩ := h.counted
  obtain ⟨m, hm, hcopy⟩ := h.copied
  have hlen : stringLength (t ++ e :: rest) = .ok k := by
    rw [hcount, stringLength.eq_def]
    simp only [he, if_true, more, Outcome.ok_bind, Nat.zero_add, Outcome.pure_eq]
  have hrounds : (34 :: (t ++ e :: rest)).length = t.length - m + rest.length + 1 + 1 + m := by
    simp only [List.length_cons, List.length_append]
    omega
  have hfill : copyString (k + 1) (34 :: (t ++ e :: rest)).length (t ++ e :: rest) [] =
      .ok (bs, e :: rest) := by
    rw [hrounds, hcopy (k + 1) _ [] (by rw [List.length_nil]; omega), copyString]
    simp only [deref, Outcome.ok_bind, he, if_true, List.nil_append, Outcome.pure_eq]
  have hput : put (k + 1) bs [0] = .ok (bs ++ [0]) :=
    put_of_le (by rw [List.length_singleton]; omega)
  rw [parseString]
  simp only [deref, Outcome.ok_bind, ne_eq, not_true_eq_false, if_false, List.drop_one,
    List.tail_cons, hlen, hfill, hput, ofBytes_append_zero, Outcome.pure_eq]

/-! ## The strings of JSON -/

/-- The escapes of one character with the bytes they stand for. -/
def shortEscapes : List (UInt8 × UInt8) :=
  [(34, 34), (92, 92), (47, 47), (98, 8), (102, 12), (110, 10), (114, 13), (116, 9)]

/-- One character of a JSON string and the bytes it stands for.  The zero character
cannot be part of a C string and stands for no bytes. -/
inductive CharText : List UInt8 → List UInt8 → Prop where
  | plain {c : UInt8} (hcontrol : 32 ≤ c) (hquote : c ≠ 34) (hslash : c ≠ 92) :
      CharText [c] [c]
  | short {c b : UInt8} (h : (c, b) ∈ shortEscapes) : CharText [92, c] [b]
  | codePoint {t : List UInt8} {c : Char} (h : HexText t c.toNat) (hc : c.toNat ≠ 0) :
      CharText (92 :: 117 :: t) (String.utf8EncodeChar c)
  | nul {t : List UInt8} (h : HexText t 0) : CharText (92 :: 117 :: t) []
  | pair {t t' : List UInt8} {hi lo : Nat} {c : Char} (h : HexText t hi) (h' : HexText t' lo)
      (hhi : 0xD800 ≤ hi ∧ hi ≤ 0xDBFF) (hlo : 0xDC00 ≤ lo ∧ lo ≤ 0xDFFF)
      (hc : c.toNat = 0x10000 + (hi - 0xD800) * 0x400 + (lo - 0xDC00)) :
      CharText (92 :: 117 :: (t ++ 92 :: 117 :: t')) (String.utf8EncodeChar c)

/-- The text between the quotes of a JSON string and the bytes it stands for. -/
inductive StringText : List UInt8 → List UInt8 → Prop where
  | nil : StringText [] []
  | cons {t t' bs bs' : List UInt8} (h : CharText t bs) (h' : StringText t' bs') :
      StringText (t ++ t') (bs ++ bs')

theorem CharText.copies {t bs : List UInt8} (h : CharText t bs) (q : List UInt8) :
    Copies q t bs := by
  cases h with
  | @plain c hcontrol hquote hslash =>
      refine copies_plain hquote ?_ hslash
      rintro rfl
      exact absurd hcontrol (by decide)
  | @short c b h =>
      have htable : c ≠ 117 ∧ escapedByte c = b := by
        revert c b
        simp only [shortEscapes, List.mem_cons, List.not_mem_nil, or_false, Prod.mk.injEq]
        rintro c b (⟨rfl, rfl⟩ | ⟨rfl, rfl⟩ | ⟨rfl, rfl⟩ | ⟨rfl, rfl⟩ | ⟨rfl, rfl⟩ |
          ⟨rfl, rfl⟩ | ⟨rfl, rfl⟩ | ⟨rfl, rfl⟩) <;> decide
      rw [← htable.2]
      exact copies_short htable.1
  | @codePoint t c h hc =>
      rw [← utf8_eq_utf8EncodeChar]
      exact copies_unit h hc (toNat_not_surrogate c)
  | nul h => exact copies_dropped h (.inr rfl)
  | @pair t t' hi lo c h h' hhi hlo hc =>
      have hbytes : pairBytes hi lo = String.utf8EncodeChar c := by
        rw [pairBytes, if_neg (by omega), Utf8.join_surrogates hhi hlo, ← hc,
          utf8_eq_utf8EncodeChar]
      rw [← hbytes]
      exact copies_pair h hhi h'

/-- The characters of a JSON string are copied one after another. -/
theorem StringText.copies {t bs : List UInt8} (h : StringText t bs) (q : List UInt8) :
    Copies q t bs := by
  induction h with
  | nil => exact Copies.nil q
  | cons h h' ih => exact (h.copies _).append ih

/-- A JSON string is read as the string it stands for. -/
theorem parseString_stringText {t : List UInt8} (rest : List UInt8) {s : CStr}
    (h : StringText t s.bytes) :
    parseString (34 :: (t ++ 34 :: rest)) = .ok (s, rest) := by
  rw [parseString_of_copies (h.copies _) (.inl rfl), ofBytes_bytes, if_pos rfl]

end JsonText

end WeatherStation
