import Mathlib.Data.Fin.VecNotation
import WeatherStation.Weather.JsonGrammar

/-!
# The JSON printer

{lit}`cJSON_Print` and {lit}`cJSON_PrintUnformatted`.  Every routine first computes
the size of the block for its text and then fills the block; a byte written behind
the block is a fault.  What {lit}`print_number` writes for a number is a parameter, a function
of the characters from which the number was read.

Main results:

- Theorem {lit}`printString_text`: a printed string fits in its block exactly and is
  a JSON string.
- Theorem {lit}`printValue_derives`: a printed tree fits in its blocks and is a JSON
  text of that tree, with its numbers as they are printed.
- Theorem {lit}`cJSONParse_cJSONPrint`: a printed tree is parsed back, up to what the printer
  makes of its numbers.
-/

open Foundation

namespace WeatherStation

namespace JsonText

/-! ## Strings -/

/-- The letter that {lit}`print_string_ptr` writes behind a backslash. -/
def escapeLetter (token : UInt8) : Option UInt8 :=
  match token with
  | 92 => some 92
  | 34 => some 34
  | 8 => some 98
  | 12 => some 102
  | 10 => some 110
  | 13 => some 114
  | 9 => some 116
  | _ => none

/-- {lit}`(*ptr > 0 && *ptr < 32) || *ptr == '"' || *ptr == '\\'` for a character that is
not the terminator. -/
def needsEscape (c : UInt8) : Bool :=
  c < 32 || c = 34 || c = 92

/-- {lit}`sprintf(ptr2, "u%04x", token)`. -/
def sprintfUnicode (token : UInt8) : List UInt8 :=
  [117, 48, 48, Hex.hexChar false ⟨token.toNat / 16, by have := token.toNat_lt; omega⟩,
    Hex.hexChar false ⟨token.toNat % 16, by omega⟩]

/-- The size of the text between the quotes, as the counting loop computes it. -/
def printedLength : List UInt8 → Nat
  | [] => 0
  | token :: str =>
      (if token ∈ [34, 92, 8, 12, 10, 13, 9] then 2 else if token < 32 then 6 else 1) +
        printedLength str

/-- Room for the terminator behind the bytes written so far. -/
def terminate (cap : Nat) (out : List UInt8) : Scan (List UInt8) := do
  let _ ← put cap out [0]
  pure out

/-- The loop of {lit}`print_string_ptr` over the characters. -/
def printChars (cap : Nat) : List UInt8 → List UInt8 → Scan (List UInt8)
  | [], out => pure out
  | c :: ptr, out =>
      if 31 < c ∧ c ≠ 34 ∧ c ≠ 92 then do
        let out ← put cap out [c]
        printChars cap ptr out
      else do
        let out ← put cap out [92]
        let out ← match escapeLetter c with
          | some letter => put cap out [letter]
          | none => do
              let out ← put cap out (sprintfUnicode c)
              terminate cap out
        printChars cap ptr out

/-- {lit}`print_string_ptr`. -/
def printString (str : CStr) : Scan (List UInt8) :=
  if str.bytes.any needsEscape then do
    let cap := printedLength str.bytes + 3
    let out ← put cap [] [34]
    let out ← printChars cap str.bytes out
    let out ← put cap out [34]
    terminate cap out
  else do
    let cap := str.strlen + 3
    let out ← put cap [] [34]
    let out ← put cap out str.bytes
    let out ← terminate cap out
    let out ← put cap out [34]
    terminate cap out

/-! ## Trees -/

/-- {lit}`n` tabulators. -/
def tabs (n : Nat) : List UInt8 :=
  List.replicate n 9

/-- {lit}`text` when formatting is on. -/
def whenFmt (fmt : Bool) (text : List UInt8) : List UInt8 :=
  if fmt then text else []

/-- The loop of {lit}`print_array` that writes the entries. -/
def writeEntries (cap : Nat) (fmt : Bool) : List (List UInt8) → List UInt8 → Scan (List UInt8)
  | [], out => pure out
  | [entry], out => put cap out entry
  | entry :: entries, out => do
      let out ← put cap out entry
      let out ← put cap out (44 :: whenFmt fmt [32])
      let out ← terminate cap out
      writeEntries cap fmt entries out

/-- The composing part of {lit}`print_array`, for at least one entry. -/
def composeArray (fmt : Bool) (entries : List (List UInt8)) : Scan (List UInt8) := do
  let cap := 5 + (entries.map fun ret => ret.length + 2 + if fmt then 1 else 0).sum
  let out ← put cap [] [91]
  let out ← terminate cap out
  let out ← writeEntries cap fmt entries out
  let out ← put cap out [93]
  terminate cap out

/-- The loop of {lit}`print_object` that writes the names and the entries. -/
def writeMembers (cap : Nat) (fmt : Bool) (depth : Nat) :
    List (List UInt8 × List UInt8) → List UInt8 → Scan (List UInt8)
  | [], out => pure out
  | (name, entry) :: rest, out => do
      let out ← put cap out (whenFmt fmt (tabs depth))
      let out ← put cap out name
      let out ← put cap out (58 :: whenFmt fmt [9])
      let out ← put cap out entry
      let out ← terminate cap out
      let out ← put cap out (if rest.isEmpty then [] else [44])
      let out ← put cap out (whenFmt fmt [10])
      let out ← terminate cap out
      writeMembers cap fmt depth rest out

/-- The composing part of {lit}`print_object`, for at least one member; {lit}`depth`
is that of the members. -/
def composeObject (fmt : Bool) (depth : Nat) (members : List (List UInt8 × List UInt8)) :
    Scan (List UInt8) := do
  let cap := 7 + (if fmt then depth else 0) +
    (members.map fun m =>
      m.2.length + m.1.length + 2 + if fmt then 2 + depth else 0).sum
  let out ← put cap [] (123 :: whenFmt fmt [10])
  let out ← terminate cap out
  let out ← writeMembers cap fmt depth members out
  let out ← put cap out (whenFmt fmt (tabs (depth - 1)))
  let out ← put cap out [125]
  terminate cap out

/-- The text of an object without members. -/
def printEmptyObject (fmt : Bool) (depth : Nat) : Scan (List UInt8) := do
  let cap := if fmt then depth + 4 else 3
  let out ← put cap [] [123]
  let out ← put cap out (whenFmt fmt (10 :: tabs (depth - 1)))
  let out ← put cap out [125]
  terminate cap out

mutual

/-- {lit}`print_value`; {lit}`printNumber` is what {lit}`print_number` writes for a number that
was read from the given characters. -/
def printValue (printNumber : List UInt8 → List UInt8) (fmt : Bool) (depth : Nat) :
    CJson → Scan (List UInt8)
  | .null => pure nullWord
  | .false => pure falseWord
  | .true => pure trueWord
  | .number chars => pure (printNumber chars)
  | .string s => printString s
  | .array [] => pure [91, 93]
  | .array (c :: cs) => do
      let entries ← printEntries printNumber fmt (depth + 1) (c :: cs)
      composeArray fmt entries
  | .object [] => printEmptyObject fmt depth
  | .object (c :: cs) => do
      let members ← printMembers printNumber fmt (depth + 1) (c :: cs)
      composeObject fmt (depth + 1) members

/-- The texts of the entries of an array. -/
def printEntries (printNumber : List UInt8 → List UInt8) (fmt : Bool) (depth : Nat) :
    List CJson → Scan (List (List UInt8))
  | [] => pure []
  | c :: cs => do
      let ret ← printValue printNumber fmt depth c
      let entries ← printEntries printNumber fmt depth cs
      pure (ret :: entries)

/-- The texts of the names and entries of an object. -/
def printMembers (printNumber : List UInt8 → List UInt8) (fmt : Bool) (depth : Nat) :
    List (CStr × CJson) → Scan (List (List UInt8 × List UInt8))
  | [] => pure []
  | (string, c) :: cs => do
      let str ← printString string
      let ret ← printValue printNumber fmt depth c
      let members ← printMembers printNumber fmt depth cs
      pure ((str, ret) :: members)

end

/-- {lit}`cJSON_Print` and, without formatting, {lit}`cJSON_PrintUnformatted`. -/
def cJSONPrint (printNumber : List UInt8 → List UInt8) (fmt : Bool) (item : CJson) :
    Scan (List UInt8) :=
  printValue printNumber fmt 0 item

/-! ## Printed strings -/

/-- The text of one character. -/
def printedChar (c : UInt8) : List UInt8 :=
  if 31 < c ∧ c ≠ 34 ∧ c ≠ 92 then [c]
  else match escapeLetter c with
    | some letter => [92, letter]
    | none => 92 :: sprintfUnicode c

theorem escapeLetter_eq_some {c b : UInt8} (h : escapeLetter c = some b) :
    (b, c) ∈ shortEscapes ∧ c ∈ [(34 : UInt8), 92, 8, 12, 10, 13, 9] := by
  unfold escapeLetter at h
  split at h
  case h_8 => cases h
  all_goals
    cases h
    decide

theorem escapeLetter_eq_none {c : UInt8} (h : escapeLetter c = none) :
    c ∉ [(34 : UInt8), 92, 8, 12, 10, 13, 9] := by
  intro hmem
  simp only [List.mem_cons, List.not_mem_nil, or_false] at hmem
  rcases hmem with rfl | rfl | rfl | rfl | rfl | rfl | rfl <;> cases h

/-- A character whose escape has no letter is a control character. -/
theorem lt_of_not_plain {c : UInt8} (h : ¬(31 < c ∧ c ≠ 34 ∧ c ≠ 92))
    (hnone : escapeLetter c = none) : c.toNat < 32 := by
  have hmem := escapeLetter_eq_none hnone
  by_contra hlarge
  refine h ⟨UInt8.lt_iff_toNat_lt.mpr (by change 31 < c.toNat; omega), ?_, ?_⟩
  · rintro rfl
    exact hmem (by decide)
  · rintro rfl
    exact hmem (by decide)

/-- The escape of a control character stands for that character. -/
theorem charText_sprintfUnicode {c : UInt8} (hlow : c.toNat < 32) (hc : c ≠ 0) :
    CharText (92 :: sprintfUnicode c) [c] := by
  have hvalid : c.toNat.isValidChar := .inl (by omega)
  have hchar : (Char.ofNat c.toNat).toNat = c.toNat := by
    rw [Char.ofNat, dif_pos hvalid]
    rfl
  have hbyte : String.utf8EncodeChar (Char.ofNat c.toNat) = [c] := by
    rw [← utf8_eq_utf8EncodeChar, hchar, utf8, if_pos (by omega)]
    simp [firstByteMark]
  have hhex : HexText (sprintfUnicode c).tail (Char.ofNat c.toNat).toNat := by
    have hdigits := HexText.digits (fun _ => false)
      ![0, 0, ⟨c.toNat / 16, by omega⟩, ⟨c.toNat % 16, by omega⟩]
    have hvalue : 4096 * 0 + 256 * 0 + 16 * (c.toNat / 16) + c.toNat % 16 = c.toNat := by omega
    rw [hchar, ← hvalue]
    exact hdigits
  have hne : (Char.ofNat c.toNat).toNat ≠ 0 := by
    rw [hchar]
    exact fun hzero => hc (UInt8.toNat_inj.mp hzero)
  rw [← hbyte]
  exact CharText.codePoint hhex hne

/-- The text of one character stands for that character. -/
theorem charText_printedChar {c : UInt8} (hc : c ≠ 0) : CharText (printedChar c) [c] := by
  unfold printedChar
  split_ifs with hplain
  · refine CharText.plain ?_ hplain.2.1 hplain.2.2
    have hlow : 31 < c.toNat := hplain.1
    exact UInt8.le_iff_toNat_le.mpr (by change 32 ≤ c.toNat; omega)
  · cases hletter : escapeLetter c with
    | some letter => exact CharText.short (escapeLetter_eq_some hletter).1
    | none => exact charText_sprintfUnicode (lt_of_not_plain hplain hletter) hc

theorem stringText_flatMap {bs : List UInt8} (h : 0 ∉ bs) :
    StringText (bs.flatMap printedChar) bs := by
  induction bs with
  | nil => exact StringText.nil
  | cons c bs ih =>
      rw [List.mem_cons, not_or] at h
      exact StringText.cons (charText_printedChar (Ne.symm h.1)) (ih h.2)

/-- The counting loop counts the bytes of the text. -/
theorem length_flatMap_printedChar (bs : List UInt8) :
    (bs.flatMap printedChar).length = printedLength bs := by
  have hchar (c : UInt8) : (printedChar c).length =
      if c ∈ [(34 : UInt8), 92, 8, 12, 10, 13, 9] then 2 else if c < 32 then 6 else 1 := by
    unfold printedChar
    by_cases hplain : 31 < c ∧ c ≠ 34 ∧ c ≠ 92
    · have hlow : 31 < c.toNat := hplain.1
      have hmem : c ∉ [(34 : UInt8), 92, 8, 12, 10, 13, 9] := by
        simp only [List.mem_cons, List.not_mem_nil, or_false, not_or]
        refine ⟨hplain.2.1, hplain.2.2, ?_⟩
        refine ⟨?_, ?_, ?_, ?_, ?_⟩ <;>
          (rintro rfl; exact absurd hlow (by decide))
      have hnlow : ¬c < 32 := fun hlt => by
        have hlt : c.toNat < 32 := hlt
        omega
      rw [if_pos hplain, if_neg hmem, if_neg hnlow, List.length_singleton]
    · rw [if_neg hplain]
      cases hletter : escapeLetter c with
      | some letter => rw [if_pos (escapeLetter_eq_some hletter).2]; rfl
      | none =>
          have hlow : c < 32 := lt_of_not_plain hplain hletter
          rw [if_neg (escapeLetter_eq_none hletter), if_pos hlow]
          rfl
  induction bs with
  | nil => rfl
  | cons c bs ih => rw [List.flatMap_cons, List.length_append, hchar, ih, printedLength]

theorem terminate_of_lt {cap : Nat} {out : List UInt8} (h : out.length < cap) :
    terminate cap out = .ok out := by
  rw [terminate, put_of_le (show out.length + [(0 : UInt8)].length ≤ cap from h)]
  rfl

/-- The loop over the characters writes their texts and leaves room for what follows. -/
theorem printChars_eq {bs : List UInt8} {cap : Nat} {out : List UInt8}
    (h : out.length + printedLength bs < cap) :
    printChars cap bs out = .ok (out ++ bs.flatMap printedChar) := by
  induction bs generalizing out with
  | nil => rw [printChars, List.flatMap_nil, List.append_nil, Outcome.pure_eq]
  | cons c bs ih =>
      have hlen := length_flatMap_printedChar (c :: bs)
      rw [List.flatMap_cons, List.length_append, length_flatMap_printedChar] at hlen
      have hrest {text : List UInt8} (htext : printedChar c = text) :
          printChars cap bs (out ++ text) = .ok (out ++ (c :: bs).flatMap printedChar) := by
        rw [ih (by rw [List.length_append, ← htext]; omega), List.flatMap_cons, htext,
          List.append_assoc]
      rw [printChars]
      split_ifs with hplain
      · have htext : printedChar c = [c] := if_pos hplain
        rw [htext] at hlen
        rw [put_of_le (by omega), Outcome.ok_bind, hrest htext]
      · cases hletter : escapeLetter c with
        | some letter =>
            have htext : printedChar c = [92, letter] := by
              rw [printedChar, if_neg hplain, hletter]
            rw [htext] at hlen
            simp only [List.length_cons, List.length_nil] at hlen
            have hfirst : put cap out [92] = .ok (out ++ [92]) :=
              put_of_le (by rw [List.length_singleton]; omega)
            have hsecond : put cap (out ++ [92]) [letter] = .ok (out ++ [92, letter]) := by
              rw [put_of_le (by rw [List.length_append, List.length_singleton,
                List.length_singleton]; omega), List.append_assoc]
              rfl
            simp only [hfirst, hsecond, Outcome.ok_bind, hrest htext]
        | none =>
            have htext : printedChar c = 92 :: sprintfUnicode c := by
              rw [printedChar, if_neg hplain, hletter]
            have hfive : (sprintfUnicode c).length = 5 := rfl
            rw [htext, List.length_cons, hfive] at hlen
            have hfirst : put cap out [92] = .ok (out ++ [92]) :=
              put_of_le (by rw [List.length_singleton]; omega)
            have hsecond : put cap (out ++ [92]) (sprintfUnicode c) =
                .ok (out ++ 92 :: sprintfUnicode c) := by
              rw [put_of_le (by rw [List.length_append, List.length_singleton, hfive]; omega),
                List.append_assoc]
              rfl
            have hthird : terminate cap (out ++ 92 :: sprintfUnicode c) =
                .ok (out ++ 92 :: sprintfUnicode c) :=
              terminate_of_lt (by rw [List.length_append, List.length_cons, hfive]; omega)
            simp only [hfirst, hsecond, hthird, Outcome.ok_bind, hrest htext]

/-- A string without characters to escape is its own text. -/
theorem flatMap_printedChar_of_plain {bs : List UInt8} (h : bs.any needsEscape = false) :
    bs.flatMap printedChar = bs := by
  induction bs with
  | nil => rfl
  | cons c bs ih =>
      rw [List.any_cons, Bool.or_eq_false_iff] at h
      have hplain : 31 < c ∧ c ≠ 34 ∧ c ≠ 92 := by
        simp only [needsEscape, Bool.or_eq_false_iff, decide_eq_false_iff_not] at h
        refine ⟨?_, h.1.1.2, h.1.2⟩
        have hlow : ¬c.toNat < 32 := h.1.1.1
        exact UInt8.lt_iff_toNat_lt.mpr (by change 31 < c.toNat; omega)
      rw [List.flatMap_cons, printedChar, if_pos hplain, ih h.2]
      rfl

/-- A printed string fits in its block and is a JSON string. -/
theorem printString_text (s : CStr) :
    ∃ t, printString s = .ok (34 :: (t ++ [34])) ∧ StringText t s.bytes := by
  refine ⟨s.bytes.flatMap printedChar, ?_, stringText_flatMap s.zero_notMem⟩
  have hlen := length_flatMap_printedChar s.bytes
  have hopen {cap : Nat} (hcap : 1 ≤ cap) : put cap [] [34] = .ok [34] := put_of_le hcap
  unfold printString
  cases hescape : s.bytes.any needsEscape with
  | true =>
      have hchars : printChars (printedLength s.bytes + 3) s.bytes [34] =
          .ok ([34] ++ s.bytes.flatMap printedChar) :=
        printChars_eq (by rw [List.length_singleton]; omega)
      rw [if_pos rfl]
      dsimp only
      rw [hopen (by omega), Outcome.ok_bind, hchars, Outcome.ok_bind,
        put_of_le (by simp only [List.length_append, List.length_singleton]; omega),
        Outcome.ok_bind,
        terminate_of_lt (by simp only [List.length_append, List.length_singleton]; omega)]
      rfl
  | false =>
      rw [flatMap_printedChar_of_plain hescape, if_neg (by decide), CStr.strlen]
      dsimp only
      rw [hopen (by omega), Outcome.ok_bind,
        put_of_le (by rw [List.length_singleton]; omega), Outcome.ok_bind,
        terminate_of_lt (by rw [List.length_append, List.length_singleton]; omega),
        Outcome.ok_bind,
        put_of_le (by simp only [List.length_append, List.length_singleton]; omega),
        Outcome.ok_bind,
        terminate_of_lt (by simp only [List.length_append, List.length_singleton]; omega)]
      rfl

/-! ## Printed arrays -/

/-- The entries of an array with what separates them. -/
def joinEntries (fmt : Bool) : List (List UInt8) → List UInt8
  | [] => []
  | [entry] => entry
  | entry :: entries => entry ++ 44 :: (whenFmt fmt [32] ++ joinEntries fmt entries)

theorem joinEntries_cons_cons (fmt : Bool) (entry next : List UInt8)
    (entries : List (List UInt8)) :
    joinEntries fmt (entry :: next :: entries) =
      entry ++ 44 :: (whenFmt fmt [32] ++ joinEntries fmt (next :: entries)) :=
  rfl

theorem length_whenFmt (fmt : Bool) (text : List UInt8) :
    (whenFmt fmt text).length = if fmt then text.length else 0 := by
  cases fmt <;> rfl

/-- Bytes that fit are written; after several writes the block holds all of them. -/
theorem put_bind {α : Type} {cap : Nat} {out bytes : List UInt8} {f : List UInt8 → Scan α}
    (h : out.length + bytes.length ≤ cap) : (put cap out bytes >>= f) = f (out ++ bytes) := by
  rw [put_of_le h, Outcome.ok_bind]

theorem terminate_bind {α : Type} {cap : Nat} {out : List UInt8} {f : List UInt8 → Scan α}
    (h : out.length < cap) : (terminate cap out >>= f) = f out := by
  rw [terminate_of_lt h, Outcome.ok_bind]

/-- The loop over the entries writes them when they fit. -/
theorem writeEntries_eq {fmt : Bool} {entries : List (List UInt8)} {cap : Nat}
    {out : List UInt8} (h : out.length + (joinEntries fmt entries).length < cap) :
    writeEntries cap fmt entries out = .ok (out ++ joinEntries fmt entries) := by
  induction entries generalizing out with
  | nil => rw [writeEntries, joinEntries, List.append_nil, Outcome.pure_eq]
  | cons entry entries ih =>
      cases entries with
      | nil => exact put_of_le h.le
      | cons next entries =>
          rw [joinEntries_cons_cons, List.length_append, List.length_cons, List.length_append] at h
          have hround : writeEntries cap fmt (entry :: next :: entries) out = (do
              let out ← put cap out entry
              let out ← put cap out (44 :: whenFmt fmt [32])
              let out ← terminate cap out
              writeEntries cap fmt (next :: entries) out) := rfl
          rw [hround, put_bind (by omega), put_bind, terminate_bind, ih, joinEntries_cons_cons]
          · simp only [List.append_assoc, List.cons_append]
          all_goals
            simp only [List.length_append, List.length_cons]
            omega

/-- The computed block is large enough for the entries and what separates them. -/
theorem length_joinEntries_le (fmt : Bool) (entries : List (List UInt8)) :
    (joinEntries fmt entries).length ≤
      (entries.map fun ret => ret.length + 2 + if fmt then 1 else 0).sum := by
  induction entries with
  | nil => exact le_rfl
  | cons entry entries ih =>
      rw [List.map_cons, List.sum_cons]
      cases entries with
      | nil =>
          rw [joinEntries]
          omega
      | cons next entries =>
          rw [joinEntries_cons_cons, List.length_append, List.length_cons, List.length_append,
            length_whenFmt, List.length_singleton]
          omega

theorem composeArray_eq (fmt : Bool) (entries : List (List UInt8)) :
    composeArray fmt entries = .ok (91 :: (joinEntries fmt entries ++ [93])) := by
  have hlen := length_joinEntries_le fmt entries
  rw [composeArray, put_bind, terminate_bind, writeEntries_eq, Outcome.ok_bind, put_bind,
    terminate_of_lt]
  · simp only [List.nil_append, List.cons_append]
  all_goals
    simp only [List.nil_append, List.length_append, List.length_singleton, List.length_nil]
    omega

theorem isSpace_whenFmt (fmt : Bool) {w : List UInt8} (h : IsSpace w) :
    IsSpace (whenFmt fmt w) := by
  cases fmt with
  | false =>
      intro c hc
      exact absurd hc List.not_mem_nil
  | true => exact h

theorem isSpace_append {w w' : List UInt8} (h : IsSpace w) (h' : IsSpace w') :
    IsSpace (w ++ w') := by
  intro c hc
  rcases List.mem_append.mp hc with hc | hc
  · exact h c hc
  · exact h' c hc

theorem isSpace_nil : IsSpace [] := by
  intro c hc
  exact absurd hc List.not_mem_nil

theorem isSpace_newline : IsSpace [10] := by
  intro c hc
  exact .inr (.inr (.inl (List.mem_singleton.mp hc)))

theorem isSpace_tabs (n : Nat) : IsSpace (tabs n) := by
  intro c hc
  exact .inr (.inl (List.eq_of_mem_replicate hc))

/-- Texts of values, separated, make up the inside of an array. -/
theorem derives_joinEntries {fmt : Bool} {cs : List CJson} {entries : List (List UInt8)}
    (h : List.Forall₂ (fun c t => Derives (.value c) t) cs entries) (hne : cs ≠ [])
    {w : List UInt8} (hw : IsSpace w) : Derives (.items cs) (w ++ joinEntries fmt entries) := by
  induction h generalizing w with
  | nil => exact absurd rfl hne
  | @cons c entry cs entries hentry hrest ih =>
      cases hrest with
      | nil =>
          have hitem := Derives.item hw hentry isSpace_nil
          rw [List.append_nil] at hitem
          exact .lastItem hitem
      | @cons c' next cs entries hnext hrest =>
          have hitem := Derives.item hw hentry isSpace_nil
          rw [List.append_nil] at hitem
          have hspace : IsSpace (whenFmt fmt [32]) := isSpace_whenFmt fmt (by
            intro c hc
            exact .inl (List.mem_singleton.mp hc))
          rw [joinEntries_cons_cons, ← List.append_assoc]
          exact .moreItems hitem (ih (List.cons_ne_nil c' cs) hspace)

/-! ## Printed objects -/

/-- The members of an object with what separates them. -/
def joinMembers (fmt : Bool) (depth : Nat) : List (List UInt8 × List UInt8) → List UInt8
  | [] => []
  | (name, entry) :: rest =>
      whenFmt fmt (tabs depth) ++ (name ++ 58 :: (whenFmt fmt [9] ++ (entry ++
        ((if rest.isEmpty then [] else [44]) ++ (whenFmt fmt [10] ++
          joinMembers fmt depth rest)))))

/-- The loop over the members writes them when they fit. -/
theorem writeMembers_eq {fmt : Bool} {depth : Nat} {members : List (List UInt8 × List UInt8)}
    {cap : Nat} {out : List UInt8}
    (h : out.length + (joinMembers fmt depth members).length < cap) :
    writeMembers cap fmt depth members out = .ok (out ++ joinMembers fmt depth members) := by
  induction members generalizing out with
  | nil => rw [writeMembers, joinMembers, List.append_nil, Outcome.pure_eq]
  | cons member rest ih =>
      obtain ⟨name, entry⟩ := member
      simp only [joinMembers, List.length_append, List.length_cons] at h
      rw [writeMembers, put_bind, put_bind, put_bind, put_bind, terminate_bind, put_bind, put_bind,
        terminate_bind, ih, joinMembers]
      · simp only [List.append_assoc, List.cons_append]
      all_goals
        try simp only [List.length_append, List.length_cons]
        omega

/-- The computed block is large enough for the members and what separates them. -/
theorem length_joinMembers_le (fmt : Bool) (depth : Nat)
    (members : List (List UInt8 × List UInt8)) :
    (joinMembers fmt depth members).length ≤
      (members.map fun m => m.2.length + m.1.length + 2 + if fmt then 2 + depth else 0).sum := by
  induction members with
  | nil => exact le_rfl
  | cons member rest ih =>
      obtain ⟨name, entry⟩ := member
      have hcomma : (if rest.isEmpty then [] else [(44 : UInt8)]).length ≤ 1 := by
        split_ifs <;> simp
      simp only [joinMembers, List.length_append, List.length_cons, length_whenFmt, tabs,
        List.length_replicate, List.length_nil, List.map_cons, List.sum_cons]
      cases fmt <;> simp only [Bool.false_eq_true, if_true, if_false] at ih ⊢ <;> omega

theorem composeObject_eq (fmt : Bool) (depth : Nat) (members : List (List UInt8 × List UInt8)) :
    composeObject fmt depth members =
      .ok (123 :: (whenFmt fmt [10] ++ (joinMembers fmt depth members ++
        (whenFmt fmt (tabs (depth - 1)) ++ [125])))) := by
  have hlen := length_joinMembers_le fmt depth members
  have hopen : (whenFmt fmt [10]).length ≤ 1 := by
    cases fmt <;> simp [whenFmt]
  have hclose : (whenFmt fmt (tabs (depth - 1))).length ≤ if fmt then depth else 0 := by
    cases fmt <;> simp [whenFmt, tabs]
  rw [composeObject, put_bind, terminate_bind, writeMembers_eq, Outcome.ok_bind, put_bind, put_bind,
    terminate_of_lt]
  · simp only [List.nil_append, List.append_assoc, List.cons_append]
  all_goals
    simp only [List.nil_append, List.length_append, List.length_cons, List.length_nil]
    omega

theorem printEmptyObject_eq (fmt : Bool) (depth : Nat) :
    printEmptyObject fmt depth = .ok (123 :: (whenFmt fmt (10 :: tabs (depth - 1)) ++ [125])) := by
  rw [printEmptyObject, put_bind, put_bind, put_bind, terminate_of_lt]
  · simp only [List.nil_append, List.cons_append]
  all_goals
    cases fmt <;>
      simp only [whenFmt, tabs, List.nil_append, List.length_append, List.length_cons,
        List.length_nil, List.length_replicate, if_true, if_false, Bool.false_eq_true] <;>
      omega

/-- What is printed for one member. -/
structure MemberText (c : CStr × CJson) (m : List UInt8 × List UInt8) : Prop where
  name : ∃ n, m.1 = 34 :: (n ++ [34]) ∧ StringText n c.1.bytes
  entry : Derives (.value c.2) m.2

/-- Texts of members, separated, make up the inside of an object. -/
theorem derives_joinMembers (fmt : Bool) (depth : Nat) {cs : List (CStr × CJson)}
    {members : List (List UInt8 × List UInt8)} (h : List.Forall₂ MemberText cs members)
    (hne : cs ≠ []) {w w' : List UInt8} (hw : IsSpace w) (hw' : IsSpace w') :
    Derives (.members cs) (w ++ (joinMembers fmt depth members ++ w')) := by
  induction h generalizing w with
  | nil => exact absurd rfl hne
  | @cons c m cs members hm hrest ih =>
      obtain ⟨s, c⟩ := c
      obtain ⟨name, entry⟩ := m
      obtain ⟨⟨n, hname, hn⟩, hentry⟩ := hm
      dsimp only at hname hentry
      have hindent : IsSpace (w ++ whenFmt fmt (tabs depth)) :=
        isSpace_append hw (isSpace_whenFmt fmt (isSpace_tabs depth))
      have htab : IsSpace (whenFmt fmt [9]) := isSpace_whenFmt fmt (isSpace_tabs 1)
      have hnewline : IsSpace (whenFmt fmt [10]) := isSpace_whenFmt fmt isSpace_newline
      cases hrest with
      | nil =>
          have hitem := Derives.item htab hentry (isSpace_append hnewline hw')
          have hmember := Derives.lastMember (Derives.member hindent hn isSpace_nil hitem)
          simpa [joinMembers, hname] using hmember
      | @cons c' m' cs members hm' hrest =>
          have hitem := Derives.item htab hentry isSpace_nil
          have hmember := Derives.member hindent hn isSpace_nil hitem
          have hmore := Derives.moreMembers hmember (ih (List.cons_ne_nil c' cs) hnewline)
          have hcons : (m' :: members).isEmpty = false := rfl
          rw [joinMembers, hcons, hname]
          simpa using hmore

/-! ## The numbers of a tree -/

mutual

/-- The characters of the numbers of a tree. -/
def numbers : CJson → List (List UInt8)
  | .number chars => [chars]
  | .array child => itemNumbers child
  | .object child => memberNumbers child
  | _ => []

/-- {lit}`numbers` for the items of an array. -/
def itemNumbers : List CJson → List (List UInt8)
  | [] => []
  | c :: cs => numbers c ++ itemNumbers cs

/-- {lit}`numbers` for the members of an object. -/
def memberNumbers : List (CStr × CJson) → List (List UInt8)
  | [] => []
  | (_, c) :: cs => numbers c ++ memberNumbers cs

end

section MapNumbers

variable (f : List UInt8 → List UInt8)

mutual

/-- A tree with each number replaced. -/
def mapNumbers : CJson → CJson
  | .null => .null
  | .false => .false
  | .true => .true
  | .number chars => .number (f chars)
  | .string s => .string s
  | .array child => .array (mapItems child)
  | .object child => .object (mapMembers child)

/-- {lit}`mapNumbers` for the items of an array. -/
def mapItems : List CJson → List CJson
  | [] => []
  | c :: cs => mapNumbers c :: mapItems cs

/-- {lit}`mapNumbers` for the members of an object. -/
def mapMembers : List (CStr × CJson) → List (CStr × CJson)
  | [] => []
  | (s, c) :: cs => (s, mapNumbers c) :: mapMembers cs

end

mutual

/-- A tree stays as it is exactly when each of its numbers does. -/
theorem mapNumbers_eq_self_iff :
    ∀ c : CJson, mapNumbers f c = c ↔ ∀ chars ∈ numbers c, f chars = chars
  | .null => by simp [mapNumbers, numbers]
  | .false => by simp [mapNumbers, numbers]
  | .true => by simp [mapNumbers, numbers]
  | .number chars => by simp [mapNumbers, numbers]
  | .string s => by simp [mapNumbers, numbers]
  | .array child => by simp [mapNumbers, numbers, mapItems_eq_self_iff child]
  | .object child => by simp [mapNumbers, numbers, mapMembers_eq_self_iff child]

/-- {lit}`mapNumbers_eq_self_iff` for the items of an array. -/
theorem mapItems_eq_self_iff :
    ∀ cs : List CJson, mapItems f cs = cs ↔ ∀ chars ∈ itemNumbers cs, f chars = chars
  | [] => by simp [mapItems, itemNumbers]
  | c :: cs => by
      simp [mapItems, itemNumbers, mapNumbers_eq_self_iff c, mapItems_eq_self_iff cs,
        or_imp, forall_and]

/-- {lit}`mapNumbers_eq_self_iff` for the members of an object. -/
theorem mapMembers_eq_self_iff :
    ∀ cs : List (CStr × CJson),
      mapMembers f cs = cs ↔ ∀ chars ∈ memberNumbers cs, f chars = chars
  | [] => by simp [mapMembers, memberNumbers]
  | (s, c) :: cs => by
      simp [mapMembers, memberNumbers, mapNumbers_eq_self_iff c, mapMembers_eq_self_iff cs,
        or_imp, forall_and]

end

end MapNumbers

/-! ## Printed trees -/

section PrintedTrees

variable {printNumber : List UInt8 → List UInt8}

mutual

/-- A printed tree fits in its blocks and is a JSON text of that tree, with its numbers as they
are printed. -/
theorem printValue_derives (fmt : Bool) (depth : Nat) :
    ∀ c : CJson, (∀ chars ∈ numbers c, NumberText (printNumber chars)) →
      ∃ t, printValue printNumber fmt depth c = .ok t ∧
        Derives (.value (mapNumbers printNumber c)) t
  | .null, _ => ⟨nullWord, by rw [printValue, Outcome.pure_eq], .null⟩
  | .false, _ => ⟨falseWord, by rw [printValue, Outcome.pure_eq], .false⟩
  | .true, _ => ⟨trueWord, by rw [printValue, Outcome.pure_eq], .true⟩
  | .number chars, hnumbers =>
      ⟨printNumber chars, by rw [printValue, Outcome.pure_eq],
        .number (hnumbers chars List.mem_cons_self)⟩
  | .string s, _ => by
      obtain ⟨t, ht, htext⟩ := printString_text s
      exact ⟨34 :: (t ++ [34]), by rw [printValue, ht], .string htext⟩
  | .array [], _ => ⟨[91, 93], by rw [printValue, Outcome.pure_eq], .emptyArray isSpace_nil⟩
  | .array (c :: cs), hnumbers => by
      obtain ⟨entries, hentries, htexts⟩ :=
        printEntries_derives fmt (depth + 1) (c :: cs) hnumbers
      refine ⟨91 :: (joinEntries fmt entries ++ [93]), ?_, .array ?_⟩
      · rw [printValue, hentries, Outcome.ok_bind, composeArray_eq]
      · exact derives_joinEntries htexts (List.cons_ne_nil _ _) isSpace_nil
  | .object [], _ => by
      refine ⟨123 :: (whenFmt fmt (10 :: tabs (depth - 1)) ++ [125]), ?_, .emptyObject ?_⟩
      · rw [printValue, printEmptyObject_eq]
      · exact isSpace_whenFmt fmt (isSpace_append isSpace_newline (isSpace_tabs (depth - 1)))
  | .object (c :: cs), hnumbers => by
      obtain ⟨members, hmembers, htexts⟩ :=
        printMembers_derives fmt (depth + 1) (c :: cs) hnumbers
      have hinside := derives_joinMembers fmt (depth + 1) htexts
        (List.cons_ne_nil _ _) (isSpace_whenFmt fmt isSpace_newline)
        (isSpace_whenFmt fmt (isSpace_tabs (depth + 1 - 1)))
      refine ⟨_, ?_, .object hinside⟩
      rw [printValue, hmembers, Outcome.ok_bind, composeObject_eq]
      simp only [List.append_assoc]

/-- {lit}`printValue_derives` for the entries of an array. -/
theorem printEntries_derives (fmt : Bool) (depth : Nat) :
    ∀ cs : List CJson, (∀ chars ∈ itemNumbers cs, NumberText (printNumber chars)) →
      ∃ entries, printEntries printNumber fmt depth cs = .ok entries ∧
        List.Forall₂ (fun c t => Derives (.value c) t) (mapItems printNumber cs) entries
  | [], _ => ⟨[], by rw [printEntries, Outcome.pure_eq], .nil⟩
  | c :: cs, hnumbers => by
      obtain ⟨t, ht, htext⟩ := printValue_derives fmt depth c
        fun chars hchars => hnumbers chars (List.mem_append_left _ hchars)
      obtain ⟨entries, hentries, htexts⟩ := printEntries_derives fmt depth cs
        fun chars hchars => hnumbers chars (List.mem_append_right _ hchars)
      refine ⟨t :: entries, ?_, .cons htext htexts⟩
      rw [printEntries, ht, Outcome.ok_bind, hentries, Outcome.ok_bind, Outcome.pure_eq]

/-- {lit}`printValue_derives` for the members of an object. -/
theorem printMembers_derives (fmt : Bool) (depth : Nat) :
    ∀ cs : List (CStr × CJson), (∀ chars ∈ memberNumbers cs, NumberText (printNumber chars)) →
      ∃ members, printMembers printNumber fmt depth cs = .ok members ∧
        List.Forall₂ MemberText (mapMembers printNumber cs) members
  | [], _ => ⟨[], by rw [printMembers, Outcome.pure_eq], .nil⟩
  | (s, c) :: cs, hnumbers => by
      obtain ⟨n, hn, hname⟩ := printString_text s
      obtain ⟨t, ht, htext⟩ := printValue_derives fmt depth c
        fun chars hchars => hnumbers chars (List.mem_append_left _ hchars)
      obtain ⟨members, hmembers, htexts⟩ := printMembers_derives fmt depth cs
        fun chars hchars => hnumbers chars (List.mem_append_right _ hchars)
      refine ⟨(34 :: (n ++ [34]), t) :: members, ?_, .cons ⟨⟨n, rfl, hname⟩, htext⟩ htexts⟩
      rw [printMembers, hn, Outcome.ok_bind, ht, Outcome.ok_bind, hmembers, Outcome.ok_bind,
        Outcome.pure_eq]

end

/-- A tree whose numbers are printed as numbers is printed within its blocks, formatted or not,
and parsed back with each number as it was printed: as the same tree exactly when every number
is printed with the characters from which it was read. -/
theorem cJSONParse_cJSONPrint (item : CJson)
    (hnumbers : ∀ chars ∈ numbers item, NumberText (printNumber chars)) (fmt : Bool)
    (after : List UInt8) :
    ∃ t, cJSONPrint printNumber fmt item = .ok t ∧
      cJSONParse (t ++ 0 :: after) = .ok (mapNumbers printNumber item) ∧
      (cJSONParse (t ++ 0 :: after) = .ok item ↔
        ∀ chars ∈ numbers item, printNumber chars = chars) := by
  obtain ⟨t, ht, hderives⟩ := printValue_derives fmt 0 item hnumbers
  have hitem := Derives.item isSpace_nil hderives isSpace_nil
  rw [List.nil_append, List.append_nil] at hitem
  have hparse := cJSONParse_of_derives hitem after
  refine ⟨t, ht, hparse, ?_⟩
  rw [hparse, ← mapNumbers_eq_self_iff printNumber item, Outcome.ok.injEq]

/-- The number 1.5 is printed with six digits behind its point. -/
theorem cJSONParse_cJSONPrint_null :
    ∃ t, cJSONPrint (fun _ => [49, 46, 53, 48, 48, 48, 48, 48]) true
        (.object [(CStr.ofChars ['\n'], .null), (CStr.ofChars ['x'], .number [49, 46, 53])]) =
          .ok t ∧
      cJSONParse (t ++ [0]) =
        .ok (.object [(CStr.ofChars ['\n'], .null),
          (CStr.ofChars ['x'], .number [49, 46, 53, 48, 48, 48, 48, 48])]) := by
  have htext : NumberText [49, 46, 53, 48, 48, 48, 48, 48] :=
    .parts (.inl rfl) (.inr ⟨49, [], rfl, by decide, by simp [IsDigits]⟩)
      (.inr ⟨53, List.replicate 5 48, rfl, by decide, fun d hd => by
        rw [List.eq_of_mem_replicate hd]; decide⟩) (.inl rfl)
  obtain ⟨t, ht, hparse, -⟩ := cJSONParse_cJSONPrint
    (.object [(CStr.ofChars ['\n'], .null), (CStr.ofChars ['x'], .number [49, 46, 53])])
    (fun _ _ => htext) true []
  exact ⟨t, ht, hparse⟩

end PrintedTrees

end JsonText

end WeatherStation
