import WeatherStation.Foundation.Hex
import WeatherStation.Foundation.Outcome
import WeatherStation.Weather.Parse

/-!
# The JSON text parser

{lit}`cJSON_Parse` and the routines below it, byte by byte.  A pointer into the
text is given by the bytes from there to the end of the block that holds the
text; a pointer past the end has no bytes.  The text ends at its first zero byte,
but the parser moves its pointers on its own account, so reading past the block
and writing past the string's own block are faults of the model.  A recursion
that is cut off by its depth bound is a fault as well; the bound is three times the
size of the block.

A number is kept by its characters; the {lit}`double` and the {lit}`int` that
{lit}`parse_number` computes from them are used by the printer only and are not computed here.
An allocation that fails makes the parser give up and is left out.
-/

open Foundation

namespace WeatherStation

/-- What the text parser must not do. -/
inductive TextFault where
  /-- A byte behind the block of the text was read. -/
  | overread
  /-- A byte was written behind the block of a string. -/
  | overflow
  /-- The recursion was cut off. -/
  | depth
deriving DecidableEq

/-- The bytes from a pointer to the end of the text's block. -/
abbrev Text := List UInt8

/-- A routine of the text parser; {lit}`refused` is its {lit}`NULL` result. -/
abbrev Scan (α : Type) := Outcome TextFault α

namespace JsonText

/-- {lit}`*ptr`. -/
def deref (ptr : Text) : Scan UInt8 :=
  match ptr with
  | [] => .fault .overread
  | c :: _ => .ok c

@[simp] theorem deref_cons (c : UInt8) (ptr : Text) : deref (c :: ptr) = .ok c :=
  rfl

/-- {lit}`skip`: step over control characters and spaces. -/
def skip : Text → Scan Text
  | [] => .fault .overread
  | c :: ptr => if c ≠ 0 ∧ c ≤ 32 then skip ptr else .ok (c :: ptr)

/-- {lit}`!strncmp(value, word, strlen(word))` for a literal word. -/
def startsWith : List UInt8 → Text → Scan Bool
  | [], _ => .ok true
  | _ :: _, [] => .fault .overread
  | w :: word, c :: ptr => if c = w then startsWith word ptr else .ok false

/-! ## Numbers -/

/-- {lit}`while (*num >= '0' && *num <= '9') num++`. -/
def digits : Text → Scan Text
  | [] => .fault .overread
  | c :: num => if isdigit c then digits num else .ok (c :: num)

/-- The optional zero and the digits that do not start with one. -/
def numberInt (num : Text) : Scan Text := do
  let c ← deref num
  let num := if c = 48 then num.drop 1 else num
  let c ← deref num
  if 49 ≤ c ∧ c ≤ 57 then digits num else pure num

/-- The optional fraction: a point counts only before a digit. -/
def numberFrac (num : Text) : Scan Text := do
  let c ← deref num
  if c = 46 then do
    let d ← deref (num.drop 1)
    if isdigit d then digits (num.drop 1) else pure num
  else pure num

/-- The optional exponent: {lit}`e` counts even when no digit follows. -/
def numberExp (num : Text) : Scan Text := do
  let c ← deref num
  if c = 101 ∨ c = 69 then do
    let num := num.drop 1
    let c ← deref num
    digits (if c = 43 ∨ c = 45 then num.drop 1 else num)
  else pure num

/-- {lit}`parse_number`: where the number ends. -/
def parseNumber (num : Text) : Scan Text := do
  let c ← deref num
  let num ← numberInt (if c = 45 then num.drop 1 else num)
  let num ← numberFrac num
  numberExp num

/-! ## Strings -/

/-- The digits that {lit}`parse_hex4` still expects, with the value {lit}`h` of
those before. -/
def hexDigits : Nat → Nat → Text → Scan Nat
  | 0, h, _ => .ok h
  | _ + 1, _, [] => .fault .overread
  | n + 1, h, c :: str =>
      match Hex.hexDigit c with
      | none => .ok 0
      | some d => hexDigits n (h <<< 4 + d) str

/-- {lit}`parse_hex4`: the value of four hexadecimal digits; zero when a character
is none. -/
def parseHex4 (str : Text) : Scan Nat :=
  hexDigits 4 0 str

/-- {lit}`(uc | 0x80) & 0xBF`. -/
def continuation (uc : Nat) : UInt8 :=
  UInt8.ofNat ((uc ||| 0x80) &&& 0xBF)

/-- {lit}`firstByteMark`. -/
def firstByteMark : Nat → Nat
  | 2 => 0xC0
  | 3 => 0xE0
  | 4 => 0xF0
  | _ => 0x00

/-- The bytes of a code point, as the two {lit}`switch` statements choose and
write them. -/
def utf8 (uc : Nat) : List UInt8 :=
  if uc < 0x80 then [UInt8.ofNat (uc ||| firstByteMark 1)]
  else if uc < 0x800 then [UInt8.ofNat (uc >>> 6 ||| firstByteMark 2), continuation uc]
  else if uc < 0x10000 then
    [UInt8.ofNat (uc >>> 6 >>> 6 ||| firstByteMark 3), continuation (uc >>> 6), continuation uc]
  else
    [UInt8.ofNat (uc >>> 6 >>> 6 >>> 6 ||| firstByteMark 4), continuation (uc >>> 6 >>> 6),
      continuation (uc >>> 6), continuation uc]

/-- The case {lit}`'u'` of {lit}`parse_string`: the bytes to write, and the pointer
at the last character that was used.  Nothing is written for a character that is
no code point, but the pointer moves all the same. -/
def transcode (ptr : Text) : Scan (List UInt8 × Text) := do
  let uc ← parseHex4 (ptr.drop 1)
  let ptr := ptr.drop 4
  if 0xDC00 ≤ uc ∧ uc ≤ 0xDFFF ∨ uc = 0 then pure ([], ptr)
  else if 0xD800 ≤ uc ∧ uc ≤ 0xDBFF then do
    let second ← startsWith [92, 117] (ptr.drop 1)
    if second = false then pure ([], ptr)
    else do
      let uc2 ← parseHex4 (ptr.drop 3)
      let ptr := ptr.drop 6
      if uc2 < 0xDC00 ∨ 0xDFFF < uc2 then pure ([], ptr)
      else pure (utf8 (0x10000 + (((uc &&& 0x3FF) <<< 10) ||| (uc2 &&& 0x3FF))), ptr)
  else pure (utf8 uc, ptr)

/-- The cases of the {lit}`switch` that write one byte.  A character without a
case of its own stands for itself, the terminator of the text included. -/
def escapedByte (c : UInt8) : UInt8 :=
  match c with
  | 98 => 8
  | 102 => 12
  | 110 => 10
  | 114 => 13
  | 116 => 9
  | c => c

/-- The {lit}`switch` over the character after a backslash. -/
def unescape (ptr : Text) : Scan (List UInt8 × Text) := do
  let c ← deref ptr
  if c = 117 then transcode ptr else pure ([escapedByte c], ptr)

/-- The first loop of {lit}`parse_string`: how many characters there are up to the
closing quote or the terminator, an escaped one counting together with its
backslash. -/
def stringLength : Text → Scan Nat
  | [] => .fault .overread
  | c :: ptr =>
      if c = 34 ∨ c = 0 then .ok 0
      else if c = 92 then
        match ptr with
        | [] => .fault .overread
        | _ :: ptr => do
            let len ← stringLength ptr
            pure (len + 1)
      else do
        let len ← stringLength ptr
        pure (len + 1)

/-- Write the bytes behind those that are in the string's block of {lit}`cap` bytes. -/
def put (cap : Nat) (out bytes : List UInt8) : Scan (List UInt8) :=
  if out.length + bytes.length ≤ cap then .ok (out ++ bytes) else .fault .overflow

/-- The second loop of {lit}`parse_string`.  Every round moves the pointer, so the
bytes of the block bound the rounds. -/
def copyString (cap : Nat) : Nat → Text → List UInt8 → Scan (List UInt8 × Text)
  | 0, _, _ => .fault .overread
  | n + 1, ptr, out => do
      let c ← deref ptr
      if c = 34 ∨ c = 0 then pure (out, ptr)
      else if c ≠ 92 then do
        let out ← put cap out [c]
        copyString cap n (ptr.drop 1) out
      else do
        let (bytes, ptr) ← unescape (ptr.drop 1)
        let out ← put cap out bytes
        copyString cap n (ptr.drop 1) out

/-- {lit}`parse_string`: the string and the pointer behind it. -/
def parseString (str : Text) : Scan (CStr × Text) := do
  let c ← deref str
  if c ≠ 34 then .refused
  else do
    let len ← stringLength (str.drop 1)
    let (out, ptr) ← copyString (len + 1) str.length (str.drop 1) []
    let out ← put (len + 1) out [0]
    let c ← deref ptr
    pure (CStr.ofBytes out, if c = 34 then ptr.drop 1 else ptr)

/-! ## Values -/

def nullWord : List UInt8 := [110, 117, 108, 108]
def falseWord : List UInt8 := [102, 97, 108, 115, 101]
def trueWord : List UInt8 := [116, 114, 117, 101]

mutual

/-- {lit}`parse_value`. -/
def parseValue : Nat → Text → Scan (CJson × Text)
  | 0, _ => .fault .depth
  | n + 1, value => do
      if ← startsWith nullWord value then pure (.null, value.drop 4)
      else if ← startsWith falseWord value then pure (.false, value.drop 5)
      else if ← startsWith trueWord value then pure (.true, value.drop 4)
      else do
        let c ← deref value
        if c = 34 then do
          let (s, value) ← parseString value
          pure (.string s, value)
        else if c = 45 ∨ isdigit c then do
          let «end» ← parseNumber value
          pure (.number (value.take (value.length - «end».length)), «end»)
        else if c = 91 then parseArray n value
        else if c = 123 then parseObject n value
        else .refused

/-- {lit}`parse_array`. -/
def parseArray : Nat → Text → Scan (CJson × Text)
  | 0, _ => .fault .depth
  | n + 1, value => do
      let c ← deref value
      if c ≠ 91 then .refused
      else do
        let value ← skip (value.drop 1)
        let c ← deref value
        if c = 93 then pure (.array [], value.drop 1)
        else do
          let value ← skip value
          let (child, value) ← parseValue n value
          let value ← skip value
          let (children, value) ← parseItems n value
          let c ← deref value
          if c = 93 then pure (.array (child :: children), value.drop 1) else .refused

/-- The loop of {lit}`parse_array` over the items behind a comma. -/
def parseItems : Nat → Text → Scan (List CJson × Text)
  | 0, _ => .fault .depth
  | n + 1, value => do
      let c ← deref value
      if c = 44 then do
        let value ← skip (value.drop 1)
        let (new_item, value) ← parseValue n value
        let value ← skip value
        let (children, value) ← parseItems n value
        pure (new_item :: children, value)
      else pure ([], value)

/-- The name, the colon and the value of one member of an object. -/
def parseMember : Nat → Text → Scan ((CStr × CJson) × Text)
  | 0, _ => .fault .depth
  | n + 1, value => do
      let value ← skip value
      let (string, value) ← parseString value
      let value ← skip value
      let c ← deref value
      if c ≠ 58 then .refused
      else do
        let value ← skip (value.drop 1)
        let (child, value) ← parseValue n value
        let value ← skip value
        pure ((string, child), value)

/-- {lit}`parse_object`. -/
def parseObject : Nat → Text → Scan (CJson × Text)
  | 0, _ => .fault .depth
  | n + 1, value => do
      let c ← deref value
      if c ≠ 123 then .refused
      else do
        let value ← skip (value.drop 1)
        let c ← deref value
        if c = 125 then pure (.object [], value.drop 1)
        else do
          let (child, value) ← parseMember n value
          let (children, value) ← parseMembers n value
          let c ← deref value
          if c = 125 then pure (.object (child :: children), value.drop 1) else .refused

/-- The loop of {lit}`parse_object` over the members behind a comma. -/
def parseMembers : Nat → Text → Scan (List (CStr × CJson) × Text)
  | 0, _ => .fault .depth
  | n + 1, value => do
      let c ← deref value
      if c = 44 then do
        let (new_item, value) ← parseMember n (value.drop 1)
        let (children, value) ← parseMembers n value
        pure (new_item :: children, value)
      else pure ([], value)

end

/-- {lit}`cJSON_ParseWithOpts`: the tree and the pointer behind its text. -/
def cJSONParseWithOpts (value : Text) (require_null_terminated : Bool) :
    Scan (CJson × Text) := do
  let start ← skip value
  let (c, «end») ← parseValue (3 * value.length + 3) start
  if require_null_terminated then do
    let «end» ← skip «end»
    let e ← deref «end»
    if e ≠ 0 then .refused else pure (c, «end»)
  else pure (c, «end»)

/-- {lit}`cJSON_Parse`. -/
def cJSONParse (value : Text) : Scan CJson := do
  let (c, _) ← cJSONParseWithOpts value false
  pure c

end JsonText

end WeatherStation
