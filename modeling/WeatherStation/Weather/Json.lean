import WeatherStation.Foundation.Memory

/-!
# cJSON trees and lookups

The tree that {lit}`cJSON_Parse` builds, and the two lookups that the weather
parser makes on it.  A pointer that may be {lit}`NULL` is an {lean}`Option`;
following a {lit}`NULL` pointer, or using the {lit}`valuestring` of an item
that is not a string, is reported as a {lit}`Fault`.

Main results:

- Theorem {lit}`resolve_eq_ok_iff`: following a path with the C accesses
  succeeds exactly when every member on it exists and its last item is a string.
-/

open Foundation

namespace WeatherStation

/-- An item of a parsed response: the {lit}`valuestring` of a string item, the children of an
array or object, and the characters from which a number was read.  Its {lit}`valuedouble` and
{lit}`valueint` are what floating point arithmetic makes of them. -/
inductive CJson where
  | null
  | false
  | true
  | number (chars : List UInt8)
  | string (valuestring : CStr)
  | array (child : List CJson)
  | object (child : List (CStr × CJson))

/-- An access that the C code must not make. -/
inductive Fault where
  /-- A {lit}`NULL` item was looked into. -/
  | nullItem
  /-- The {lit}`valuestring` of an item that is not a string was used. -/
  | notString
  /-- A text was read past the end of its buffer. -/
  | unterminated
deriving DecidableEq

/-- C {lit}`tolower` in the default locale. -/
def tolower (c : UInt8) : UInt8 :=
  if 65 ≤ c ∧ c ≤ 90 then c + 32 else c

/-- {lit}`cJSON_strcasecmp` on the bytes before the terminators; it is zero
exactly when both strings end together. -/
def cJSONStrcasecmp : List UInt8 → List UInt8 → Int
  | [], [] => 0
  | [], b :: _ => 0 - (tolower b).toNat
  | a :: _, [] => (tolower a).toNat - 0
  | a :: s1, b :: s2 =>
      if tolower a = tolower b then cJSONStrcasecmp s1 s2
      else (tolower a).toNat - (tolower b).toNat

namespace CJson

/-- The child list walked by {lit}`cJSON_GetObjectItem`.  An array item has no
name, so it matches no string; the other items have no children. -/
def objectItem (o : CJson) (name : CStr) : Option CJson :=
  match o with
  | object child =>
      (child.find? fun c => cJSONStrcasecmp c.1.bytes name.bytes = 0).map Prod.snd
  | _ => none

/-- The child list walked by {lit}`cJSON_GetArrayItem`; it counts the members of
an object as well. -/
def arrayItem (a : CJson) (item : Nat) : Option CJson :=
  match a with
  | array child => child[item]?
  | object child => child[item]?.map Prod.snd
  | _ => none

/-- The string of a string item. -/
def stringValue : CJson → Option CStr
  | string s => some s
  | _ => none

end CJson

/-- {lit}`cJSON_GetObjectItem`: the first member whose name matches without
regard to case. -/
def cJSONGetObjectItem (object : Option CJson) (name : CStr) : Except Fault (Option CJson) :=
  match object with
  | none => .error .nullItem
  | some o => .ok (o.objectItem name)

/-- {lit}`cJSON_GetArrayItem`: the item at the given position. -/
def cJSONGetArrayItem (array : Option CJson) (item : Nat) : Except Fault (Option CJson) :=
  match array with
  | none => .error .nullItem
  | some a => .ok (a.arrayItem item)

/-- The use of {lit}`item->valuestring` as a string. -/
def valuestring (item : Option CJson) : Except Fault CStr :=
  match item with
  | none => .error .nullItem
  | some i =>
      match i.stringValue with
      | none => .error .notString
      | some s => .ok s

@[simp] theorem cJSONGetObjectItem_some (o : CJson) (name : CStr) :
    cJSONGetObjectItem (some o) name = .ok (o.objectItem name) :=
  rfl

@[simp] theorem cJSONGetObjectItem_none (name : CStr) :
    cJSONGetObjectItem none name = .error .nullItem :=
  rfl

@[simp] theorem cJSONGetArrayItem_some (a : CJson) (item : Nat) :
    cJSONGetArrayItem (some a) item = .ok (a.arrayItem item) :=
  rfl

@[simp] theorem cJSONGetArrayItem_none (item : Nat) :
    cJSONGetArrayItem none item = .error .nullItem :=
  rfl

@[simp] theorem valuestring_none : valuestring none = .error .nullItem :=
  rfl

/-- The string of an item is usable exactly when the item exists and is a string. -/
theorem valuestring_eq_ok_iff {item : Option CJson} {s : CStr} :
    valuestring item = .ok s ↔ item.bind CJson.stringValue = some s := by
  cases item with
  | none => simp
  | some i => cases h : i.stringValue <;> simp [valuestring, h]

/-! ## Paths into a tree -/

/-- One lookup on the way to an item. -/
inductive Step where
  | member (name : CStr)
  | index (item : Nat)

namespace CJson

/-- The C lookup made for one step. -/
def stepInto (item : Option CJson) : Step → Except Fault (Option CJson)
  | .member name => cJSONGetObjectItem item name
  | .index i => cJSONGetArrayItem item i

/-- Follow a path with the C lookups and use the string at its end. -/
def resolve (item : Option CJson) : List Step → Except Fault CStr
  | [] => valuestring item
  | st :: path => (stepInto item st).bind fun next => resolve next path

/-- The item one step below, without any notion of an invalid access. -/
def child (item : CJson) : Step → Option CJson
  | .member name => item.objectItem name
  | .index i => item.arrayItem i

/-- The string that a path leads to, if every lookup on it finds an item and the
last one is a string. -/
def stringAt (item : CJson) : List Step → Option CStr
  | [] => item.stringValue
  | st :: path => (item.child st).bind fun next => next.stringAt path

theorem stepInto_some (item : CJson) (st : Step) :
    stepInto (some item) st = .ok (item.child st) := by
  cases st <;> rfl

theorem stepInto_none (st : Step) : stepInto none st = .error .nullItem := by
  cases st <;> rfl

theorem resolve_none (path : List Step) : resolve none path = .error .nullItem := by
  cases path with
  | nil => rfl
  | cons st path => rw [resolve, stepInto_none]; rfl

/-- The C accesses along a path succeed exactly when the path leads to a string. -/
theorem resolve_eq_ok_iff {item : CJson} {path : List Step} {s : CStr} :
    resolve (some item) path = .ok s ↔ item.stringAt path = some s := by
  induction path generalizing item with
  | nil => exact valuestring_eq_ok_iff
  | cons st path ih =>
      rw [resolve, stepInto_some, stringAt]
      cases h : item.child st with
      | none => simp [Except.bind, resolve_none]
      | some next => simpa [Except.bind] using ih

/-- A path that does not lead to a string ends in an invalid access. -/
theorem exists_resolve_eq_error {item : CJson} {path : List Step}
    (h : item.stringAt path = none) : ∃ e, resolve (some item) path = .error e := by
  cases hr : resolve (some item) path with
  | error e => exact ⟨e, rfl⟩
  | ok s =>
      rw [resolve_eq_ok_iff.mp hr] at h
      contradiction

end CJson

end WeatherStation
