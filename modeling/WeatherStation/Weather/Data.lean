import Mathlib.Algebra.GroupWithZero.Nat
import Mathlib.Logic.Function.Basic
import WeatherStation.Weather.Json

/-!
# The shared weather data

The globals {lit}`rt` and {lit}`wt` that the parser writes and the screen reads.
The object {lit}`rt` is a byte memory with the layout of the C structure
{lit}`Realtime` (4-byte aligned integers, little-endian), because the parser
copies names into its arrays without a bound: what such a copy reaches depends
on the layout.  Addresses from 44 on belong to whatever object follows
{lit}`rt`.

Main results:

- Theorem {lit}`read_writes_of_ne`: writing one member keeps every other
  member, as long as a name fits its array.
- Theorem {lit}`read_writesAll_of_mem`: writing members one after another leaves
  each of them decoded from its own string, whatever was there before.
-/

open Foundation

namespace WeatherStation

/-! ## Numbers in text -/

/-- C {lit}`isspace`. -/
def isspace (c : UInt8) : Bool :=
  c = 32 || (9 ≤ c && c ≤ 13)

/-- C {lit}`isdigit`. -/
def isdigit (c : UInt8) : Bool :=
  48 ≤ c && c ≤ 57

/-- The value of the leading decimal digits. -/
def digitsValue (ds : List UInt8) : Nat :=
  (ds.takeWhile isdigit).foldl (fun n d => 10 * n + (d.toNat - 48)) 0

/-- The nearest value in the range of {lit}`int`. -/
def clampInt (v : Int) : Int :=
  max (-2147483648) (min 2147483647 v)

/-- C {lit}`atoi`, as {lit}`strtol` in base 10: white space, a sign, digits; a
value outside the range of {lit}`int` is replaced by the nearest one. -/
def atoi (s : CStr) : Int :=
  match s.bytes.dropWhile isspace with
  | [] => 0
  | c :: ds =>
      if c = 45 then clampInt (-(digitsValue ds : Int))
      else if c = 43 then clampInt (digitsValue ds)
      else clampInt (digitsValue (c :: ds))

theorem clampInt_range (v : Int) :
    -2147483648 ≤ clampInt v ∧ clampInt v ≤ 2147483647 := by
  unfold clampInt
  omega

/-- The result of {lit}`atoi` is a value of type {lit}`int`. -/
theorem atoi_range (s : CStr) : -2147483648 ≤ atoi s ∧ atoi s ≤ 2147483647 := by
  unfold atoi
  cases s.bytes.dropWhile isspace with
  | nil => decide
  | cons c ds =>
      dsimp only
      split_ifs <;> exact clampInt_range _

/-! ## Layout of the globals -/

/-- The three character arrays of {lit}`Realtime`. -/
inductive NameField where
  | area_1
  | area_2
  | wtNm
deriving DecidableEq

/-- Number of bytes of each character array. -/
def nameSize : Nat := 10

/-- Address of a character array in {lit}`rt`. -/
def NameField.offset : NameField → Nat
  | .area_1 => 0
  | .area_2 => 10
  | .wtNm => 21

/-- Address of {lit}`rt.wtId`. -/
def wtIdOffset : Nat := 20

/-- Address of {lit}`rt.aqi`; byte 31 before it is padding. -/
def aqiOffset : Nat := 32

/-- Address of {lit}`rt.temp`. -/
def tempOffset : Nat := 36

/-- Address of {lit}`rt.humi`. -/
def humiOffset : Nat := 40

/-- The days of the forecast are numbered from 0 to 2. -/
instance instNeZeroDays : NeZero 3 :=
  ⟨Nat.succ_ne_zero 2⟩

/-- The forecast of one day. -/
structure Weather where
  D_wtId : UInt8
  N_wtId : UInt8
  Temp_L : Int
  Temp_H : Int
deriving DecidableEq

/-- The globals {lit}`rt` and {lit}`wt[3]`. -/
structure Globals where
  rt : Memory
  wt : Fin 3 → Weather

/-- One assignment that the parser makes to a global. -/
inductive Assign where
  /-- {lit}`rt_memset(rt.name, 0, 10)` -/
  | memset (n : NameField)
  /-- {lit}`rt_memcpy(rt.name, src, rt_strlen(src))` -/
  | memcpy (n : NameField) (src : CStr)
  | aqi (v : Int)
  | wtId (v : Int)
  | temp (v : Int)
  | humi (v : Int)
  | D_wtId (d : Fin 3) (v : Int)
  | N_wtId (d : Fin 3) (v : Int)
  | Temp_H (d : Fin 3) (v : Int)
  | Temp_L (d : Fin 3) (v : Int)

/-- Carry out one assignment.  An {lit}`int` stored in a {lit}`uint8_t` is
reduced modulo 256. -/
def Assign.apply (g : Globals) : Assign → Globals
  | .memset n => { g with rt := g.rt.fill n.offset 0 nameSize }
  | .memcpy n src => { g with rt := g.rt.write n.offset src.bytes }
  | .aqi v => { g with rt := g.rt.write aqiOffset (Memory.int32Bytes v) }
  | .wtId v => { g with rt := g.rt.write wtIdOffset [UInt8.ofInt v] }
  | .temp v => { g with rt := g.rt.write tempOffset (Memory.int32Bytes v) }
  | .humi v => { g with rt := g.rt.write humiOffset [UInt8.ofInt v] }
  | .D_wtId d v =>
      { g with wt := Function.update g.wt d { g.wt d with D_wtId := UInt8.ofInt v } }
  | .N_wtId d v =>
      { g with wt := Function.update g.wt d { g.wt d with N_wtId := UInt8.ofInt v } }
  | .Temp_H d v => { g with wt := Function.update g.wt d { g.wt d with Temp_H := v } }
  | .Temp_L d v => { g with wt := Function.update g.wt d { g.wt d with Temp_L := v } }

/-- Carry out assignments in order. -/
def applyAll (g : Globals) (ws : List Assign) : Globals :=
  ws.foldl Assign.apply g

@[simp] theorem applyAll_nil (g : Globals) : applyAll g [] = g :=
  rfl

@[simp] theorem applyAll_cons (g : Globals) (w : Assign) (ws : List Assign) :
    applyAll g (w :: ws) = applyAll (w.apply g) ws :=
  rfl

theorem applyAll_append (g : Globals) (ws ws' : List Assign) :
    applyAll g (ws ++ ws') = applyAll (applyAll g ws) ws' :=
  List.foldl_append

/-! ## Members of the globals -/

/-- A member of {lit}`rt` or of one entry of {lit}`wt`. -/
inductive Field where
  | name (n : NameField)
  | aqi
  | wtId
  | temp
  | humi
  | D_wtId (d : Fin 3)
  | N_wtId (d : Fin 3)
  | Temp_H (d : Fin 3)
  | Temp_L (d : Fin 3)
deriving DecidableEq

/-- What a member holds: the ten bytes of an array, or a number. -/
inductive Value where
  | bytes (bs : List UInt8)
  | int (v : Int)
deriving DecidableEq

/-- The ten bytes of an array that holds a name of at most ten bytes. -/
def padName (c : CStr) : List UInt8 :=
  c.bytes ++ List.replicate (nameSize - c.strlen) 0

namespace Field

/-- The content of a member. -/
def read (g : Globals) : Field → Value
  | name n => .bytes (g.rt.read n.offset nameSize)
  | aqi => .int (g.rt.readInt32 aqiOffset)
  | wtId => .int (g.rt wtIdOffset).toNat
  | temp => .int (g.rt.readInt32 tempOffset)
  | humi => .int (g.rt humiOffset).toNat
  | D_wtId d => .int (g.wt d).D_wtId.toNat
  | N_wtId d => .int (g.wt d).N_wtId.toNat
  | Temp_H d => .int (g.wt d).Temp_H
  | Temp_L d => .int (g.wt d).Temp_L

/-- The assignment that precedes the lookup of the member's string. -/
def clear : Field → List Assign
  | name n => [.memset n]
  | _ => []

/-- The content of a member once its array, if it is one, has been cleared. -/
def cleared (g : Globals) : Field → Value
  | name _ => .bytes (List.replicate nameSize 0)
  | f => f.read g

/-- The assignment made from the member's string; {lit}`conv` converts names. -/
def store (conv : CStr → CStr) (s : CStr) : Field → Assign
  | name n => .memcpy n (conv s)
  | aqi => .aqi (atoi s)
  | wtId => .wtId (atoi s)
  | temp => .temp (atoi s)
  | humi => .humi (atoi s)
  | D_wtId d => .D_wtId d (atoi s)
  | N_wtId d => .N_wtId d (atoi s)
  | Temp_H d => .Temp_H d (atoi s)
  | Temp_L d => .Temp_L d (atoi s)

/-- The content a member should have for a given string. -/
def decode (conv : CStr → CStr) (s : CStr) : Field → Value
  | name _ => .bytes (padName (conv s))
  | aqi => .int (atoi s)
  | temp => .int (atoi s)
  | Temp_H _ => .int (atoi s)
  | Temp_L _ => .int (atoi s)
  | wtId => .int (atoi s % 256)
  | humi => .int (atoi s % 256)
  | D_wtId _ => .int (atoi s % 256)
  | N_wtId _ => .int (atoi s % 256)

/-- A name fits its array with a terminator; other members always fit. -/
def Fits (conv : CStr → CStr) (s : CStr) : Field → Prop
  | name _ => (conv s).strlen < nameSize
  | _ => True

instance (conv : CStr → CStr) (s : CStr) (f : Field) : Decidable (f.Fits conv s) := by
  cases f <;> unfold Fits <;> infer_instance

/-- Everything written for one member. -/
def writes (conv : CStr → CStr) (s : CStr) (f : Field) : List Assign :=
  f.clear ++ [f.store conv s]

/-! ## Frames -/

/-- First address of the member in {lit}`rt`. -/
def start : Field → Nat
  | name n => n.offset
  | aqi => aqiOffset
  | wtId => wtIdOffset
  | temp => tempOffset
  | humi => humiOffset
  | _ => 0

/-- Number of bytes of {lit}`rt` that the member takes; none for a member of
{lit}`wt`. -/
def size : Field → Nat
  | name _ => nameSize
  | aqi => 4
  | wtId => 1
  | temp => 4
  | humi => 1
  | _ => 0

/-- Distinct members of {lit}`rt` lie apart. -/
theorem span_disjoint {f f' : Field} (h : f' ≠ f) :
    f'.start + f'.size ≤ f.start ∨ f.start + f.size ≤ f'.start ∨ f'.size = 0 ∨ f.size = 0 := by
  cases f <;> cases f' <;> try (simp [size]; done)
  all_goals first
    | (rename_i n n'; cases n <;> cases n' <;> first | exact absurd rfl h | decide)
    | (rename_i n; cases n <;> decide)
    | exact absurd rfl h
    | decide

/-- A member depends on its own bytes of {lit}`rt` and on {lit}`wt` only. -/
theorem read_congr {m m' : Memory} (wt : Fin 3 → Weather) (f : Field)
    (h : ∀ a, f.start ≤ a → a < f.start + f.size → m a = m' a) :
    f.read ⟨m, wt⟩ = f.read ⟨m', wt⟩ := by
  cases f with
  | name n => exact congrArg Value.bytes (Memory.read_congr h)
  | aqi => exact congrArg Value.int (Memory.readInt32_congr h)
  | temp => exact congrArg Value.int (Memory.readInt32_congr h)
  | wtId => simp only [read, h wtIdOffset le_rfl (Nat.lt_succ_self _)]
  | humi => simp only [read, h humiOffset le_rfl (Nat.lt_succ_self _)]
  | D_wtId d => rfl
  | N_wtId d => rfl
  | Temp_H d => rfl
  | Temp_L d => rfl

/-- A change of {lit}`rt` inside the bytes of one member keeps the others. -/
theorem read_of_frame {m m' : Memory} (wt : Fin 3 → Weather) {f f' : Field} (hne : f' ≠ f)
    (hframe : ∀ a, ¬(f.start ≤ a ∧ a < f.start + f.size) → m' a = m a) :
    f'.read ⟨m', wt⟩ = f'.read ⟨m, wt⟩ := by
  refine read_congr wt f' fun a ha ha' => hframe a ?_
  have hspan := span_disjoint hne
  omega

/-- Clearing an array keeps every other member. -/
theorem read_clear_of_ne (g : Globals) {f f' : Field} (hne : f' ≠ f) :
    f'.read (applyAll g f.clear) = f'.read g := by
  cases f with
  | name n => exact read_of_frame g.wt hne fun a ha => Memory.fill_of_not_mem g.rt ha
  | _ => rfl

/-- Clearing an array zeroes its ten bytes. -/
theorem read_clear_self (g : Globals) (f : Field) :
    f.read (applyAll g f.clear) = f.cleared g := by
  cases f with
  | name n => exact congrArg Value.bytes (Memory.read_fill_self g.rt n.offset nameSize 0)
  | _ => rfl

/-- Storing a string that fits keeps every other member. -/
theorem read_store_of_ne (conv : CStr → CStr) (s : CStr) (g : Globals) {f f' : Field}
    (hne : f' ≠ f) (hfit : f.Fits conv s) :
    f'.read ((f.store conv s).apply g) = f'.read g := by
  have hrt {off : Nat} {bs : List UInt8} (hoff : off = f.start) (hlen : bs.length ≤ f.size) :
      f'.read { g with rt := g.rt.write off bs } = f'.read g := by
    refine read_of_frame g.wt hne fun a ha => Memory.write_of_not_mem g.rt ?_
    omega
  cases f with
  | name n => exact hrt rfl (le_of_lt hfit)
  | aqi => exact hrt rfl le_rfl
  | wtId => exact hrt rfl le_rfl
  | temp => exact hrt rfl le_rfl
  | humi => exact hrt rfl le_rfl
  | _ =>
      -- Only a member of the same entry of `wt` can be affected, and each
      -- assignment names the one member that it sets.
      cases f' <;> simp only [read, store, Assign.apply, Function.update_apply] <;>
        split_ifs with hd <;> first | rfl | (subst hd; first | rfl | exact absurd rfl hne)

/-- Clearing and storing a string that fits leaves the decoded string. -/
theorem read_writes_self (conv : CStr → CStr) (s : CStr) (g : Globals) {f : Field}
    (hfit : f.Fits conv s) :
    f.read (applyAll g (f.writes conv s)) = f.decode conv s := by
  have hmod : ((UInt8.ofInt (atoi s)).toNat : Int) = atoi s % 256 := by
    simp [UInt8.ofInt]
    omega
  have hint (off : Nat) :
      (g.rt.write off (Memory.int32Bytes (atoi s))).readInt32 off = atoi s :=
    Memory.readInt32_write_int32Bytes g.rt off (atoi_range s).1 (atoi_range s).2
  cases f with
  | name n =>
      exact congrArg Value.bytes (Memory.read_write_fill g.rt n.offset (le_of_lt hfit))
  | aqi => exact congrArg Value.int (hint aqiOffset)
  | temp => exact congrArg Value.int (hint tempOffset)
  | wtId => exact congrArg Value.int hmod
  | humi => exact congrArg Value.int hmod
  | D_wtId d => simpa [writes, clear, store, read, decode, Assign.apply] using hmod
  | N_wtId d => simpa [writes, clear, store, read, decode, Assign.apply] using hmod
  | Temp_H d => simp [writes, clear, store, read, decode, Assign.apply]
  | Temp_L d => simp [writes, clear, store, read, decode, Assign.apply]

/-- Writing one member keeps every other member. -/
theorem read_writes_of_ne (conv : CStr → CStr) (s : CStr) (g : Globals) {f f' : Field}
    (hne : f' ≠ f) (hfit : f.Fits conv s) :
    f'.read (applyAll g (f.writes conv s)) = f'.read g := by
  rw [writes, applyAll_append, applyAll_cons, applyAll_nil,
    read_store_of_ne conv s _ hne hfit, read_clear_of_ne g hne]

/-- The writes for several members, each with its own string. -/
def writesAll (conv : CStr → CStr) (s : Field → CStr) (fs : List Field) : List Assign :=
  fs.flatMap fun f => f.writes conv (s f)

@[simp] theorem writesAll_nil (conv : CStr → CStr) (s : Field → CStr) :
    writesAll conv s [] = [] :=
  rfl

@[simp] theorem writesAll_cons (conv : CStr → CStr) (s : Field → CStr) (f : Field)
    (fs : List Field) :
    writesAll conv s (f :: fs) = f.writes conv (s f) ++ writesAll conv s fs :=
  List.flatMap_cons

theorem writesAll_append (conv : CStr → CStr) (s : Field → CStr) (fs fs' : List Field) :
    writesAll conv s (fs ++ fs') = writesAll conv s fs ++ writesAll conv s fs' :=
  List.flatMap_append

/-- Members that are not written keep their content. -/
theorem read_writesAll_of_notMem (conv : CStr → CStr) (s : Field → CStr) {fs : List Field}
    (hfit : ∀ f ∈ fs, f.Fits conv (s f)) (g : Globals) {f : Field} (hf : f ∉ fs) :
    f.read (applyAll g (writesAll conv s fs)) = f.read g := by
  induction fs generalizing g with
  | nil => rfl
  | cons f₀ fs ih =>
      rw [List.mem_cons, not_or] at hf
      rw [writesAll_cons, applyAll_append,
        ih (fun f' h => hfit f' (List.mem_cons_of_mem _ h)) _ hf.2,
        read_writes_of_ne conv (s f₀) g hf.1 (hfit f₀ List.mem_cons_self)]

/-- Members that are written end up decoded from their own strings, whatever
they held before. -/
theorem read_writesAll_of_mem (conv : CStr → CStr) (s : Field → CStr) {fs : List Field}
    (hfit : ∀ f ∈ fs, f.Fits conv (s f)) (g : Globals) {f : Field} (hf : f ∈ fs) :
    f.read (applyAll g (writesAll conv s fs)) = f.decode conv (s f) := by
  induction fs generalizing g with
  | nil => exact absurd hf List.not_mem_nil
  | cons f₀ fs ih =>
      have hrest : ∀ f' ∈ fs, f'.Fits conv (s f') :=
        fun f' h => hfit f' (List.mem_cons_of_mem _ h)
      rw [writesAll_cons, applyAll_append]
      by_cases hin : f ∈ fs
      · exact ih hrest _ hin
      · obtain rfl : f = f₀ := (List.mem_cons.mp hf).resolve_right hin
        rw [read_writesAll_of_notMem conv s hrest _ hin]
        exact read_writes_self conv (s f) g (hfit f List.mem_cons_self)

end Field

end WeatherStation
