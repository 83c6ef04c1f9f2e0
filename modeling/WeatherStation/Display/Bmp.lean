import WeatherStation.Display.Bus
import WeatherStation.Foundation.Memory

/-!
# Showing a bitmap file

{lit}`Show_BMP` statement by statement.  The file header and the pixel that is
being converted are globals, so another call that runs between two statements
changes what the first one reads afterwards.

Main results:

- Theorem {lit}`step_agree`: a statement does the same on two states of the globals
  that agree on what the call still reads before writing it.
- Theorem {lit}`bmp_completed`: what a complete call leaves in the header.
- Theorem {lit}`showBmp_preempted`: a call that is interrupted by a complete second
  call makes the same allocations, reads and sends as alone when the second header has the
  same bytes where the first call still looks.
-/

open Foundation

namespace WeatherStation

/-! ## Globals and files -/

/-- The global {lit}`point`. -/
structure BmpPoint where
  x : Nat
  y : Nat
  r : UInt8
  g : UInt8
  b : UInt8
deriving DecidableEq

/-- The globals {lit}`bmp`, by the bytes of the structure, and {lit}`point`. -/
structure BmpGlobals where
  bmp : Memory
  point : BmpPoint

/-- {lit}`sizeof(BMP_HEAD)` -/
def bmpHeadSize : Nat := 70

namespace BmpHead

/-- A 16-bit member of the header. -/
def word (bmp : Memory) (off : Nat) : Nat :=
  (bmp off).toNat + 256 * (bmp (off + 1)).toNat

def pic_data_address_l (bmp : Memory) : Nat := word bmp 10

def pic_data_address_h (bmp : Memory) : Nat := word bmp 12

def pic_w_l (bmp : Memory) : Nat := word bmp 18

def pic_h_l (bmp : Memory) : Nat := word bmp 22

/-- {lit}`bmp.pic_head` holds the letters of a bitmap file. -/
def isBmp (bmp : Memory) : Bool :=
  bmp 0 = 66 && bmp 1 = 77

/-- The file position after the seek: a negative offset leaves it unchanged. -/
def seek (bmp : Memory) (pos : Nat) : Nat :=
  let offset := 65536 * pic_data_address_h bmp + pic_data_address_l bmp
  if offset < 2147483648 then offset else pos

end BmpHead

/-- {lit}`RGB888ToRGB565` -/
def RGB888ToRGB565 (r g b : UInt8) : UInt16 :=
  (r &&& 0xF8).toUInt16 <<< 8 ||| (g &&& 0xFC).toUInt16 <<< 3 ||| (b &&& 0xF8).toUInt16 >>> 3

/-- The window that {lit}`Show_BMP` addresses, in 16-bit arithmetic. -/
def bmpWindow (point_x point_y w h : Nat) : Window where
  x1 := point_x % 65536
  y1 := point_y % 65536
  x2 := (point_x + w + 65535) % 65536
  y2 := (point_y + h + 65535) % 65536

/-- What a call of {lit}`Show_BMP` is given: its position, the content of its file
if it can be opened, the result of the buffer allocation, and what the block holds when it
is allocated. -/
structure BmpCall where
  point_x : Nat
  point_y : Nat
  file : Option (List UInt8)
  mallocOk : Bool
  heap : Memory

/-- The bytes that the call reads into the header. -/
def BmpCall.header (c : BmpCall) : List UInt8 :=
  readFile (c.file.getD []) 0 bmpHeadSize

/-- What a call does that can be seen outside of it. -/
inductive BmpEffect where
  | addressSet (w : Window)
  | malloc (n : Nat)
  | readRow (n capacity : Nat)
  | halfWord (c : UInt16)
  | free
deriving DecidableEq

/-! ## The statements -/

/-- The statements of {lit}`Show_BMP`; the initialisation and the increments of the
loop variables belong to the statement before them. -/
inductive Pc where
  | openFile
  | readHeader
  | checkMagic
  | seek
  | addressSet
  | malloc
  | rowTest
  | readRow
  | colTest
  | loadR
  | loadG
  | loadB
  | clipTest
  | storeX
  | storeY
  | storeR
  | storeG
  | storeB
  | pack
  | write
  | free
  | close
  | done
deriving DecidableEq

/-- The locals of a call, its next statement and its effects so far. -/
structure BmpLocals where
  pc : Pc
  pos : Nat
  capacity : Nat
  buffer : Memory
  ty : Nat
  tx : Nat
  r_data : UInt8
  g_data : UInt8
  b_data : UInt8
  color : UInt16
  effects : List BmpEffect

/-- A call before its first statement. -/
def BmpCall.start (_c : BmpCall) : BmpLocals where
  pc := .openFile
  pos := 0
  capacity := 0
  buffer _ := 0
  ty := 0
  tx := 0
  r_data := 0
  g_data := 0
  b_data := 0
  color := 0
  effects := []

/-- The globals together with the locals of one call. -/
structure BmpState where
  globals : BmpGlobals
  locals : BmpLocals

/-- Execute one statement. -/
def BmpCall.step (c : BmpCall) : BmpState → BmpState
  | ⟨g, s⟩ =>
      match s.pc with
      | .openFile =>
          -- A failed open leads to the end of the function.
          ⟨g, { s with pc := if c.file.isSome then .readHeader else .done }⟩
      | .readHeader =>
          ⟨{ g with bmp := g.bmp.write 0 c.header },
            { s with pc := .checkMagic, pos := c.header.length }⟩
      | .checkMagic => ⟨g, { s with pc := if BmpHead.isBmp g.bmp then .seek else .close }⟩
      | .seek => ⟨g, { s with pc := .addressSet, pos := BmpHead.seek g.bmp s.pos }⟩
      | .addressSet =>
          let w := bmpWindow c.point_x c.point_y (BmpHead.pic_w_l g.bmp) (BmpHead.pic_h_l g.bmp)
          ⟨g, { s with pc := .malloc, effects := s.effects ++ [.addressSet w] }⟩
      | .malloc =>
          let n := BmpHead.pic_w_l g.bmp * 3
          ⟨g, { s with
            pc := .rowTest
            capacity := if c.mallocOk then n else 0
            buffer := c.heap
            effects := s.effects ++ [.malloc n]
            ty := 0 }⟩
      | .rowTest =>
          ⟨g, { s with pc := if s.ty < BmpHead.pic_h_l g.bmp then .readRow else .free }⟩
      | .readRow =>
          let n := BmpHead.pic_w_l g.bmp * 3
          let data := readFile (c.file.getD []) s.pos n
          ⟨g, { s with
            pc := .colTest
            pos := s.pos + data.length
            buffer := s.buffer.write 0 data
            effects := s.effects ++ [.readRow n s.capacity]
            tx := 0 }⟩
      | .colTest =>
          ⟨g,
            if s.tx < BmpHead.pic_w_l g.bmp then { s with pc := .loadR }
            else { s with pc := .rowTest, ty := s.ty + 1 }⟩
      | .loadR => ⟨g, { s with pc := .loadG, r_data := s.buffer (s.tx * 3 + 2) }⟩
      | .loadG => ⟨g, { s with pc := .loadB, g_data := s.buffer (s.tx * 3 + 1) }⟩
      | .loadB => ⟨g, { s with pc := .clipTest, b_data := s.buffer (s.tx * 3) }⟩
      | .clipTest =>
          ⟨g,
            if s.tx < 240 then { s with pc := .storeX }
            else { s with pc := .colTest, tx := s.tx + 1 }⟩
      | .storeX =>
          ⟨{ g with point := { g.point with x := s.tx % 65536 } }, { s with pc := .storeY }⟩
      | .storeY =>
          let y : Int := BmpHead.pic_h_l g.bmp - 1 - s.ty
          ⟨{ g with point := { g.point with y := (y % 65536).toNat } }, { s with pc := .storeR }⟩
      | .storeR => ⟨{ g with point := { g.point with r := s.r_data } }, { s with pc := .storeG }⟩
      | .storeG => ⟨{ g with point := { g.point with g := s.g_data } }, { s with pc := .storeB }⟩
      | .storeB => ⟨{ g with point := { g.point with b := s.b_data } }, { s with pc := .pack }⟩
      | .pack =>
          ⟨g, { s with pc := .write, color := RGB888ToRGB565 g.point.r g.point.g g.point.b }⟩
      | .write =>
          ⟨g, { s with
            pc := .colTest, tx := s.tx + 1, effects := s.effects ++ [.halfWord s.color] }⟩
      | .free => ⟨g, { s with pc := .close, effects := s.effects ++ [.free] }⟩
      | .close => ⟨g, { s with pc := .done }⟩
      | .done => ⟨g, s⟩

/-- Execute {lit}`n` statements. -/
def BmpCall.run (c : BmpCall) : Nat → BmpState → BmpState
  | 0, x => x
  | n + 1, x => c.run n (c.step x)

/-! ## What a call still reads -/

/-- Offsets of the header bytes that the call looks at. -/
def headerReads : List Nat :=
  [0, 1, 10, 11, 12, 13, 18, 19, 22, 23]

/-- Offsets of the header bytes that are read at or after a statement, before the
call writes them.  Until the header is read these are the bytes that the file is
too short to supply. -/
def BmpCall.liveHeader (c : BmpCall) : Pc → List Nat
  | .openFile => if c.file.isSome then headerReads.filter (c.header.length ≤ ·) else []
  | .readHeader => headerReads.filter (c.header.length ≤ ·)
  | .checkMagic => headerReads
  | .seek => [10, 11, 12, 13, 18, 19, 22, 23]
  | .free | .close | .done => []
  | _ => [18, 19, 22, 23]

/-- The colour components of {lit}`point` that are read at or after a statement,
before the call writes them, are the same. -/
def PointAgree : Pc → BmpPoint → BmpPoint → Prop
  | .storeG, p, p' => p.r = p'.r
  | .storeB, p, p' => p.r = p'.r ∧ p.g = p'.g
  | .pack, p, p' => p.r = p'.r ∧ p.g = p'.g ∧ p.b = p'.b
  | _, _, _ => True

/-- Two states of the globals agree on what a call at a statement still reads. -/
def BmpCall.Agree (c : BmpCall) (pc : Pc) (g g' : BmpGlobals) : Prop :=
  (∀ i ∈ c.liveHeader pc, g.bmp i = g'.bmp i) ∧ PointAgree pc g.point g'.point

namespace BmpCall

variable {c : BmpCall}

omit c in
theorem word_congr {bmp bmp' : Memory} (off : Nat) {l : List Nat}
    (h : ∀ i ∈ l, bmp i = bmp' i) (h₀ : off ∈ l) (h₁ : off + 1 ∈ l) :
    BmpHead.word bmp off = BmpHead.word bmp' off := by
  rw [BmpHead.word, BmpHead.word, h off h₀, h (off + 1) h₁]

omit c in
theorem isBmp_congr {bmp bmp' : Memory} (h : ∀ i ∈ [0, 1], bmp i = bmp' i) :
    BmpHead.isBmp bmp = BmpHead.isBmp bmp' := by
  rw [BmpHead.isBmp, BmpHead.isBmp, h 0 (by decide), h 1 (by decide)]

omit c in
theorem seek_congr {bmp bmp' : Memory} (h : ∀ i ∈ [10, 11, 12, 13], bmp i = bmp' i) (pos : Nat) :
    BmpHead.seek bmp pos = BmpHead.seek bmp' pos := by
  unfold BmpHead.seek BmpHead.pic_data_address_h BmpHead.pic_data_address_l
  rw [word_congr 10 h (by decide) (by decide),
    word_congr 12 h (by decide) (by decide)]

omit c in
theorem size_congr {bmp bmp' : Memory} (h : ∀ i ∈ [18, 19, 22, 23], bmp i = bmp' i) :
    BmpHead.pic_w_l bmp = BmpHead.pic_w_l bmp' ∧ BmpHead.pic_h_l bmp = BmpHead.pic_h_l bmp' :=
  ⟨word_congr 18 h (by decide) (by decide), word_congr 22 h (by decide) (by decide)⟩

/-- A statement does the same on two states of the globals that agree on what the
call still reads, and they agree on what it reads after the statement. -/
theorem step_agree {g g' : BmpGlobals} {s : BmpLocals} (h : c.Agree s.pc g g') :
    (c.step ⟨g, s⟩).locals = (c.step ⟨g', s⟩).locals ∧
      c.Agree (c.step ⟨g, s⟩).locals.pc (c.step ⟨g, s⟩).globals (c.step ⟨g', s⟩).globals := by
  rcases s with ⟨pc, pos, capacity, buffer, ty, tx, r, g₀, b, color, effects⟩
  rcases h with ⟨hhead, hpoint⟩
  cases pc with
  | openFile =>
      refine ⟨rfl, ?_⟩
      simp only [step, liveHeader] at hhead ⊢
      split_ifs at hhead ⊢
      · exact ⟨hhead, trivial⟩
      · exact ⟨fun i hi => absurd hi List.not_mem_nil, trivial⟩
  | readHeader =>
      refine ⟨rfl, fun i hi => ?_, trivial⟩
      by_cases hlen : i < c.header.length
      · exact (Memory.write_of_mem _ (by omega)).trans (Memory.write_of_mem _ (by omega)).symm
      · -- What the file does not supply was the same before.
        have hold : i ∈ c.liveHeader .readHeader :=
          List.mem_filter.mpr ⟨hi, by simpa using hlen⟩
        exact (Memory.write_of_not_mem _ (by omega)).trans
          ((hhead i hold).trans (Memory.write_of_not_mem _ (by omega)).symm)
  | checkMagic =>
      have hmagic : BmpHead.isBmp g.bmp = BmpHead.isBmp g'.bmp :=
        isBmp_congr fun i hi => hhead i (List.mem_append_left _ hi)
      refine ⟨by simp only [step, hmagic], ?_⟩
      simp only [step, hmagic]
      split_ifs
      · exact ⟨fun i hi => hhead i (List.mem_append_right [0, 1] hi), trivial⟩
      · exact ⟨fun i hi => absurd hi List.not_mem_nil, trivial⟩
  | seek =>
      have haddress : BmpHead.seek g.bmp pos = BmpHead.seek g'.bmp pos :=
        seek_congr (fun i hi => hhead i (List.mem_append_left _ hi)) pos
      refine ⟨by simp only [step, haddress], fun i hi => hhead i ?_, trivial⟩
      exact List.mem_append_right [10, 11, 12, 13] hi
  | addressSet =>
      rcases size_congr hhead with ⟨hw, hh⟩
      exact ⟨by simp only [step, hw, hh], hhead, trivial⟩
  | malloc => exact ⟨by simp only [step, (size_congr hhead).1], hhead, trivial⟩
  | rowTest =>
      refine ⟨by simp only [step, (size_congr hhead).2], ?_⟩
      simp only [step]
      split_ifs
      · exact ⟨hhead, trivial⟩
      · exact ⟨fun i hi => absurd hi List.not_mem_nil, trivial⟩
  | readRow => exact ⟨by simp only [step, (size_congr hhead).1], hhead, trivial⟩
  | colTest =>
      refine ⟨by simp only [step, (size_congr hhead).1], ?_⟩
      simp only [step]
      split_ifs <;> exact ⟨hhead, trivial⟩
  | clipTest =>
      refine ⟨rfl, ?_⟩
      simp only [step]
      split_ifs <;> exact ⟨hhead, trivial⟩
  | storeR => exact ⟨rfl, hhead, rfl⟩
  | storeG => exact ⟨rfl, hhead, hpoint, rfl⟩
  | storeB => exact ⟨rfl, hhead, hpoint.1, hpoint.2, rfl⟩
  | pack => exact ⟨by simp only [step, hpoint.1, hpoint.2.1, hpoint.2.2], hhead, trivial⟩
  | loadR => exact ⟨rfl, hhead, trivial⟩
  | loadG => exact ⟨rfl, hhead, trivial⟩
  | loadB => exact ⟨rfl, hhead, trivial⟩
  | storeX => exact ⟨rfl, hhead, trivial⟩
  | storeY => exact ⟨rfl, hhead, trivial⟩
  | write => exact ⟨rfl, hhead, trivial⟩
  | free => exact ⟨rfl, hhead, trivial⟩
  | close => exact ⟨rfl, hhead, trivial⟩
  | done => exact ⟨rfl, hhead, trivial⟩

/-- Calls that agree on what is still read stay in step. -/
theorem run_agree {g g' : BmpGlobals} {s : BmpLocals} (h : c.Agree s.pc g g') (n : Nat) :
    (c.run n ⟨g, s⟩).locals = (c.run n ⟨g', s⟩).locals := by
  induction n generalizing g g' s with
  | zero => rfl
  | succ n ih =>
      rcases step_agree h with ⟨hlocals, hagree⟩
      have hnext := ih hagree
      rw [run, run]
      refine hnext.trans ?_
      rw [hlocals]

theorem run_add (m n : Nat) (x : BmpState) : c.run (m + n) x = c.run n (c.run m x) := by
  induction m generalizing x with
  | zero => rw [Nat.zero_add]; rfl
  | succ m ih => rw [Nat.succ_add, run, ih, run]

/-! ## A complete call -/

/-- A call started on the globals {lit}`g` ends and leaves {lit}`g'`. -/
def Completes (c : BmpCall) (g g' : BmpGlobals) : Prop :=
  ∃ n, (c.run n ⟨g, c.start⟩).globals = g' ∧ (c.run n ⟨g, c.start⟩).locals.pc = .done

/-- The header that a call leaves: that of its file, as far as the file reaches. -/
def headerAfter (c : BmpCall) (bmp : Memory) : Memory :=
  bmp.write 0 c.header

theorem header_of_none (h : c.file = none) : c.header = [] := by
  simp [header, h, readFile]

/-- The header along a call: unchanged up to its read, that of the file after it. -/
def HeaderInv (c : BmpCall) (bmp : Memory) (x : BmpState) : Prop :=
  x.globals.bmp =
    if x.locals.pc = .openFile ∨ x.locals.pc = .readHeader then bmp else c.headerAfter bmp

theorem headerInv_step {bmp : Memory} {x : BmpState} (h : c.HeaderInv bmp x) :
    c.HeaderInv bmp (c.step x) := by
  rcases x with ⟨g, pc, pos, capacity, buffer, ty, tx, r, g₀, b, color, effects⟩
  cases pc with
  | openFile =>
      cases hfile : c.file with
      | none => simpa [HeaderInv, step, hfile, headerAfter, header_of_none hfile] using h
      | some file => simpa [HeaderInv, step, hfile] using h
  | readHeader =>
      have hold : g.bmp = bmp := by simpa [HeaderInv] using h
      simp [HeaderInv, step, headerAfter, hold]
  | checkMagic => cases hbmp : BmpHead.isBmp g.bmp <;> simpa [HeaderInv, step, hbmp] using h
  | rowTest =>
      by_cases hrow : ty < BmpHead.pic_h_l g.bmp <;> simpa [HeaderInv, step, hrow] using h
  | colTest =>
      by_cases hcol : tx < BmpHead.pic_w_l g.bmp <;> simpa [HeaderInv, step, hcol] using h
  | clipTest => by_cases hclip : tx < 240 <;> simpa [HeaderInv, step, hclip] using h
  | _ => simpa [HeaderInv, step] using h

theorem headerInv_run {bmp : Memory} {x : BmpState} (h : c.HeaderInv bmp x) (n : Nat) :
    c.HeaderInv bmp (c.run n x) := by
  induction n generalizing x with
  | zero => exact h
  | succ n ih => exact ih (headerInv_step h)

/-- A complete call leaves the header of its own file. -/
theorem bmp_completed {g g' : BmpGlobals} (h : c.Completes g g') :
    g'.bmp = c.headerAfter g.bmp := by
  rcases h with ⟨n, rfl, hdone⟩
  have hinv : c.HeaderInv g.bmp (c.run n ⟨g, c.start⟩) :=
    headerInv_run (by simp [HeaderInv, start]) n
  simpa [HeaderInv, hdone] using hinv

/-- Between the allocation and the release of the buffer. -/
def holdsBuffer : Pc → Bool
  | .openFile | .readHeader | .checkMagic | .seek | .addressSet | .malloc => false
  | .free | .close | .done => false
  | _ => true

/-- Along a call the buffer has the size of a row of the call's own picture, and
so has every read of pixel data. -/
structure RowInv (c : BmpCall) (bmp : Memory) (x : BmpState) : Prop where
  header : c.HeaderInv bmp x
  capacity : holdsBuffer x.locals.pc = true →
    x.locals.capacity = if c.mallocOk then BmpHead.pic_w_l (c.headerAfter bmp) * 3 else 0
  reads : ∀ n capacity, .readRow n capacity ∈ x.locals.effects →
    n = BmpHead.pic_w_l (c.headerAfter bmp) * 3 ∧ (c.mallocOk = true → n ≤ capacity)

theorem rowInv_step {bmp : Memory} {x : BmpState} (h : c.RowInv bmp x) :
    c.RowInv bmp (c.step x) := by
  refine ⟨headerInv_step h.header, ?_, ?_⟩
  · have hcap := h.capacity
    have hheader := h.header
    rcases x with ⟨g, pc, pos, capacity, buffer, ty, tx, r, g₀, b, color, effects⟩
    cases pc with
    | openFile => cases hfile : c.file <;> simp [step, hfile, holdsBuffer]
    | readHeader => simp [step, holdsBuffer]
    | checkMagic => cases hbmp : BmpHead.isBmp g.bmp <;> simp [step, hbmp, holdsBuffer]
    | malloc =>
        have hbmp : g.bmp = c.headerAfter bmp := by simpa [HeaderInv] using hheader
        simp [step, hbmp]
    | rowTest =>
        by_cases hrow : ty < BmpHead.pic_h_l g.bmp
        · simpa [step, hrow, holdsBuffer] using hcap
        · simp [step, hrow, holdsBuffer]
    | colTest =>
        by_cases hcol : tx < BmpHead.pic_w_l g.bmp <;>
          simpa [step, hcol, holdsBuffer] using hcap
    | clipTest => by_cases hclip : tx < 240 <;> simpa [step, hclip, holdsBuffer] using hcap
    | seek | addressSet | free | close | done => simp [step, holdsBuffer]
    | _ => simpa [step, holdsBuffer] using hcap
  · have hcap := h.capacity
    have hheader := h.header
    have hreads := h.reads
    rcases x with ⟨g, pc, pos, capacity, buffer, ty, tx, r, g₀, b, color, effects⟩
    cases pc with
    | readRow =>
        have hbmp : g.bmp = c.headerAfter bmp := by simpa [HeaderInv] using hheader
        intro n cap hmem
        simp only [step, List.mem_append, List.mem_singleton, BmpEffect.readRow.injEq] at hmem
        rcases hmem with hmem | ⟨rfl, rfl⟩
        · exact hreads n cap hmem
        · rw [hbmp]
          refine ⟨rfl, fun hok => ?_⟩
          have hfull : cap = BmpHead.pic_w_l (c.headerAfter bmp) * 3 := by
            simpa [hok, holdsBuffer] using hcap
          exact hfull.ge
    | colTest =>
        by_cases hcol : tx < BmpHead.pic_w_l g.bmp <;> simpa [step, hcol] using hreads
    | clipTest => by_cases hclip : tx < 240 <;> simpa [step, hclip] using hreads
    | _ => simpa [step] using hreads

theorem rowInv_run {bmp : Memory} {x : BmpState} (h : c.RowInv bmp x) (n : Nat) :
    c.RowInv bmp (c.run n x) := by
  induction n generalizing x with
  | zero => exact h
  | succ n ih => exact ih (rowInv_step h)

theorem rowInv_start (g : BmpGlobals) : c.RowInv g.bmp ⟨g, c.start⟩ where
  header := by simp [HeaderInv, start]
  capacity h := by simp [start, holdsBuffer] at h
  reads n cap h := by simp [start] at h

/-! ## What the block of the buffer held before -/

/-- The call when its block holds something else. -/
def withHeap (c : BmpCall) (heap' : Memory) : BmpCall :=
  { c with heap := heap' }

/-- The buffer is not allocated yet. -/
def beforeMalloc : Pc → Bool
  | .openFile | .readHeader | .checkMagic | .seek | .addressSet | .malloc => true
  | _ => false

/-- The call opens its file and finds the letters of a bitmap. -/
def Recognised (c : BmpCall) (bmp : Memory) : Prop :=
  c.file.isSome = true ∧ BmpHead.isBmp (c.headerAfter bmp) = true

/-- Where the rows begin in the file. -/
def rowsStart (c : BmpCall) (bmp : Memory) : Nat :=
  BmpHead.seek (c.headerAfter bmp) c.header.length

/-- The file supplies the first row, if there is one, completely. -/
def FirstRow (c : BmpCall) (bmp : Memory) : Prop :=
  c.Recognised bmp → 0 < BmpHead.pic_h_l (c.headerAfter bmp) →
    c.rowsStart bmp + BmpHead.pic_w_l (c.headerAfter bmp) * 3 ≤ (c.file.getD []).length

/-- What holds at a statement: up to the first read the file is at the start of the rows, and
the pixels that are loaded lie in a row. -/
def Located (c : BmpCall) (bmp : Memory) (s : BmpLocals) : Prop :=
  match s.pc with
  | .readHeader => c.file.isSome = true
  | .checkMagic => c.file.isSome = true ∧ s.pos = c.header.length
  | .seek => c.Recognised bmp ∧ s.pos = c.header.length
  | .addressSet => c.Recognised bmp ∧ s.pos = c.rowsStart bmp
  | .malloc => c.Recognised bmp ∧ s.pos = c.rowsStart bmp
  | .rowTest => s.ty = 0 → c.Recognised bmp ∧ s.pos = c.rowsStart bmp
  | .readRow =>
      (s.ty = 0 → c.Recognised bmp ∧ s.pos = c.rowsStart bmp) ∧
        s.ty < BmpHead.pic_h_l (c.headerAfter bmp)
  | .loadR => s.tx < BmpHead.pic_w_l (c.headerAfter bmp)
  | .loadG => s.tx < BmpHead.pic_w_l (c.headerAfter bmp)
  | .loadB => s.tx < BmpHead.pic_w_l (c.headerAfter bmp)
  | _ => True

theorem located_step {bmp : Memory} {x : BmpState} (hheader : c.HeaderInv bmp x)
    (h : c.Located bmp x.locals) : c.Located bmp (c.step x).locals := by
  rcases x with ⟨g, pc, pos, capacity, buffer, ty, tx, r, g₀, b, color, effects⟩
  cases pc with
  | openFile => cases hfile : c.file <;> simp [step, Located, hfile]
  | readHeader => exact ⟨h, rfl⟩
  | checkMagic =>
      have hbmp : g.bmp = c.headerAfter bmp := by simpa [HeaderInv] using hheader
      cases hmagic : BmpHead.isBmp g.bmp with
      | true =>
          simp only [step, hmagic, if_pos]
          exact ⟨⟨h.1, hbmp ▸ hmagic⟩, h.2⟩
      | false => simp [step, hmagic, Located]
  | seek =>
      have hbmp : g.bmp = c.headerAfter bmp := by simpa [HeaderInv] using hheader
      refine ⟨h.1, ?_⟩
      simp only [step, hbmp, rowsStart]
      rw [show pos = c.header.length from h.2]
  | addressSet => exact h
  | malloc => exact fun _ => h
  | rowTest =>
      have hbmp : g.bmp = c.headerAfter bmp := by simpa [HeaderInv] using hheader
      by_cases hrow : ty < BmpHead.pic_h_l g.bmp
      · simp only [step, hrow, if_pos]
        exact ⟨h, hbmp ▸ hrow⟩
      · simp [step, hrow, Located]
  | colTest =>
      have hbmp : g.bmp = c.headerAfter bmp := by simpa [HeaderInv] using hheader
      by_cases hcol : tx < BmpHead.pic_w_l g.bmp
      · rw [hbmp] at hcol
        simp [step, hbmp, hcol, Located]
      · simp [step, hcol, Located]
  | clipTest => by_cases hclip : tx < 240 <;> simp [step, hclip, Located]
  | loadR => exact h
  | loadG => exact h
  | _ => trivial

/-- The buffer holds bytes of the file. -/
def rowRead (s : BmpLocals) : Prop :=
  match s.pc with
  | .rowTest => 0 < s.ty
  | .readRow => 0 < s.ty
  | pc => holdsBuffer pc = true

/-- Two runs of a call whose blocks held different things: the globals and all locals but the
buffer are the same, and from the first row on the buffers have the same row. -/
structure Twin (c : BmpCall) (bmp : Memory) (x x' : BmpState) : Prop where
  header : c.HeaderInv bmp x
  located : c.Located bmp x.locals
  globals : x'.globals = x.globals
  locals : x'.locals = { x.locals with buffer := x'.locals.buffer }
  buffer : rowRead x.locals → ∀ i < BmpHead.pic_w_l (c.headerAfter bmp) * 3,
    x'.locals.buffer i = x.locals.buffer i

omit c in
/-- A row that is read over two buffers which agree behind it makes them agree. -/
theorem write_row_agree {data : List UInt8} {n : Nat} {buffer buffer' : Memory}
    (h : ∀ i < n, data.length ≤ i → buffer' i = buffer i) :
    ∀ i < n, Memory.write buffer' 0 data i = Memory.write buffer 0 data i := by
  intro i hi
  by_cases hdata : i < data.length
  · rw [Memory.write_of_mem _ (by omega), Memory.write_of_mem _ (by omega)]
  · rw [Memory.write_of_not_mem _ (by omega), Memory.write_of_not_mem _ (by omega)]
    exact h i hi (by omega)

omit c in
/-- The bytes of a pixel lie in its row. -/
theorem pixel_agree {w tx k : Nat} {buffer buffer' : Memory}
    (h : ∀ i < w * 3, buffer' i = buffer i) (htx : tx < w) (hk : k < 3) :
    buffer' (tx * 3 + k) = buffer (tx * 3 + k) :=
  h _ (by omega)

theorem twin_step {bmp heap' : Memory} (hfirst : c.FirstRow bmp) {x x' : BmpState}
    (h : c.Twin bmp x x') : c.Twin bmp (c.step x) ((c.withHeap heap').step x') := by
  rcases x with ⟨g, pc, pos, capacity, buffer, ty, tx, r, g₀, b, color, effects⟩
  rcases x' with ⟨g', pc', pos', capacity', buffer', ty', tx', r', g₀', b', color', effects'⟩
  rcases h with ⟨hheader, hlocated, hglobals, hlocals, hbuffer⟩
  cases hglobals
  cases hlocals
  have hheader' := headerInv_step hheader
  have hlocated' := located_step hheader hlocated
  cases pc with
  | openFile =>
      refine ⟨hheader', hlocated', rfl, rfl, ?_⟩
      cases hfile : c.file <;> simp [step, hfile, rowRead, holdsBuffer]
  | readHeader => exact ⟨hheader', hlocated', rfl, rfl, fun h => by contradiction⟩
  | checkMagic =>
      refine ⟨hheader', hlocated', rfl, rfl, ?_⟩
      cases hmagic : BmpHead.isBmp g.bmp <;> simp [step, hmagic, rowRead, holdsBuffer]
  | seek => exact ⟨hheader', hlocated', rfl, rfl, fun h => by contradiction⟩
  | addressSet => exact ⟨hheader', hlocated', rfl, rfl, fun h => by contradiction⟩
  | malloc => exact ⟨hheader', hlocated', rfl, rfl, fun h => absurd h (lt_irrefl 0)⟩
  | rowTest =>
      refine ⟨hheader', hlocated', rfl, rfl, ?_⟩
      by_cases hrow : ty < BmpHead.pic_h_l g.bmp
      · simpa [step, hrow, rowRead] using hbuffer
      · simp [step, hrow, rowRead, holdsBuffer]
  | readRow =>
      have hbmp : g.bmp = c.headerAfter bmp := by simpa [HeaderInv] using hheader
      refine ⟨hheader', hlocated', rfl, rfl, fun _ => ?_⟩
      simp only [step, withHeap, hbmp]
      refine write_row_agree fun i hi hlate => ?_
      refine hbuffer (Nat.pos_of_ne_zero fun hty => ?_) i hi
      -- The first row is complete.
      rcases hlocated with ⟨hstart, hrow⟩
      rcases hstart hty with ⟨hshown, hpos⟩
      have hfull := hfirst hshown (Nat.zero_lt_of_lt hrow)
      rw [show pos = c.rowsStart bmp from hpos, readFile, List.length_take,
        List.length_drop] at hlate
      omega
  | colTest =>
      refine ⟨hheader', hlocated', rfl, ?_, ?_⟩
      · by_cases hcol : tx < BmpHead.pic_w_l g.bmp <;> simp [step, hcol]
      · intro _
        by_cases hcol : tx < BmpHead.pic_w_l g.bmp
        · simpa [step, hcol] using hbuffer rfl
        · simpa [step, hcol] using hbuffer rfl
  | loadR =>
      have hrow : buffer' (tx * 3 + 2) = buffer (tx * 3 + 2) :=
        pixel_agree (hbuffer rfl) hlocated (by decide)
      exact ⟨hheader', hlocated', rfl, by simp only [step, hrow], fun _ => hbuffer rfl⟩
  | loadG =>
      have hrow : buffer' (tx * 3 + 1) = buffer (tx * 3 + 1) :=
        pixel_agree (hbuffer rfl) hlocated (by decide)
      exact ⟨hheader', hlocated', rfl, by simp only [step, hrow], fun _ => hbuffer rfl⟩
  | loadB =>
      have hrow : buffer' (tx * 3) = buffer (tx * 3) :=
        pixel_agree (hbuffer rfl) hlocated (Nat.zero_lt_succ 2)
      exact ⟨hheader', hlocated', rfl, by simp only [step, hrow], fun _ => hbuffer rfl⟩
  | clipTest =>
      refine ⟨hheader', hlocated', rfl, ?_, ?_⟩
      · by_cases hclip : tx < 240 <;> simp [step, hclip]
      · intro _
        by_cases hclip : tx < 240
        · simpa [step, hclip] using hbuffer rfl
        · simpa [step, hclip] using hbuffer rfl
  | free => exact ⟨hheader', hlocated', rfl, rfl, fun h => by contradiction⟩
  | close => exact ⟨hheader', hlocated', rfl, rfl, fun h => by contradiction⟩
  | done => exact ⟨hheader', hlocated', rfl, rfl, fun h => by contradiction⟩
  | _ => exact ⟨hheader', hlocated', rfl, rfl, fun _ => hbuffer rfl⟩

theorem twin_run {bmp heap' : Memory} (hfirst : c.FirstRow bmp) {x x' : BmpState}
    (h : c.Twin bmp x x') (n : Nat) : c.Twin bmp (c.run n x) ((c.withHeap heap').run n x') := by
  induction n generalizing x x' with
  | zero => exact h
  | succ n ih => exact ih (twin_step hfirst h)

theorem located_run {bmp : Memory} {x : BmpState} (hheader : c.HeaderInv bmp x)
    (h : c.Located bmp x.locals) (n : Nat) : c.Located bmp (c.run n x).locals := by
  induction n generalizing x with
  | zero => exact h
  | succ n ih => exact ih (headerInv_step hheader) (located_step hheader h)

/-- Once the buffer is allocated, what its block held before makes no difference. -/
theorem step_withHeap (heap' : Memory) {x : BmpState} (h : beforeMalloc x.locals.pc = false) :
    (c.withHeap heap').step x = c.step x ∧ beforeMalloc (c.step x).locals.pc = false := by
  rcases x with ⟨g, pc, pos, capacity, buffer, ty, tx, r, g₀, b, color, effects⟩
  cases pc with
  | openFile => contradiction
  | readHeader => contradiction
  | checkMagic => contradiction
  | seek => contradiction
  | addressSet => contradiction
  | malloc => contradiction
  | rowTest =>
      by_cases hrow : ty < BmpHead.pic_h_l g.bmp <;>
        exact ⟨rfl, by simp [step, hrow, beforeMalloc]⟩
  | colTest =>
      by_cases hcol : tx < BmpHead.pic_w_l g.bmp <;>
        exact ⟨rfl, by simp [step, hcol, beforeMalloc]⟩
  | clipTest =>
      by_cases hclip : tx < 240 <;> exact ⟨rfl, by simp [step, hclip, beforeMalloc]⟩
  | _ => exact ⟨rfl, rfl⟩

theorem run_withHeap (heap' : Memory) {x : BmpState} (h : beforeMalloc x.locals.pc = false)
    (n : Nat) : (c.withHeap heap').run n x = c.run n x := by
  induction n generalizing x with
  | zero => rfl
  | succ n ih =>
      obtain ⟨hstep, hafter⟩ := step_withHeap heap' h
      rw [run, run, hstep]
      exact ih hafter

/-- With the first row in the file, a call goes on with the same effects whatever its block
held before. -/
theorem effects_withHeap {g : BmpGlobals} (k : Nat) (heap' : Memory)
    (hfirst : beforeMalloc (c.run k ⟨g, c.start⟩).locals.pc = true → c.FirstRow g.bmp) (n : Nat) :
    ((c.withHeap heap').run n (c.run k ⟨g, c.start⟩)).locals.effects =
      (c.run n (c.run k ⟨g, c.start⟩)).locals.effects := by
  cases hbefore : beforeMalloc (c.run k ⟨g, c.start⟩).locals.pc with
  | false => rw [run_withHeap heap' hbefore]
  | true =>
      have hstart : c.HeaderInv g.bmp ⟨g, c.start⟩ := (rowInv_start g).header
      have htwin : c.Twin g.bmp (c.run k ⟨g, c.start⟩) (c.run k ⟨g, c.start⟩) :=
        ⟨headerInv_run hstart k, located_run hstart trivial k, rfl, rfl, fun _ _ _ => rfl⟩
      have hrun : c.Twin g.bmp _ ((c.withHeap heap').run n (c.run k ⟨g, c.start⟩)) :=
        twin_run (hfirst hbefore) htwin n
      rw [hrun.locals]

/-! ## Interruption by a second call -/

/-- A call that is interrupted after {lit}`k` statements by a complete second call makes the
same allocations, reads and sends as alone, whatever the second call leaves in the block of
its buffer, and every read of pixel data has the row length of its own header and fits its
buffer: when the second header has the bytes that the first call still looks at, the
interruption does not fall between the colour assignments to {lit}`point` and their use, and
the file has its first row if the buffer is allocated after the interruption. -/
theorem showBmp_preempted (c c₂ : BmpCall) (g₀ : BmpGlobals) (heap' : Memory) (k : Nat)
    {g' : BmpGlobals} (hsecond : c₂.Completes (c.run k ⟨g₀, c.start⟩).globals g')
    (hheader : ∀ i ∈ c.liveHeader (c.run k ⟨g₀, c.start⟩).locals.pc,
      c₂.headerAfter (c.run k ⟨g₀, c.start⟩).globals.bmp i =
        (c.run k ⟨g₀, c.start⟩).globals.bmp i)
    (hpoint : (c.run k ⟨g₀, c.start⟩).locals.pc ∉ [Pc.storeG, .storeB, .pack])
    (hfirst : beforeMalloc (c.run k ⟨g₀, c.start⟩).locals.pc = true → c.FirstRow g₀.bmp)
    (n : Nat) :
    ((c.withHeap heap').run n ⟨g', (c.run k ⟨g₀, c.start⟩).locals⟩).locals.effects =
        (c.run (k + n) ⟨g₀, c.start⟩).locals.effects ∧
      ∀ m capacity,
        .readRow m capacity ∈
            ((c.withHeap heap').run n ⟨g', (c.run k ⟨g₀, c.start⟩).locals⟩).locals.effects →
          m = BmpHead.pic_w_l (c.headerAfter g₀.bmp) * 3 ∧ (c.mallocOk = true → m ≤ capacity) := by
  have hagree : (c.withHeap heap').Agree (c.run k ⟨g₀, c.start⟩).locals.pc
      (c.run k ⟨g₀, c.start⟩).globals g' := by
    refine ⟨fun i hi => ?_, ?_⟩
    · rw [bmp_completed hsecond]
      exact (hheader i hi).symm
    · generalize (c.run k ⟨g₀, c.start⟩).locals.pc = pc at hpoint
      -- Only the three excluded statements need anything of `point`.
      cases pc <;> trivial
  have heffects :
      ((c.withHeap heap').run n ⟨g', (c.run k ⟨g₀, c.start⟩).locals⟩).locals.effects =
        (c.run (k + n) ⟨g₀, c.start⟩).locals.effects := by
    rw [run_add, ← effects_withHeap k heap' hfirst n, run_agree hagree n]
  rw [heffects]
  exact ⟨rfl, (rowInv_run (rowInv_start g₀) (k + n)).reads⟩

/-- The header of a bitmap of the given size with its data at offset 54. -/
def smallBmp (w h : UInt8) (data : List UInt8) : List UInt8 :=
  [66, 77, 0, 0, 0, 0, 0, 0, 0, 0, 54, 0, 0, 0, 40, 0, 0, 0, w, 0, 0, 0, h, 0, 0, 0] ++
    List.replicate 28 0 ++ data

/-- A call that shows a bitmap of one row. -/
def rowCall (w : UInt8) (data : List UInt8) : BmpCall where
  point_x := 11
  point_y := 24
  file := some (smallBmp w 1 data)
  mallocOk := true
  heap _ := 0

/-- Globals before the first call. -/
def zeroBmpGlobals : BmpGlobals :=
  ⟨fun _ => 0, ⟨0, 0, 0, 0, 0⟩⟩

/-- Interrupted before its allocation by a call for a picture of the same size, which leaves
bytes of its own in the block, the first call goes on with the same effects as alone. -/
theorem showBmp_preempted_sample :
    ∃ g', (rowCall 1 [9, 9, 9]).Completes
        ((rowCall 1 [1, 2, 3]).run 5 ⟨zeroBmpGlobals, (rowCall 1 [1, 2, 3]).start⟩).globals g' ∧
      (((rowCall 1 [1, 2, 3]).withHeap fun _ => 9).run 20
        ⟨g', ((rowCall 1 [1, 2, 3]).run 5
          ⟨zeroBmpGlobals, (rowCall 1 [1, 2, 3]).start⟩).locals⟩).locals.effects =
        ((rowCall 1 [1, 2, 3]).run 25
          ⟨zeroBmpGlobals, (rowCall 1 [1, 2, 3]).start⟩).locals.effects := by
  refine ⟨_, ⟨40, rfl, by decide +kernel⟩, ?_⟩
  exact (showBmp_preempted (rowCall 1 [1, 2, 3]) (rowCall 1 [9, 9, 9]) zeroBmpGlobals
    (fun _ => 9) 5 ⟨40, rfl, by decide +kernel⟩ (by decide +kernel) (by decide +kernel)
    (fun _ _ _ => by decide +kernel) 20).1

/-- Interrupted after its allocation by a call for a wider picture, it reads six bytes into its
buffer of three. -/
theorem showBmp_not_always_alone :
    ¬∀ (c c₂ : BmpCall) (g₀ g' : BmpGlobals) (k n : Nat),
      c₂.Completes (c.run k ⟨g₀, c.start⟩).globals g' →
        (c.run n ⟨g', (c.run k ⟨g₀, c.start⟩).locals⟩).locals.effects =
          (c.run (k + n) ⟨g₀, c.start⟩).locals.effects := by
  intro h
  have hsecond : (rowCall 2 [9, 9, 9, 9, 9, 9]).Completes
      ((rowCall 1 [1, 2, 3]).run 6 ⟨zeroBmpGlobals, (rowCall 1 [1, 2, 3]).start⟩).globals _ :=
    ⟨40, rfl, by decide +kernel⟩
  have heffects := h _ _ _ _ 6 2 hsecond
  exact absurd heffects (by decide +kernel)

end BmpCall

end WeatherStation
