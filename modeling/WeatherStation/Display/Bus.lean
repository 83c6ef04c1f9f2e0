import Mathlib.Logic.Function.Basic
import WeatherStation.Foundation.Canvas

/-!
# The display bus

The LCD controller receives the level of the D/C pin and bytes over SPI.  A
drawing call addresses a window and then sends half-words, which the controller
stores row by row in the addressed window.  This module has both sides: the
messages of the driver functions and the receiving controller.

Main results:

- Theorem {lit}`receiveAll_lcdAddressSet`: addressing a window leaves the controller
  at its first pixel, whatever state it was in.
- Theorem {lit}`receiveAll_draw`: a valid drawing call, received without interruption,
  has every half-word stored in its own window and no data byte taken as a
  command, and paints its window onto the panel.
-/

open Foundation

namespace WeatherStation

/-! ## Windows -/

/-- {lit}`LCD_W` -/
def LCD_W : Nat := 240

/-- {lit}`LCD_H` -/
def LCD_H : Nat := 240

/-- The pixels with column {lit}`x1` to {lit}`x2` and row {lit}`y1` to {lit}`y2`. -/
structure Window where
  x1 : Nat
  y1 : Nat
  x2 : Nat
  y2 : Nat
deriving DecidableEq

/-- What the panel shows, by column and row. -/
abbrev Panel := Nat × Nat → UInt16

namespace Window

/-- The window is not empty and lies on the panel. -/
def Valid (w : Window) : Prop :=
  w.x1 ≤ w.x2 ∧ w.y1 ≤ w.y2 ∧ w.x2 < LCD_W ∧ w.y2 < LCD_H

instance (w : Window) : Decidable w.Valid :=
  inferInstanceAs (Decidable (_ ∧ _ ∧ _ ∧ _))

/-- The pixel belongs to the window. -/
def Contains (w : Window) (p : Nat × Nat) : Prop :=
  w.x1 ≤ p.1 ∧ p.1 ≤ w.x2 ∧ w.y1 ≤ p.2 ∧ p.2 ≤ w.y2

instance (w : Window) (p : Nat × Nat) : Decidable (w.Contains p) :=
  inferInstanceAs (Decidable (_ ∧ _ ∧ _ ∧ _))

def width (w : Window) : Nat := w.x2 + 1 - w.x1

def height (w : Window) : Nat := w.y2 + 1 - w.y1

/-- Number of pixels of the window. -/
def area (w : Window) : Nat := w.width * w.height

/-- The {lit}`k`-th pixel in the order in which the window is filled. -/
def position (w : Window) (k : Nat) : Nat × Nat :=
  (w.x1 + k % w.width, w.y1 + k / w.width)

/-- The place of a pixel in that order. -/
def index (w : Window) (p : Nat × Nat) : Nat :=
  (p.1 - w.x1) + w.width * (p.2 - w.y1)

/-- The picture that half-words sent to the window give. -/
def layer (w : Window) (pixels : List UInt16) : Layer (Nat × Nat) UInt16 :=
  fun p => if w.Contains p then pixels[w.index p]? else none

theorem width_pos {w : Window} (h : w.Valid) : 0 < w.width := by
  unfold width
  have := h.1
  omega

theorem index_position (w : Window) (k : Nat) : w.index (w.position k) = k := by
  simp only [index, position, Nat.add_sub_cancel_left]
  exact Nat.mod_add_div k w.width

theorem position_index {w : Window} (h : w.Valid) {p : Nat × Nat} (hp : w.Contains p) :
    w.position (w.index p) = p := by
  rcases hp with ⟨hx1, hx2, hy1, hy2⟩
  have hlt : p.1 - w.x1 < w.width := by unfold width; omega
  have hmod : ((p.1 - w.x1) + w.width * (p.2 - w.y1)) % w.width = p.1 - w.x1 := by
    rw [Nat.add_mul_mod_self_left, Nat.mod_eq_of_lt hlt]
  have hdiv : ((p.1 - w.x1) + w.width * (p.2 - w.y1)) / w.width = p.2 - w.y1 := by
    rw [Nat.add_mul_div_left _ _ (width_pos h), Nat.div_eq_of_lt hlt, Nat.zero_add]
  refine Prod.ext ?_ ?_
  · simp only [position, index, hmod]
    omega
  · simp only [position, index, hdiv]
    omega

theorem contains_position {w : Window} (h : w.Valid) {k : Nat} (hk : k < w.area) :
    w.Contains (w.position k) := by
  have hmod := Nat.mod_lt k (width_pos h)
  have hdiv : k / w.width < w.height := Nat.div_lt_of_lt_mul hk
  have hwidth : w.width = w.x2 + 1 - w.x1 := rfl
  have hheight : w.height = w.y2 + 1 - w.y1 := rfl
  rcases h with ⟨hx, hy, -, -⟩
  simp only [Contains, position]
  generalize k / w.width = q at hdiv
  omega

theorem index_lt_area {w : Window} {p : Nat × Nat} (hp : w.Contains p) : w.index p < w.area := by
  rcases hp with ⟨hx1, hx2, hy1, hy2⟩
  have hx : p.1 - w.x1 < w.width := by unfold width; omega
  have hy : p.2 - w.y1 + 1 ≤ w.height := by unfold height; omega
  calc w.index p < w.width + w.width * (p.2 - w.y1) := Nat.add_lt_add_right hx _
    _ = w.width * (p.2 - w.y1 + 1) := by rw [Nat.mul_succ, Nat.add_comm]
    _ ≤ w.area := Nat.mul_le_mul_left _ hy

/-- One more half-word changes one more pixel. -/
theorem paint_layer_concat {w : Window} (h : w.Valid) (panel : Panel) {pixels : List UInt16}
    (hk : pixels.length < w.area) (c : UInt16) :
    Canvas.paint panel (w.layer (pixels ++ [c])) =
      Function.update (Canvas.paint panel (w.layer pixels)) (w.position pixels.length) c := by
  ext p : 1
  by_cases hp : w.Contains p
  · rw [Function.update_apply]
    simp only [Canvas.paint, layer, if_pos hp]
    split_ifs with heq
    · rw [heq, index_position]
      simp
    · have hne : w.index p ≠ pixels.length := fun hidx => heq (hidx ▸ (position_index h hp).symm)
      rcases Nat.lt_or_gt_of_ne hne with hlt | hgt
      · rw [List.getElem?_append_left hlt]
      · rw [List.getElem?_eq_none (by simp; omega), List.getElem?_eq_none (by omega)]
  · have hne : p ≠ w.position pixels.length := fun heq => hp (heq ▸ contains_position h hk)
    rw [Function.update_of_ne hne]
    simp only [Canvas.paint, layer, if_neg hp]

/-- A full window covers exactly its pixels. -/
theorem isSome_layer {w : Window} {pixels : List UInt16} (hfull : w.area ≤ pixels.length)
    {p : Nat × Nat} : (w.layer pixels p).isSome ↔ w.Contains p := by
  unfold layer
  split_ifs with hp
  · simpa [hp] using Nat.lt_of_lt_of_le (index_lt_area hp) hfull
  · simp [hp]

end Window

/-! ## Messages of the driver -/

/-- One message to the controller.  The kind of a transfer says what the driver
means by it; the controller only sees the pin and the bytes. -/
inductive BusEvent where
  /-- {lit}`rt_pin_write(LCD_DC_PIN, level)` -/
  | pin (high : Bool)
  /-- A command byte. -/
  | command (b : UInt8)
  /-- A parameter of a command. -/
  | data (b : UInt8)
  /-- Half-words of a call that opened the window {lit}`w`, if it opened one. -/
  | pixels (w : Option Window) (cs : List UInt16)
deriving DecidableEq

/-- A half-word is sent with its high byte first. -/
def halfWordBytes (c : UInt16) : List UInt8 :=
  [UInt8.ofNat (c.toNat / 256), c.toUInt8]

/-- Shifting the half-word gives its high byte. -/
theorem toUInt8_shiftRight_eight (c : UInt16) :
    (c >>> 8).toUInt8 = UInt8.ofNat (c.toNat / 256) := by
  refine UInt8.toNat_inj.mp ?_
  rw [UInt16.toNat_toUInt8, UInt16.toNat_shiftRight, UInt8.toNat_ofNat', Nat.shiftRight_eq_div_pow]
  rfl

/-- The half-word of two received bytes. -/
def halfWord (high low : UInt8) : UInt16 :=
  UInt16.ofNat (256 * high.toNat + low.toNat)

theorem halfWord_halfWordBytes (c : UInt16) :
    halfWord (UInt8.ofNat (c.toNat / 256)) c.toUInt8 = c := by
  have hc := c.toNat_lt
  refine UInt16.toNat_inj.mp ?_
  simp only [halfWord, UInt16.toNat_ofNat', UInt8.toNat_ofNat', UInt16.toNat_toUInt8]
  omega

/-- The bytes of a message. -/
def BusEvent.bytes : BusEvent → List UInt8
  | .pin _ => []
  | .command b => [b]
  | .data b => [b]
  | .pixels _ cs => cs.flatMap halfWordBytes

/-- {lit}`lcd_write_cmd` -/
def lcdWriteCmd (cmd : UInt8) : List BusEvent :=
  [.pin false, .command cmd]

/-- {lit}`lcd_write_data` -/
def lcdWriteData (data : UInt8) : List BusEvent :=
  [.pin true, .data data]

/-- {lit}`lcd_address_set`; the coordinates are sent as 16-bit values. -/
def lcdAddressSet (w : Window) : List BusEvent :=
  lcdWriteCmd 0x2a ++
    lcdWriteData (UInt8.ofNat (w.x1 / 256)) ++ lcdWriteData (UInt8.ofNat w.x1) ++
    lcdWriteData (UInt8.ofNat (w.x2 / 256)) ++ lcdWriteData (UInt8.ofNat w.x2) ++
  lcdWriteCmd 0x2b ++
    lcdWriteData (UInt8.ofNat (w.y1 / 256)) ++ lcdWriteData (UInt8.ofNat w.y1) ++
    lcdWriteData (UInt8.ofNat (w.y2 / 256)) ++ lcdWriteData (UInt8.ofNat w.y2) ++
  lcdWriteCmd 0x2c

/-- {lit}`lcd_open_window`: the addressed window, or none if it leaves the panel. -/
def lcdOpenWindow (x y length wide : Nat) : Option Window :=
  if x + length > LCD_W ∨ y + wide > LCD_H then none
  else some ⟨x, y, x + length - 1, y + wide - 1⟩

/-- One transfer of half-words, with or without setting the pin before it. -/
structure Send where
  setPin : Bool
  pixels : List UInt16
deriving DecidableEq

/-- {lit}`lcd_write_half_word` -/
def lcdWriteHalfWord (da : UInt16) : Send := ⟨true, [da]⟩

/-- A drawing call: the window it addresses, if any, and its transfers. -/
structure Draw where
  window : Option Window
  sends : List Send
deriving DecidableEq

namespace Draw

/-- The messages of one transfer. -/
def sendEvents (w : Option Window) (s : Send) : List BusEvent :=
  (if s.setPin then [.pin true] else []) ++ [.pixels w s.pixels]

/-- The messages of a drawing call. -/
def events (d : Draw) : List BusEvent :=
  (match d.window with
    | some w => lcdAddressSet w
    | none => []) ++ d.sends.flatMap (sendEvents d.window)

/-- All half-words of a drawing call. -/
def pixels (d : Draw) : List UInt16 :=
  d.sends.flatMap Send.pixels

/-- The picture that a drawing call paints. -/
def layer (d : Draw) : Layer (Nat × Nat) UInt16 :=
  match d.window with
  | some w => w.layer d.pixels
  | none => fun _ => none

/-- The call addresses a window on the panel, sets the pin before its first
transfer and sends no more half-words than the window has pixels. -/
structure Valid (d : Draw) : Prop where
  window : ∃ w, d.window = some w ∧ w.Valid ∧ d.pixels.length ≤ w.area
  pin : ∀ s, d.sends.head? = some s → s.setPin = true

end Draw

/-! ## The controller -/

/-- The state of the controller: the pin, the last command, the parameters it has
received for it, the window, the place of the next pixel, the high byte of a
half-word that is not complete, and the panel. -/
structure Lcd where
  dc : Bool
  cmd : UInt8
  params : List UInt8
  window : Window
  col : Nat
  row : Nat
  high : Option UInt8
  panel : Panel

/-- What the controller takes a byte for. -/
inductive Taken where
  | command
  | parameter
  | highByte
  | stored (x y : Nat) (c : UInt16)
  | ignored
deriving DecidableEq

namespace Lcd

/-- Store a half-word and move on, row by row, back to the start after the last
pixel of the window. -/
def store (s : Lcd) (c : UInt16) : Lcd :=
  { s with
    high := none
    panel := Function.update s.panel (s.col, s.row) c
    col := if s.col = s.window.x2 then s.window.x1 else s.col + 1
    row :=
      if s.col = s.window.x2 then (if s.row = s.window.y2 then s.window.y1 else s.row + 1)
      else s.row }

/-- A parameter of the column or row command; the fourth one sets the window. -/
def parameter (s : Lcd) (set : Window → Nat → Nat → Window) (b : UInt8) : Lcd :=
  match s.params with
  | [b₁, b₂, b₃] =>
      { s with
        params := []
        window := set s.window (256 * b₁.toNat + b₂.toNat) (256 * b₃.toNat + b.toNat) }
  | params => { s with params := params ++ [b] }

/-- Receive one byte. -/
def receiveByte (s : Lcd) (b : UInt8) : Lcd × Taken :=
  if s.dc = false then
    ({ s with
        cmd := b
        params := []
        high := none
        col := if b = 0x2c then s.window.x1 else s.col
        row := if b = 0x2c then s.window.y1 else s.row }, .command)
  else if s.cmd = 0x2a then
    (s.parameter (fun w a b => { w with x1 := a, x2 := b }) b, .parameter)
  else if s.cmd = 0x2b then
    (s.parameter (fun w a b => { w with y1 := a, y2 := b }) b, .parameter)
  else if s.cmd = 0x2c then
    match s.high with
    | none => ({ s with high := some b }, .highByte)
    | some h => (s.store (halfWord h b), .stored s.col s.row (halfWord h b))
  else (s, .ignored)

/-- What the controller takes the bytes of a transfer for. -/
def taken : Lcd → List UInt8 → List Taken
  | _, [] => []
  | s, b :: bs => (s.receiveByte b).2 :: taken (s.receiveByte b).1 bs

/-- Receive one message. -/
def receive (s : Lcd) : BusEvent → Lcd
  | .pin high => { s with dc := high }
  | e => e.bytes.foldl (fun s b => (s.receiveByte b).1) s

/-- Receive messages in order. -/
def receiveAll (s : Lcd) (es : List BusEvent) : Lcd :=
  es.foldl receive s

theorem receiveAll_append (s : Lcd) (es es' : List BusEvent) :
    s.receiveAll (es ++ es') = (s.receiveAll es).receiveAll es' :=
  List.foldl_append

/-- The half-words were stored, in order, inside the window. -/
def StoredIn (w : Window) : List UInt16 → List Taken → Prop
  | [], [] => True
  | c :: cs, .highByte :: .stored x y c' :: ts => c' = c ∧ w.Contains (x, y) ∧ StoredIn w cs ts
  | _, _ => False

/-- The controller takes the message as the driver means it: a parameter is not
taken as a command, and half-words are stored in the window that their own call
opened. -/
def Clean (s : Lcd) : BusEvent → Prop
  | .pin _ => True
  | .command b => s.taken [b] = [.command]
  | .data b => Taken.command ∉ s.taken [b]
  | .pixels none _ => False
  | .pixels (some w) cs => StoredIn w cs (s.taken (cs.flatMap halfWordBytes))

/-- All of the messages are taken as meant when they arrive one after the other. -/
def CleanRun : Lcd → List BusEvent → Prop
  | _, [] => True
  | s, e :: es => s.Clean e ∧ CleanRun (s.receive e) es

theorem cleanRun_append {s : Lcd} {es es' : List BusEvent} :
    CleanRun s (es ++ es') ↔ CleanRun s es ∧ CleanRun (s.receiveAll es) es' := by
  induction es generalizing s with
  | nil => simp [CleanRun, receiveAll]
  | cons e es ih =>
      rw [List.cons_append, CleanRun, CleanRun, ih, and_assoc]
      rfl

/-! ## Addressing a window -/

/-- The controller after a window was addressed. -/
def addressed (s : Lcd) (w : Window) : Lcd :=
  { s with
    dc := false, cmd := 0x2c, params := [], window := w, col := w.x1, row := w.y1, high := none }

/-- A coordinate is put together from its two bytes. -/
theorem word_of_bytes {n : Nat} (h : n < 65536) : 256 * (n / 256 % 256) + n % 256 = n := by
  omega

/-- Addressing a window leaves the controller at its first pixel. -/
theorem receiveAll_lcdAddressSet (s : Lcd) {w : Window} (h : w.Valid) :
    s.receiveAll (lcdAddressSet w) = s.addressed w := by
  rcases h with ⟨hx, hy, hx2, hy2⟩
  have hx2' : w.x2 < 65536 := Nat.lt_trans hx2 (by decide)
  have hy2' : w.y2 < 65536 := Nat.lt_trans hy2 (by decide)
  simp [receiveAll, lcdAddressSet, lcdWriteCmd, lcdWriteData, receive, BusEvent.bytes, receiveByte,
    parameter, addressed, word_of_bytes hx2', word_of_bytes hy2',
    word_of_bytes (Nat.lt_of_le_of_lt hx hx2'), word_of_bytes (Nat.lt_of_le_of_lt hy hy2')]

/-- Its messages are taken as meant. -/
theorem cleanRun_lcdAddressSet (s : Lcd) (w : Window) : CleanRun s (lcdAddressSet w) := by
  simp [CleanRun, Clean, taken, lcdAddressSet, lcdWriteCmd, lcdWriteData, receive, BusEvent.bytes,
    receiveByte, parameter]

/-! ## Filling a window -/

/-- The controller has the window addressed and stands at its {lit}`k`-th pixel, or
back at the first one when the window is full. -/
structure Filling (s : Lcd) (w : Window) (k : Nat) : Prop where
  cmd : s.cmd = 0x2c
  high : s.high = none
  window : s.window = w
  col : s.col = w.x1 + k % w.width
  row : s.row = w.y1 + k / w.width % w.height

theorem filling_addressed (s : Lcd) (w : Window) : (s.addressed w).Filling w 0 :=
  ⟨rfl, rfl, rfl, by simp [addressed], by simp [addressed]⟩

/-- Before the window is full the next pixel is the one at the present position. -/
theorem Filling.position {s : Lcd} {w : Window} {k : Nat} (h : s.Filling w k)
    (hk : k < w.area) : (s.col, s.row) = w.position k := by
  have hdiv : k / w.width < w.height := Nat.div_lt_of_lt_mul hk
  rw [h.col, h.row, Nat.mod_eq_of_lt hdiv]
  rfl

/-- Division with remainder after one more step. -/
theorem succ_div_mod {k n : Nat} (hn : 0 < n) :
    (k % n + 1 = n ∧ (k + 1) % n = 0 ∧ (k + 1) / n = k / n + 1) ∨
      (k % n + 1 < n ∧ (k + 1) % n = k % n + 1 ∧ (k + 1) / n = k / n) := by
  have hk := Nat.div_add_mod k n
  have hmod := Nat.mod_lt k hn
  rcases Nat.lt_or_eq_of_le (Nat.succ_le_of_lt hmod) with hlt | heq
  · have hk' : k + 1 = n * (k / n) + (k % n + 1) := by omega
    refine .inr ⟨hlt, ?_, ?_⟩
    · rw [hk', Nat.mul_add_mod, Nat.mod_eq_of_lt hlt]
    · rw [hk', Nat.mul_add_div hn, Nat.div_eq_of_lt hlt]
      simp
  · have hk' : k + 1 = n * (k / n + 1) := by
      rw [Nat.mul_succ]
      omega
    refine .inl ⟨heq, ?_, ?_⟩
    · rw [hk', Nat.mul_mod_right]
    · rw [hk', Nat.mul_div_cancel_left _ hn]

/-- Storing a half-word moves on to the next pixel. -/
theorem Filling.store {s : Lcd} {w : Window} (hw : w.Valid) {k : Nat} (h : s.Filling w k)
    (hk : k < w.area) (c : UInt16) : (s.store c).Filling w (k + 1) := by
  have hdiv : k / w.width < w.height := Nat.div_lt_of_lt_mul hk
  have hwidth : w.width = w.x2 + 1 - w.x1 := rfl
  have hheight : w.height = w.y2 + 1 - w.y1 := rfl
  have hrow := h.row
  rw [Nat.mod_eq_of_lt hdiv] at hrow
  have hcases := succ_div_mod (k := k) (Window.width_pos hw)
  rcases hw with ⟨hx, hy, -, -⟩
  refine ⟨h.cmd, rfl, h.window, ?_, ?_⟩
  · simp only [Lcd.store, h.window, h.col]
    rcases hcases with ⟨hend, hmod, -⟩ | ⟨hmore, hmod, -⟩
    · rw [if_pos (by omega), hmod, Nat.add_zero]
    · rw [if_neg (by omega), hmod, Nat.add_assoc]
  · simp only [Lcd.store, h.window, h.col, hrow]
    rcases hcases with ⟨hend, -, hdiv'⟩ | ⟨hmore, -, hdiv'⟩
    · -- The end of a row: the next one, or the first one after the last.
      rw [if_pos (by omega), hdiv']
      by_cases hlast : k / w.width + 1 = w.height
      · rw [if_pos (by omega), hlast, Nat.mod_self, Nat.add_zero]
      · rw [if_neg (by omega), Nat.mod_eq_of_lt (by omega), Nat.add_assoc]
    · rw [if_neg (by omega), hdiv', Nat.mod_eq_of_lt hdiv]

theorem receiveByte_of_high_eq_none {s : Lcd} (hdc : s.dc = true) (hcmd : s.cmd = 0x2c)
    (hhigh : s.high = none) (b : UInt8) :
    s.receiveByte b = ({ s with high := some b }, .highByte) := by
  simp [receiveByte, hdc, hcmd, hhigh]

theorem receiveByte_of_high_eq_some {s : Lcd} (hdc : s.dc = true) (hcmd : s.cmd = 0x2c)
    {h : UInt8} (hhigh : s.high = some h) (b : UInt8) :
    s.receiveByte b = (s.store (halfWord h b), .stored s.col s.row (halfWord h b)) := by
  simp [receiveByte, hdc, hcmd, hhigh]

/-- The two bytes of a half-word store it. -/
theorem receiveByte_halfWord {s : Lcd} {w : Window} {k : Nat} (h : s.Filling w k)
    (hdc : s.dc = true) (c : UInt16) :
    (s.receiveByte (UInt8.ofNat (c.toNat / 256))).2 = .highByte ∧
      (s.receiveByte (UInt8.ofNat (c.toNat / 256))).1.receiveByte c.toUInt8 =
        (s.store c, .stored s.col s.row c) := by
  rw [receiveByte_of_high_eq_none hdc h.cmd h.high]
  refine ⟨rfl, ?_⟩
  have hlow := receiveByte_of_high_eq_some
    (s := { s with high := some (UInt8.ofNat (c.toNat / 256)) }) hdc h.cmd rfl c.toUInt8
  rwa [halfWord_halfWordBytes] at hlow

/-- Half-words that still fit the window are stored one after the other. -/
theorem receive_pixels {s : Lcd} {w : Window} (hw : w.Valid) (stored cs : List UInt16)
    (hfill : s.Filling w stored.length) (hdc : s.dc = true) {panel : Panel}
    (hpanel : s.panel = Canvas.paint panel (w.layer stored))
    (hfit : stored.length + cs.length ≤ w.area) (v : Option Window) :
    (s.receive (.pixels v cs)).Filling w (stored ++ cs).length ∧
      (s.receive (.pixels v cs)).dc = true ∧
      (s.receive (.pixels v cs)).panel = Canvas.paint panel (w.layer (stored ++ cs)) ∧
      StoredIn w cs (s.taken (cs.flatMap halfWordBytes)) := by
  induction cs generalizing s stored with
  | nil => simpa [receive, BusEvent.bytes, taken, StoredIn] using ⟨hfill, hdc, hpanel⟩
  | cons c cs ih =>
      have hk : stored.length < w.area := by
        rw [List.length_cons] at hfit
        omega
      rcases receiveByte_halfWord hfill hdc c with ⟨hhigh, hlow⟩
      have hstep : s.receive (.pixels v (c :: cs)) = (s.store c).receive (.pixels v cs) := by
        simp only [receive, BusEvent.bytes, List.flatMap_cons, halfWordBytes, List.cons_append,
          List.nil_append, List.foldl_cons, hlow]
      have htaken : s.taken ((c :: cs).flatMap halfWordBytes) =
          .highByte :: .stored s.col s.row c :: (s.store c).taken (cs.flatMap halfWordBytes) := by
        simp only [List.flatMap_cons, halfWordBytes, List.cons_append, List.nil_append, taken,
          hhigh, hlow]
      have hnext : (s.store c).panel = Canvas.paint panel (w.layer (stored ++ [c])) := by
        rw [Window.paint_layer_concat hw panel hk, ← hpanel, ← hfill.position hk]
        rfl
      have hrest := ih (s := s.store c) (stored ++ [c])
        (by simpa using hfill.store hw hk c) hdc hnext
        (by simp only [List.length_append, List.length_cons, List.length_nil] at hfit ⊢; omega)
      rw [List.append_assoc, List.singleton_append] at hrest
      rw [hstep, htaken]
      refine ⟨hrest.1, hrest.2.1, hrest.2.2.1, rfl, ?_, hrest.2.2.2⟩
      rw [hfill.position hk]
      exact Window.contains_position hw hk

/-- The transfers of a call, once its window is addressed and the pin is set or
will be set first. -/
theorem receive_sends {s : Lcd} {w : Window} (hw : w.Valid) (stored : List UInt16)
    (hfill : s.Filling w stored.length) {panel : Panel}
    (hpanel : s.panel = Canvas.paint panel (w.layer stored)) {sends : List Send}
    (hpin : s.dc = true ∨ ∀ x, sends.head? = some x → x.setPin = true)
    (hfit : stored.length + (sends.flatMap Send.pixels).length ≤ w.area) :
    CleanRun s (sends.flatMap (Draw.sendEvents (some w))) ∧
      (s.receiveAll (sends.flatMap (Draw.sendEvents (some w)))).panel =
        Canvas.paint panel (w.layer (stored ++ sends.flatMap Send.pixels)) := by
  induction sends generalizing s stored with
  | nil => simpa [CleanRun, receiveAll] using hpanel
  | cons x sends ih =>
      -- After the pin was dealt with it is high.
      obtain ⟨s', hs', hdc', hclean', hfill', hpanel'⟩ : ∃ s' : Lcd,
          s.receiveAll (if x.setPin then [.pin true] else []) = s' ∧ s'.dc = true ∧
          CleanRun s (if x.setPin then [.pin true] else []) ∧
          s'.Filling w stored.length ∧ s'.panel = s.panel := by
        cases hset : x.setPin with
        | true =>
            exact ⟨_, rfl, rfl, ⟨trivial, trivial⟩,
              ⟨hfill.cmd, hfill.high, hfill.window, hfill.col, hfill.row⟩, rfl⟩
        | false =>
            refine ⟨s, rfl, hpin.resolve_right fun h => ?_, trivial, hfill, rfl⟩
            have := h x rfl
            rw [hset] at this
            contradiction
      simp only [List.flatMap_cons, List.length_append] at hfit
      have hpixels := receive_pixels hw stored x.pixels hfill' hdc' (hpanel'.trans hpanel)
        (by omega) (some w)
      have hrest := ih (s := s'.receive (.pixels (some w) x.pixels)) (stored ++ x.pixels)
        hpixels.1 hpixels.2.2.1 (.inl hpixels.2.1) (by rw [List.length_append]; omega)
      simp only [List.flatMap_cons, Draw.sendEvents, cleanRun_append, receiveAll_append, hs',
        ← List.append_assoc stored]
      exact ⟨⟨⟨hclean', hpixels.2.2.2, trivial⟩, hrest.1⟩, hrest.2⟩

/-- A valid drawing call that is received without interruption is taken as meant,
whatever state the controller was in, and paints its picture. -/
theorem receiveAll_draw (s : Lcd) {d : Draw} (hd : d.Valid) :
    CleanRun s d.events ∧ (s.receiveAll d.events).panel = Canvas.paint s.panel d.layer := by
  rcases hd.window with ⟨w, hwindow, hw, hfit⟩
  have hempty : (s.addressed w).panel = Canvas.paint s.panel (w.layer []) := by
    ext p : 1
    simp [addressed, Canvas.paint, Window.layer]
  have hsends := receive_sends hw [] (filling_addressed s w) hempty (.inr hd.pin)
    (by simpa [Draw.pixels] using hfit)
  simp only [Draw.events, Draw.layer, hwindow]
  rw [cleanRun_append, receiveAll_append, receiveAll_lcdAddressSet s hw]
  exact ⟨⟨cleanRun_lcdAddressSet s w, hsends.1⟩, hsends.2⟩

/-- So do valid drawing calls one after another. -/
theorem receiveAll_draws (s : Lcd) {ds : List Draw} (hds : ∀ d ∈ ds, d.Valid) :
    CleanRun s (ds.flatMap Draw.events) ∧
      (s.receiveAll (ds.flatMap Draw.events)).panel =
        Canvas.paintAll s.panel (ds.map Draw.layer) := by
  induction ds generalizing s with
  | nil => exact ⟨trivial, rfl⟩
  | cons d ds ih =>
      rcases receiveAll_draw s (hds d List.mem_cons_self) with ⟨hclean, hpanel⟩
      obtain ⟨hclean', hpanel'⟩ := ih (s := s.receiveAll d.events) fun d' hd' =>
        hds d' (List.mem_cons_of_mem _ hd')
      rw [List.flatMap_cons, cleanRun_append, receiveAll_append, hpanel', hpanel]
      exact ⟨⟨hclean, hclean'⟩, rfl⟩

end Lcd

end WeatherStation
