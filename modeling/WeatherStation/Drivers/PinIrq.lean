import Mathlib.Algebra.Order.Ring.Nat
import Mathlib.Logic.Function.Basic
import WeatherStation.Foundation.Execution

/-!
# Interrupts of the pins

Sixteen interrupt lines are shared by all ports: pin {lit}`n` of each port uses line
{lit}`n`.  The driver keeps one handler for each line; attaching refuses a line that is
taken, but detaching, enabling and disabling do not ask whose line it is.

Main results:

- Theorem {lit}`pin_ops_undisturbed_iff`: a sequence of operations leaves the other pins alone
  exactly when none of them detaches, enables or disables the line of another pin.
- Theorem {lit}`index_attachIrq`: the sixteen bits that are kept of a number name the pin of the
  call.
- Theorem {lit}`attached_of_run`: in such a sequence a pin keeps its handler and its enable
  bit.
- Theorem {lit}`nvic_matches_mask`: in every sequence an interrupt is enabled exactly when one of
  its lines is.
-/

open Foundation

namespace WeatherStation

/-! ## Pins and lines -/

/-- An entry of the table {lit}`pins`: a port and the bit of a pin. -/
structure PinIndex where
  gpio : Nat
  pin : Nat
deriving DecidableEq

/-- {lit}`get_pin`: the number is cut to eight bits; ports A to H have sixteen pins each. -/
def getPin (pin : Int32) : Option PinIndex :=
  let pin := pin.toUInt32.toUInt8.toNat
  if pin < 128 then some ⟨pin / 16, 2 ^ (pin % 16)⟩ else none

/-- {lit}`bit2bitno`, without a result for -1. -/
def bit2bitno (bit : Nat) : Option Nat :=
  (List.range 32).find? fun i => 2 ^ i = bit

/-- A pin with its line: how all operations begin. -/
def lineOf (pin : Int32) : Option (PinIndex × Nat) := do
  let index ← getPin pin
  let irqindex ← bit2bitno index.pin
  if irqindex < 16 then some (index, irqindex) else none

/-- {lit}`pin_irq_map`: the interrupt of a line. -/
def irqno (line : Nat) : Nat :=
  if line < 5 then line else if line < 10 then 5 else 10

/-- {lit}`struct rt_pin_irq_hdr`; handlers and arguments are addresses. -/
structure PinIrqHdr where
  pin : Int16
  mode : UInt16
  hdr : UInt32
  args : UInt32
deriving DecidableEq

/-- The port and the bit of the pin that an entry belongs to. -/
def PinIrqHdr.index (entry : PinIrqHdr) : Option PinIndex :=
  getPin entry.pin.toInt32

/-- An entry for a line without a handler. -/
def PinIrqHdr.free : PinIrqHdr :=
  ⟨-1, 0, 0, 0⟩

/-- The tables of the driver, by line, and the interrupt controllers: for each line the port
that it listens to and whether it is unmasked, and for each interrupt whether it is
enabled. -/
structure PinIrq where
  pin_irq_hdr_tab : Nat → PinIrqHdr
  pin_irq_enable_mask : Nat → Bool
  exticr : Nat → Nat
  imr : Nat → Bool
  nvic : Nat → Bool

/-- The tables at reset. -/
def PinIrq.boot : PinIrq where
  pin_irq_hdr_tab _ := .free
  pin_irq_enable_mask _ := false
  exticr _ := 0
  imr _ := false
  nvic _ := false

/-! ## The operations -/

/-- {lit}`PIN_IRQ_DISABLE` -/
def PIN_IRQ_DISABLE : UInt32 := 0

/-- {lit}`PIN_IRQ_ENABLE` -/
def PIN_IRQ_ENABLE : UInt32 := 1

/-- The mode for {lit}`HAL_GPIO_Init` is one for interrupts.  Only the modes for edges (0 to 2)
set it; for others it is what {lit}`GPIO_InitStruct` happens to hold. -/
def interruptMode (mode : UInt16) (uninitialised : Bool) : Bool :=
  if mode ≤ 2 then true else uninitialised

namespace PinIrq

/-- {lit}`RT_EOK` -/
def RT_EOK : Int := 0

/-- {lit}`RT_ENOSYS` -/
def RT_ENOSYS : Int := 6

/-- {lit}`RT_EBUSY` -/
def RT_EBUSY : Int := 7

/-- {lit}`stm32_pin_attach_irq`: the entry is compared with the whole arguments; what it keeps
of the number and the mode are sixteen bits. -/
def attachIrq (s : PinIrq) (pin : Int32) (mode hdr args : UInt32) : Int × PinIrq :=
  match lineOf pin with
  | none => (RT_ENOSYS, s)
  | some (_, irqindex) =>
      let entry := s.pin_irq_hdr_tab irqindex
      if entry.pin.toInt32 = pin ∧ entry.hdr = hdr ∧ entry.mode.toUInt32 = mode ∧
          entry.args = args then
        (RT_EOK, s)
      else if entry.pin ≠ -1 then (RT_EBUSY, s)
      else
        (RT_EOK, { s with
          pin_irq_hdr_tab :=
            Function.update s.pin_irq_hdr_tab irqindex
              ⟨pin.toInt16, mode.toUInt16, hdr, args⟩ })

/-- {lit}`stm32_pin_dettach_irq` -/
def dettachIrq (s : PinIrq) (pin : Int32) : Int × PinIrq :=
  match lineOf pin with
  | none => (RT_ENOSYS, s)
  | some (_, irqindex) =>
      if (s.pin_irq_hdr_tab irqindex).pin = -1 then (RT_EOK, s)
      else
        (RT_EOK, { s with
          pin_irq_hdr_tab := Function.update s.pin_irq_hdr_tab irqindex .free })

/-- {lit}`HAL_GPIO_Init` of a pin for interrupts. -/
def halGpioInit (s : PinIrq) (index : PinIndex) (line : Nat) : PinIrq :=
  { s with
    exticr := Function.update s.exticr line index.gpio
    imr := Function.update s.imr line true }

/-- {lit}`HAL_GPIO_DeInit`: the line is masked if it listens to the port. -/
def halGpioDeInit (s : PinIrq) (index : PinIndex) (line : Nat) : PinIrq :=
  if s.exticr line = index.gpio then
    { s with
      exticr := Function.update s.exticr line 0
      imr := Function.update s.imr line false }
  else s

/-- The interrupt of a line that was disabled serves no other enabled line. -/
def irqUnused (mask : Nat → Bool) (line : Nat) : Bool :=
  if 5 ≤ line ∧ line ≤ 9 then [5, 6, 7, 8, 9].all fun i => !mask i
  else if 10 ≤ line ∧ line ≤ 15 then [10, 11, 12, 13, 14, 15].all fun i => !mask i
  else true

/-- The pin and the line that the operation makes a source of interrupts. -/
def configures (s : PinIrq) (pin : Int32) (enabled : UInt32) (uninitialised : Bool) :
    Option (PinIndex × Nat) := do
  let (index, irqindex) ← lineOf pin
  if enabled = PIN_IRQ_ENABLE ∧ (s.pin_irq_hdr_tab irqindex).pin ≠ -1 ∧
      interruptMode (s.pin_irq_hdr_tab irqindex).mode uninitialised then
    some (index, irqindex)
  else none

/-- The table of enabled lines and the interrupts after a line was enabled. -/
def enableLine (s : PinIrq) (line : Nat) : PinIrq :=
  { s with
    pin_irq_enable_mask := Function.update s.pin_irq_enable_mask line true
    nvic := Function.update s.nvic (irqno line) true }

/-- The table of enabled lines and the interrupts after a line was disabled. -/
def disableLine (s : PinIrq) (line : Nat) : PinIrq :=
  let mask := Function.update s.pin_irq_enable_mask line false
  { s with
    pin_irq_enable_mask := mask
    nvic := if irqUnused mask line then Function.update s.nvic (irqno line) false else s.nvic }

/-- {lit}`stm32_pin_irq_enable` -/
def irqEnable (s : PinIrq) (pin : Int32) (enabled : UInt32) (uninitialised : Bool) :
    Int × PinIrq :=
  match lineOf pin with
  | none => (RT_ENOSYS, s)
  | some (index, irqindex) =>
      if enabled = PIN_IRQ_ENABLE then
        if (s.pin_irq_hdr_tab irqindex).pin = -1 then (RT_ENOSYS, s)
        else
          let s := match s.configures pin enabled uninitialised with
            | some (index, line) => s.halGpioInit index line
            | none => s
          (RT_EOK, s.enableLine irqindex)
      else if enabled = PIN_IRQ_DISABLE then
        (RT_EOK, (s.halGpioDeInit index irqindex).disableLine irqindex)
      else (-RT_ENOSYS, s)

end PinIrq

/-- A call of an operation. -/
inductive PinOp where
  | attachIrq (pin : Int32) (mode hdr args : UInt32)
  | dettachIrq (pin : Int32)
  | irqEnable (pin : Int32) (enabled : UInt32) (uninitialised : Bool)
deriving DecidableEq

/-- The pin of a call. -/
def PinOp.pin : PinOp → Int32
  | attachIrq pin _ _ _ => pin
  | dettachIrq pin => pin
  | irqEnable pin _ _ => pin

namespace PinIrq

/-- The tables after a call. -/
def apply (s : PinIrq) : PinOp → PinIrq
  | .attachIrq pin mode hdr args => (s.attachIrq pin mode hdr args).2
  | .dettachIrq pin => (s.dettachIrq pin).2
  | .irqEnable pin enabled uninitialised => (s.irqEnable pin enabled uninitialised).2

/-- One call after another. -/
def step (s : PinIrq) (op : PinOp) : Option PinIrq :=
  some (s.apply op)

/-- The source of interrupts that a call configures. -/
def configured (s : PinIrq) : PinOp → Option (PinIndex × Nat)
  | .irqEnable pin enabled uninitialised => s.configures pin enabled uninitialised
  | _ => none

/-- A call does not disturb the other pins, those of another port or bit: their entries and
enable bits stay, and if it makes its pin the source of a line, the line has no handler of
another pin. -/
structure Undisturbed (s : PinIrq) (op : PinOp) : Prop where
  attachment : ∀ line, (s.pin_irq_hdr_tab line).pin ≠ -1 →
    (s.pin_irq_hdr_tab line).index ≠ getPin op.pin →
    (s.apply op).pin_irq_hdr_tab line = s.pin_irq_hdr_tab line
  enabled : ∀ line, (s.pin_irq_hdr_tab line).pin ≠ -1 →
    (s.pin_irq_hdr_tab line).index ≠ getPin op.pin →
    (s.apply op).pin_irq_enable_mask line = s.pin_irq_enable_mask line
  source : ∀ index line, s.configured op = some (index, line) →
    (s.pin_irq_hdr_tab line).pin ≠ -1 → (s.pin_irq_hdr_tab line).index = some index

/-- On a line with a handler of another pin a call has nothing to do: attaching is refused; a
line that is enabled already is enabled without a mode for interrupts; a line that is not
enabled is disabled; or the flag is neither of the two. -/
def Harmless (s : PinIrq) (line : Nat) : PinOp → Prop
  | .attachIrq _ _ _ _ => True
  | .dettachIrq _ => False
  | .irqEnable _ enabled uninitialised =>
      (enabled = PIN_IRQ_ENABLE → s.pin_irq_enable_mask line = true ∧
        interruptMode (s.pin_irq_hdr_tab line).mode uninitialised = false) ∧
      (enabled = PIN_IRQ_DISABLE → s.pin_irq_enable_mask line = false)

/-- The line of the pin has no handler of another pin, or the call has nothing to do there. -/
def OwnLine (s : PinIrq) (op : PinOp) : Prop :=
  ∀ index line, lineOf op.pin = some (index, line) →
    (s.pin_irq_hdr_tab line).pin = -1 ∨ (s.pin_irq_hdr_tab line).index = some index ∨
      s.Harmless line op

/-! ## One call -/

section Calls

variable (s : PinIrq) {pin : Int32} {index : PinIndex} {line : Nat}

/-- A line is found for a pin of a port. -/
theorem getPin_of_lineOf (h : lineOf pin = some (index, line)) : getPin pin = some index := by
  unfold lineOf at h
  rcases Option.bind_eq_some_iff.mp h with ⟨index', hindex, hbit⟩
  rcases Option.bind_eq_some_iff.mp hbit with ⟨irqindex, -, hlt⟩
  split_ifs at hlt
  cases hlt
  exact hindex

/-- The sixteen bits that an entry keeps of a number name the same pin. -/
theorem getPin_toInt16 (pin : Int32) : getPin pin.toInt16.toInt32 = getPin pin := by
  have hbyte : pin.toInt16.toInt32.toUInt32.toUInt8 = pin.toUInt32.toUInt8 := by
    apply UInt8.toBitVec_inj.mp
    change ((pin.toBitVec.signExtend 16).signExtend 32).setWidth 8 = pin.toBitVec.setWidth 8
    ext i hi
    have h16 : i < 16 := by omega
    have h32 : i < 32 := by omega
    simp [BitVec.getElem_signExtend, h16, h32]
  rw [getPin, hbyte]
  rfl

/-- A handler that is attached to a free line belongs to the pin of the call. -/
theorem index_attachIrq (hline : lineOf pin = some (index, line))
    (hfree : (s.pin_irq_hdr_tab line).pin = -1) (mode hdr args : UInt32) :
    ((s.attachIrq pin mode hdr args).2.pin_irq_hdr_tab line).index = some index := by
  have hindex := getPin_of_lineOf hline
  have hother : (-1 : Int16).toInt32 ≠ pin := by
    rintro rfl
    contradiction
  simp only [attachIrq, hline, hfree, hother, false_and, if_false, ne_eq, not_true_eq_false]
  rw [Function.update_self, PinIrqHdr.index, getPin_toInt16, hindex]

/-- Without a line nothing happens. -/
theorem apply_of_lineOf_none {op : PinOp} (h : lineOf op.pin = none) : s.apply op = s := by
  cases op with
  | attachIrq pin mode hdr args =>
      have hline : lineOf pin = none := h
      simp [apply, attachIrq, hline]
  | dettachIrq pin =>
      have hline : lineOf pin = none := h
      simp [apply, dettachIrq, hline]
  | irqEnable pin enabled uninitialised =>
      have hline : lineOf pin = none := h
      simp [apply, irqEnable, hline]

theorem configures_eq (hline : lineOf pin = some (index, line)) (enabled : UInt32)
    (uninitialised : Bool) :
    s.configures pin enabled uninitialised =
      if enabled = PIN_IRQ_ENABLE ∧ (s.pin_irq_hdr_tab line).pin ≠ -1 ∧
          interruptMode (s.pin_irq_hdr_tab line).mode uninitialised then
        some (index, line)
      else none := by
  simp only [configures, hline]
  rfl

/-- A source of interrupts that is configured is the pin of the call on its line. -/
theorem lineOf_of_configured {op : PinOp} (h : s.configured op = some (index, line)) :
    lineOf op.pin = some (index, line) := by
  cases op with
  | attachIrq pin mode hdr args => contradiction
  | dettachIrq pin => contradiction
  | irqEnable pin enabled uninitialised =>
      change s.configures pin enabled uninitialised = _ at h
      cases hline : lineOf pin with
      | none => simp [configures, hline] at h
      | some c =>
          rw [s.configures_eq hline] at h
          split_ifs at h
          exact hline.trans h

/-- Enabling a line that has a handler. -/
theorem irqEnable_enable (hline : lineOf pin = some (index, line))
    (hhdr : (s.pin_irq_hdr_tab line).pin ≠ -1) (uninitialised : Bool) :
    ∃ exticr imr, (s.irqEnable pin PIN_IRQ_ENABLE uninitialised).2 =
      { s with exticr, imr }.enableLine line := by
  simp only [irqEnable, hline, if_pos, if_neg hhdr]
  cases s.configures pin PIN_IRQ_ENABLE uninitialised with
  | none => exact ⟨s.exticr, s.imr, rfl⟩
  | some c => exact ⟨_, _, rfl⟩

/-- Enabling a line that has none. -/
theorem irqEnable_free (hline : lineOf pin = some (index, line))
    (hhdr : (s.pin_irq_hdr_tab line).pin = -1) (uninitialised : Bool) :
    (s.irqEnable pin PIN_IRQ_ENABLE uninitialised).2 = s := by
  simp only [irqEnable, hline, if_pos, if_pos hhdr]

/-- Disabling a line. -/
theorem irqEnable_disable (hline : lineOf pin = some (index, line)) (uninitialised : Bool) :
    ∃ exticr imr, (s.irqEnable pin PIN_IRQ_DISABLE uninitialised).2 =
      { s with exticr, imr }.disableLine line := by
  have hne : ¬PIN_IRQ_DISABLE = PIN_IRQ_ENABLE := by decide
  simp only [irqEnable, hline, if_neg hne, if_pos]
  unfold halGpioDeInit
  split_ifs
  · exact ⟨_, _, rfl⟩
  · exact ⟨s.exticr, s.imr, rfl⟩

/-- A line with a handler is enabled afterwards. -/
theorem mask_irqEnable_enable (hline : lineOf pin = some (index, line))
    (hhdr : (s.pin_irq_hdr_tab line).pin ≠ -1) (uninitialised : Bool) :
    (s.irqEnable pin PIN_IRQ_ENABLE uninitialised).2.pin_irq_enable_mask line = true := by
  rcases s.irqEnable_enable hline hhdr uninitialised with ⟨exticr, imr, heq⟩
  rw [heq]
  exact Function.update_self _ _ _

/-- A line is not enabled after it was disabled. -/
theorem mask_irqEnable_disable (hline : lineOf pin = some (index, line)) (uninitialised : Bool) :
    (s.irqEnable pin PIN_IRQ_DISABLE uninitialised).2.pin_irq_enable_mask line = false := by
  rcases s.irqEnable_disable hline uninitialised with ⟨exticr, imr, heq⟩
  rw [heq]
  exact Function.update_self _ _ _

/-- Any other flag. -/
theorem irqEnable_other {enabled : UInt32} (henable : enabled ≠ PIN_IRQ_ENABLE)
    (hdisable : enabled ≠ PIN_IRQ_DISABLE) (uninitialised : Bool) :
    (s.irqEnable pin enabled uninitialised).2 = s := by
  unfold irqEnable
  cases lineOf pin with
  | none => rfl
  | some c => simp only [if_neg henable, if_neg hdisable]

/-- A call of {lit}`stm32_pin_irq_enable` enables or disables the line or does nothing. -/
theorem irqEnable_cases (hline : lineOf pin = some (index, line)) (enabled : UInt32)
    (uninitialised : Bool) :
    (s.irqEnable pin enabled uninitialised).2 = s ∨
      ∃ exticr imr, (s.irqEnable pin enabled uninitialised).2 =
          { s with exticr, imr }.enableLine line ∨
        (s.irqEnable pin enabled uninitialised).2 = { s with exticr, imr }.disableLine line := by
  by_cases henable : enabled = PIN_IRQ_ENABLE
  · subst henable
    by_cases hhdr : (s.pin_irq_hdr_tab line).pin = -1
    · exact .inl (s.irqEnable_free hline hhdr uninitialised)
    · rcases s.irqEnable_enable hline hhdr uninitialised with ⟨exticr, imr, heq⟩
      exact .inr ⟨exticr, imr, .inl heq⟩
  · by_cases hdisable : enabled = PIN_IRQ_DISABLE
    · subst hdisable
      rcases s.irqEnable_disable hline uninitialised with ⟨exticr, imr, heq⟩
      exact .inr ⟨exticr, imr, .inr heq⟩
    · exact .inl (s.irqEnable_other henable hdisable uninitialised)

/-- A call changes no entry and no enable bit but those of its line. -/
theorem apply_other {op : PinOp} (hline : lineOf op.pin = some (index, line)) {line' : Nat}
    (hne : line' ≠ line) :
    (s.apply op).pin_irq_hdr_tab line' = s.pin_irq_hdr_tab line' ∧
      (s.apply op).pin_irq_enable_mask line' = s.pin_irq_enable_mask line' := by
  cases op with
  | attachIrq pin mode hdr args =>
      change lineOf pin = _ at hline
      simp only [apply, attachIrq, hline]
      split_ifs
      · exact ⟨rfl, rfl⟩
      · exact ⟨rfl, rfl⟩
      · exact ⟨Function.update_of_ne hne _ _, rfl⟩
  | dettachIrq pin =>
      change lineOf pin = _ at hline
      simp only [apply, dettachIrq, hline]
      split_ifs
      · exact ⟨rfl, rfl⟩
      · exact ⟨Function.update_of_ne hne _ _, rfl⟩
  | irqEnable pin enabled uninitialised =>
      change lineOf pin = _ at hline
      rw [apply]
      rcases s.irqEnable_cases hline enabled uninitialised with heq | ⟨exticr, imr, heq | heq⟩
      · rw [heq]
        exact ⟨rfl, rfl⟩
      · rw [heq]
        exact ⟨rfl, Function.update_of_ne hne _ _⟩
      · rw [heq]
        exact ⟨rfl, Function.update_of_ne hne _ _⟩

/-- Enabling and disabling change no entry at all. -/
theorem irqEnable_tab (enabled : UInt32) (uninitialised : Bool) :
    (s.irqEnable pin enabled uninitialised).2.pin_irq_hdr_tab = s.pin_irq_hdr_tab := by
  cases hline : lineOf pin with
  | none => simp [irqEnable, hline]
  | some c =>
      rcases s.irqEnable_cases hline enabled uninitialised with heq | ⟨exticr, imr, heq | heq⟩
      · rw [heq]
      · rw [heq]
        rfl
      · rw [heq]
        rfl

/-- On a line with a handler of another pin, a call is judged by that line alone. -/
theorem undisturbed_iff_line {op : PinOp} (hline : lineOf op.pin = some (index, line))
    (hhdr : (s.pin_irq_hdr_tab line).pin ≠ -1)
    (hpin : (s.pin_irq_hdr_tab line).index ≠ some index) :
    s.Undisturbed op ↔
      (s.apply op).pin_irq_hdr_tab line = s.pin_irq_hdr_tab line ∧
      (s.apply op).pin_irq_enable_mask line = s.pin_irq_enable_mask line ∧
      s.configured op = none := by
  constructor
  · intro h
    have hother : (s.pin_irq_hdr_tab line).index ≠ getPin op.pin := by
      rwa [getPin_of_lineOf hline]
    refine ⟨h.attachment line hhdr hother, h.enabled line hhdr hother, ?_⟩
    rw [Option.eq_none_iff_forall_not_mem]
    rintro ⟨index', line'⟩ hsource
    have hsame := hline.symm.trans (lineOf_of_configured s hsource)
    cases hsame
    exact hpin (h.source index line hsource hhdr)
  · rintro ⟨htab, hmask, hsource⟩
    refine ⟨?_, ?_, ?_⟩
    · intro line' _ _
      by_cases hne : line' = line
      · rwa [hne]
      · exact (s.apply_other hline hne).1
    · intro line' _ _
      by_cases hne : line' = line
      · rwa [hne]
      · exact (s.apply_other hline hne).2
    · intro index' line' hsome
      rw [hsource] at hsome
      contradiction

/-- What disturbs the handler of another pin. -/
theorem undisturbed_iff_harmless {op : PinOp} (hline : lineOf op.pin = some (index, line))
    (hhdr : (s.pin_irq_hdr_tab line).pin ≠ -1)
    (hpin : (s.pin_irq_hdr_tab line).index ≠ some index) :
    s.Undisturbed op ↔ s.Harmless line op := by
  rw [s.undisturbed_iff_line hline hhdr hpin]
  cases op with
  | attachIrq pin mode hdr args =>
      have hbusy : s.apply (.attachIrq pin mode hdr args) = s := by
        change lineOf pin = _ at hline
        have hother : (s.pin_irq_hdr_tab line).pin.toInt32 ≠ pin := by
          rintro rfl
          exact hpin (getPin_of_lineOf hline)
        simp [apply, attachIrq, hline, hother, hhdr]
      rw [hbusy]
      exact iff_of_true ⟨rfl, rfl, rfl⟩ trivial
  | dettachIrq pin =>
      have hfree : (s.apply (.dettachIrq pin)).pin_irq_hdr_tab line = .free := by
        change lineOf pin = _ at hline
        simp only [apply, dettachIrq, hline, if_neg hhdr]
        exact Function.update_self _ _ _
      refine iff_of_false ?_ id
      rintro ⟨htab, -, -⟩
      rw [← htab, hfree] at hhdr
      exact hhdr rfl
  | irqEnable pin enabled uninitialised =>
      change lineOf pin = _ at hline
      rw [apply, irqEnable_tab, configured, s.configures_eq hline, Harmless, eq_self,
        true_and]
      by_cases henable : enabled = PIN_IRQ_ENABLE
      · subst henable
        have hne : ¬PIN_IRQ_ENABLE = PIN_IRQ_DISABLE := by decide
        rw [s.mask_irqEnable_enable hline hhdr]
        simp [hhdr, hne]
      · by_cases hdisable : enabled = PIN_IRQ_DISABLE
        · subst hdisable
          rw [s.mask_irqEnable_disable hline]
          simp [henable]
        · rw [s.irqEnable_other henable hdisable]
          simp [henable, hdisable]

/-- A call leaves the other pins alone exactly when the line of its pin has no handler of
another pin, or it has nothing to do there. -/
theorem undisturbed_iff (op : PinOp) : s.Undisturbed op ↔ s.OwnLine op := by
  cases hline : lineOf op.pin with
  | none =>
      refine iff_of_true ?_ fun index line h => by rw [hline] at h; contradiction
      have hsame := s.apply_of_lineOf_none hline
      refine ⟨fun line _ _ => by rw [hsame], fun line _ _ => by rw [hsame], ?_⟩
      intro index line hsource
      rw [lineOf_of_configured s hsource] at hline
      contradiction
  | some c =>
      rcases c with ⟨index, line⟩
      have hown : s.OwnLine op ↔ (s.pin_irq_hdr_tab line).pin = -1 ∨
          (s.pin_irq_hdr_tab line).index = some index ∨ s.Harmless line op := by
        rw [OwnLine, hline]
        constructor
        · intro h
          exact h index line rfl
        · rintro h index' line' ⟨⟩
          exact h
      rw [hown]
      by_cases hhdr : (s.pin_irq_hdr_tab line).pin = -1 ∨
          (s.pin_irq_hdr_tab line).index = some index
      · have hindex := getPin_of_lineOf hline
        have hother {line' : Nat} (hhdr' : (s.pin_irq_hdr_tab line').pin ≠ -1)
            (hpin' : (s.pin_irq_hdr_tab line').index ≠ getPin op.pin) : line' ≠ line := by
          rintro rfl
          rw [hindex] at hpin'
          exact hhdr.elim hhdr' hpin'
        refine iff_of_true ⟨?_, ?_, ?_⟩ (hhdr.imp_right Or.inl)
        · intro line' hhdr' hpin'
          exact (s.apply_other hline (hother hhdr' hpin')).1
        · intro line' hhdr' hpin'
          exact (s.apply_other hline (hother hhdr' hpin')).2
        · intro index' line' hsource hhdr'
          cases hline.symm.trans (lineOf_of_configured s hsource)
          exact hhdr.resolve_left hhdr'
      · rw [not_or] at hhdr
        rw [s.undisturbed_iff_harmless hline hhdr.1 hhdr.2]
        simp [hhdr.1, hhdr.2]

end Calls

/-! ## Sequences of calls -/

/-- In a sequence of calls, from any tables, every call leaves the handlers and the enable bits
of all other pins alone, and makes no pin the source of a line with a handler of another
pin, exactly when each call finds its line without a handler of another pin or has nothing
to do there. -/
theorem pin_ops_undisturbed_iff (s : PinIrq) (ops : List PinOp) :
    Execution.AllSteps step Undisturbed s ops ↔ Execution.AllSteps step OwnLine s ops := by
  have hsame : Undisturbed = OwnLine := by
    ext s op
    exact s.undisturbed_iff op
  rw [hsame]

/-- Detaching pin 8 of port B takes the handler of pin 8 of port A away. -/
theorem dettach_takes_other_pin :
    ¬∀ ops : List PinOp, Execution.AllSteps step Undisturbed boot ops := by
  intro h
  have hops := h [.attachIrq 8 1 100 0, .dettachIrq 24]
  have hentry := ((hops.2 _ rfl).1).attachment 8
  revert hentry
  decide

/-- While no other pin's call has anything to do on its line, a pin that is attached keeps its
entry and its enable bit over every sequence of calls for other pins. -/
theorem attached_of_run {s t : PinIrq} {ops : List PinOp} {line : Nat}
    (hhdr : (s.pin_irq_hdr_tab line).pin ≠ -1)
    (hops : Execution.AllSteps step
      (fun s' op => s'.OwnLine op ∧ getPin op.pin ≠ (s.pin_irq_hdr_tab line).index) s ops)
    (hrun : Execution.exec step s ops = some t) :
    t.pin_irq_hdr_tab line = s.pin_irq_hdr_tab line ∧
      t.pin_irq_enable_mask line = s.pin_irq_enable_mask line := by
  have hkept (u : PinIrq) (op : PinOp) (u' : PinIrq)
      (hu : u.pin_irq_hdr_tab line = s.pin_irq_hdr_tab line ∧
        u.pin_irq_enable_mask line = s.pin_irq_enable_mask line)
      (hop : u.OwnLine op ∧ getPin op.pin ≠ (s.pin_irq_hdr_tab line).index)
      (hstep : u.step op = some u') :
      u'.pin_irq_hdr_tab line = s.pin_irq_hdr_tab line ∧
        u'.pin_irq_enable_mask line = s.pin_irq_enable_mask line := by
    cases hstep
    have hund := (u.undisturbed_iff op).mpr hop.1
    have hpin : (u.pin_irq_hdr_tab line).index ≠ getPin op.pin := by
      rw [hu.1]
      exact Ne.symm hop.2
    rw [← hu.1] at hhdr
    exact ⟨(hund.attachment line hhdr hpin).trans hu.1,
      (hund.enabled line hhdr hpin).trans hu.2⟩
  exact Execution.exec_invariant hkept ⟨rfl, rfl⟩ hops hrun

/-- The interrupts of all enabled lines are enabled. -/
def NvicServes (s : PinIrq) : Prop :=
  ∀ line < 16, s.pin_irq_enable_mask line = true → s.nvic (irqno line) = true

/-- An interrupt is enabled exactly when one of its lines is. -/
def NvicMatches (s : PinIrq) : Prop :=
  ∀ irq, s.nvic irq = true ↔
    ∃ line < 16, irqno line = irq ∧ s.pin_irq_enable_mask line = true

theorem NvicMatches.serves {s : PinIrq} (h : s.NvicMatches) : s.NvicServes :=
  fun line hline henabled => (h (irqno line)).mpr ⟨line, hline, rfl, henabled⟩

/-- The interrupt of a line that is not enabled is unused exactly when none of its lines is
enabled. -/
theorem irqUnused_iff {mask : Nat → Bool} {line : Nat} (hline : line < 16)
    (hmask : mask line = false) :
    irqUnused mask line = true ↔
      ∀ line' < 16, irqno line' = irqno line → mask line' = false := by
  have hgroup {group : List Nat}
      (hmem : ∀ line', line' ∈ group ↔ line' < 16 ∧ irqno line' = irqno line) :
      (group.all fun i => !mask i) = true ↔
        ∀ line' < 16, irqno line' = irqno line → mask line' = false := by
    simp only [List.all_eq_true, hmem, and_imp, Bool.not_eq_true']
  unfold irqUnused
  by_cases hmiddle : 5 ≤ line ∧ line ≤ 9
  · rw [if_pos hmiddle]
    refine hgroup fun line' => ?_
    simp only [List.mem_cons, List.not_mem_nil, or_false, irqno]
    split_ifs <;> omega
  · rw [if_neg hmiddle]
    by_cases hupper : 10 ≤ line ∧ line ≤ 15
    · rw [if_pos hupper]
      refine hgroup fun line' => ?_
      simp only [List.mem_cons, List.not_mem_nil, or_false, irqno]
      split_ifs <;> omega
    · -- The interrupt serves this line only.
      refine iff_of_true (if_neg hupper) fun line' hline' hirq => ?_
      have hsame : line' = line := by
        unfold irqno at hirq
        split_ifs at hirq <;> omega
      rwa [hsame]

theorem nvicMatches_enableLine {s : PinIrq} (h : s.NvicMatches) {line : Nat}
    (hline : line < 16) : (s.enableLine line).NvicMatches := by
  intro irq
  simp only [enableLine]
  by_cases hirq : irq = irqno line
  · subst hirq
    refine iff_of_true (Function.update_self _ _ _) ⟨line, hline, rfl, ?_⟩
    exact Function.update_self _ _ _
  · rw [Function.update_of_ne hirq, h irq]
    refine exists_congr fun line' => and_congr_right fun _ => and_congr_right fun hserved => ?_
    have hne : line' ≠ line := fun heq => hirq (hserved ▸ congrArg irqno heq)
    rw [Function.update_of_ne hne]

theorem nvicMatches_disableLine {s : PinIrq} (h : s.NvicMatches) {line : Nat}
    (hline : line < 16) : (s.disableLine line).NvicMatches := by
  have hself : Function.update s.pin_irq_enable_mask line false line = false :=
    Function.update_self _ _ _
  intro irq
  simp only [disableLine]
  by_cases hirq : irq = irqno line
  · subst hirq
    by_cases hunused :
        irqUnused (Function.update s.pin_irq_enable_mask line false) line = true
    · rw [if_pos hunused, Function.update_self]
      refine iff_of_false (by decide) ?_
      rintro ⟨line', hline', hserved, henabled⟩
      rw [(irqUnused_iff hline hself).mp hunused line' hline' hserved] at henabled
      contradiction
    · -- Another line of the interrupt is still enabled.
      rw [if_neg hunused, h (irqno line)]
      rw [irqUnused_iff hline hself] at hunused
      push Not at hunused
      rcases hunused with ⟨line', hline', hserved, henabled⟩
      have henabled := Bool.eq_true_of_not_eq_false henabled
      have hne : line' ≠ line := by
        rintro rfl
        rw [hself] at henabled
        contradiction
      refine iff_of_true ⟨line', hline', hserved, ?_⟩ ⟨line', hline', hserved, henabled⟩
      rwa [Function.update_of_ne hne] at henabled
  · have hnvic : (if irqUnused (Function.update s.pin_irq_enable_mask line false) line then
        Function.update s.nvic (irqno line) false else s.nvic) irq = s.nvic irq := by
      split_ifs
      · exact Function.update_of_ne hirq _ _
      · rfl
    rw [hnvic, h irq]
    refine exists_congr fun line' => and_congr_right fun _ => and_congr_right fun hserved => ?_
    have hne : line' ≠ line := fun heq => hirq (hserved ▸ congrArg irqno heq)
    rw [Function.update_of_ne hne]

theorem lineOf_lt {pin : Int32} {index : PinIndex} {line : Nat}
    (h : lineOf pin = some (index, line)) : line < 16 := by
  unfold lineOf at h
  rcases Option.bind_eq_some_iff.mp h with ⟨index', -, hbit⟩
  rcases Option.bind_eq_some_iff.mp hbit with ⟨irqindex, -, hlt⟩
  split_ifs at hlt with hline
  cases hlt
  exact hline

/-- Every call keeps the interrupts as the enabled lines need them. -/
theorem nvicMatches_apply {s : PinIrq} (h : s.NvicMatches) (op : PinOp) :
    (s.apply op).NvicMatches := by
  cases op with
  | attachIrq pin mode hdr args =>
      simp only [apply, attachIrq]
      split
      · exact h
      · split_ifs <;> exact h
  | dettachIrq pin =>
      simp only [apply, dettachIrq]
      split
      · exact h
      · split_ifs <;> exact h
  | irqEnable pin enabled uninitialised =>
      cases hline : lineOf pin with
      | none =>
          have hpin : lineOf (PinOp.irqEnable pin enabled uninitialised).pin = none := hline
          rwa [s.apply_of_lineOf_none hpin]
      | some c =>
          rw [apply]
          rcases s.irqEnable_cases hline enabled uninitialised with
            heq | ⟨exticr, imr, heq | heq⟩
          · rwa [heq]
          · rw [heq]
            exact nvicMatches_enableLine (s := { s with exticr, imr }) h (lineOf_lt hline)
          · rw [heq]
            exact nvicMatches_disableLine (s := { s with exticr, imr }) h (lineOf_lt hline)

theorem nvicMatches_boot : boot.NvicMatches := by
  intro irq
  refine iff_of_false Bool.false_ne_true ?_
  rintro ⟨line, -, -, henabled⟩
  contradiction

theorem nvicMatches_of_run {t : PinIrq} {ops : List PinOp}
    (hrun : Execution.exec step boot ops = some t) : t.NvicMatches := by
  refine Execution.exec_invariant_of_step ?_ nvicMatches_boot hrun
  intro s op s' hs hstep
  cases hstep
  exact nvicMatches_apply hs op

/-- In every sequence of calls the interrupts of all enabled lines are enabled. -/
theorem nvic_of_enabled {t : PinIrq} {ops : List PinOp}
    (hrun : Execution.exec step boot ops = some t) : t.NvicServes :=
  (nvicMatches_of_run hrun).serves

/-- From reset on, after every sequence of calls, an interrupt EXTI0 to EXTI4, EXTI9_5 or
EXTI15_10 is enabled exactly when one of the lines of its group is. -/
theorem nvic_matches_mask {t : PinIrq} {ops : List PinOp}
    (hrun : Execution.exec step boot ops = some t) (irq : Nat) :
    t.nvic irq = true ↔
      ∃ line < 16, irqno line = irq ∧ t.pin_irq_enable_mask line = true :=
  nvicMatches_of_run hrun irq

/-- Pins 5 and 9 of port A share the interrupt EXTI9_5: it stays enabled when line 5 is disabled
and is disabled when line 9 is disabled as well. -/
theorem nvic_matches_mask_shared :
    let ops := [PinOp.attachIrq 5 0 100 0, .attachIrq 9 0 100 0, .irqEnable 5 1 false,
      .irqEnable 9 1 false, .irqEnable 5 0 false]
    (ops.foldl apply boot).nvic 5 = true ∧
      ((ops ++ [PinOp.irqEnable 9 0 false]).foldl apply boot).nvic 5 ≠ true := by
  intro ops
  constructor
  · exact (@nvic_matches_mask _ ops rfl 5).mpr
      ⟨9, by decide, rfl, by decide⟩
  · rw [ne_eq, @nvic_matches_mask ((ops ++ [PinOp.irqEnable 9 0 false]).foldl apply boot)
      (ops ++ [PinOp.irqEnable 9 0 false]) rfl 5]
    decide

end PinIrq

end WeatherStation
