import Mathlib.Algebra.Order.Ring.Nat
import WeatherStation.Foundation.Execution

/-!
# Reception through a circular DMA

The DMA stores received bytes in a ring; its counter drops by one for each byte and
starts again at the size of the ring, which makes a transfer-complete interrupt pending.
{lit}`uart_isr`, for an idle line, and {lit}`HAL_UART_RxCpltCallback` report how many bytes
are new, by {lit}`last_index`, which they share.  The DMA interrupt has the higher priority,
but it stays pending while {lit}`uart_isr` has interrupts disabled, and bytes arrive at any
time.

Main results:

- Theorem {lit}`uart_counts_once`: when the counter is read only in the lap of
  {lit}`last_index`, every reported length is at most the size of the ring, and each byte
  is reported once.
- Theorem {lit}`uart_reads_next_lap`: between the disabling of interrupts and the reading of
  the counter the DMA can begin its next lap.
-/

open Foundation

namespace WeatherStation

/-! ## The ring and the two handlers -/

/-- Where {lit}`uart_isr` stands in the branch for an idle line. -/
inductive IsrPhase where
  | off
  | entered
  /-- Interrupts are disabled. -/
  | masked
  /-- Interrupts are disabled, and {lit}`recv_total_index` is computed. -/
  | counted (recv_total_index : Nat)
  /-- Interrupts are enabled again. -/
  | report (recv_len : Nat)
deriving DecidableEq

/-- Where {lit}`HAL_UART_RxCpltCallback` stands. -/
inductive CpltPhase where
  | off
  | entered
  /-- {lit}`last_index` is reset. -/
  | report (recv_len : Nat)
deriving DecidableEq

/-- The DMA, the handlers, and what has happened: the bytes received, the lengths passed to
{lit}`rt_hw_serial_isr`, and whether the last idle interrupt came after the last byte. -/
structure Uart where
  /-- What {lit}`__HAL_DMA_GET_COUNTER` reads. -/
  counter : Nat
  /-- The transfer-complete interrupt is pending. -/
  pending : Bool
  last_index : Nat
  isr : IsrPhase
  cplt : CpltPhase
  received : Nat
  reported : List Nat
  idleLast : Bool
deriving DecidableEq

/-- What can happen next. -/
inductive UartAction where
  /-- A byte arrives. -/
  | byte
  /-- The idle line interrupts. -/
  | idle
  /-- {lit}`uart_isr` disables interrupts. -/
  | disable
  /-- It reads the counter. -/
  | count
  /-- It computes {lit}`recv_len`, sets {lit}`last_index` and enables interrupts. -/
  | update
  /-- It reports and returns. -/
  | isrReport
  /-- The pending interrupt calls {lit}`HAL_UART_RxCpltCallback`. -/
  | cplt
  /-- The callback computes {lit}`recv_len` and resets {lit}`last_index`, with interrupts
  disabled. -/
  | cpltUpdate
  /-- It reports and returns. -/
  | cpltReport
deriving DecidableEq

/-- The difference of two numbers of type {lit}`rt_size_t`. -/
def sizeSub (a b : Nat) : Nat :=
  (a + 4294967296 - b) % 4294967296

theorem sizeSub_of_le {a b : Nat} (h : b ≤ a) (ha : a < 4294967296) : sizeSub a b = a - b := by
  unfold sizeSub
  omega

namespace Uart

/-- The state after {lit}`stm32_dma_config`. -/
def initial (bufsz : Nat) : Uart where
  counter := bufsz
  pending := false
  last_index := 0
  isr := .off
  cplt := .off
  received := 0
  reported := []
  idleLast := true

/-- {lit}`uart_isr` has interrupts disabled. -/
def masked (s : Uart) : Bool :=
  match s.isr with
  | .masked => true
  | .counted _ => true
  | _ => false

/-- Call {lit}`rt_hw_serial_isr` if there is something to report. -/
def report (s : Uart) (recv_len : Nat) : Uart :=
  { s with reported := if recv_len ≠ 0 then s.reported ++ [recv_len] else s.reported }

/-- One step; while the transfer-complete interrupt is pending the DMA does not complete
another lap. -/
def step (bufsz : Nat) (s : Uart) : UartAction → Option Uart
  | .byte =>
      if s.counter = 1 then
        if s.pending then none
        else some { s with
          counter := bufsz, pending := true, received := s.received + 1, idleLast := false }
      else some { s with
        counter := s.counter - 1, received := s.received + 1, idleLast := false }
  | .idle => if s.isr = .off then some { s with isr := .entered, idleLast := true } else none
  | .disable => if s.isr = .entered then some { s with isr := .masked } else none
  | .count =>
      if s.isr = .masked then some { s with isr := .counted (bufsz - s.counter) } else none
  | .update =>
      match s.isr with
      | .counted recv_total_index =>
          some { s with
            isr := .report (sizeSub recv_total_index s.last_index)
            last_index := recv_total_index }
      | _ => none
  | .isrReport =>
      match s.isr with
      | .report recv_len => some { s.report recv_len with isr := .off }
      | _ => none
  | .cplt =>
      if s.pending ∧ s.cplt = .off ∧ s.masked = false then
        some { s with pending := false, cplt := .entered }
      else none
  | .cpltUpdate =>
      if s.cplt = .entered ∧ s.masked = false then
        some { s with cplt := .report (sizeSub bufsz s.last_index), last_index := 0 }
      else none
  | .cpltReport =>
      match s.cplt with
      | .report recv_len =>
          if s.masked = false then some { s.report recv_len with cplt := .off } else none
      | _ => none

/-- No interrupt is pending or running, and the last idle interrupt came after the last
byte. -/
def Quiescent (s : Uart) : Prop :=
  s.pending = false ∧ s.isr = .off ∧ s.cplt = .off ∧ s.idleLast = true

/-- No completed lap is waiting for its callback. -/
def LapCounted (s : Uart) : Prop :=
  s.pending = false ∧ s.cplt ≠ .entered

instance (s : Uart) : Decidable s.LapCounted :=
  inferInstanceAs (Decidable (_ ∧ _))

/-- The counter is read in the lap of {lit}`last_index`: the index has not fallen behind it,
and unless another byte has come since the interrupt, no completed lap is waiting for its
callback while the index has moved on. -/
def CountsInLap (bufsz : Nat) (s : Uart) (a : UartAction) : Prop :=
  a = .count → s.isr = .masked → s.last_index ≤ bufsz - s.counter ∧
    (s.idleLast = true → s.LapCounted ∨ s.counter = bufsz)

instance (bufsz : Nat) (s : Uart) (a : UartAction) : Decidable (s.CountsInLap bufsz a) :=
  inferInstanceAs (Decidable (_ → _ → _ ∧ (_ → _ ∨ _)))

/-! ## The invariant -/

/-- Bytes of completed laps that wait for their callbacks. -/
def lapBytes (bufsz : Nat) (s : Uart) : Nat :=
  (if s.pending then bufsz else 0) + if s.cplt = .entered then bufsz else 0

/-- Lengths that {lit}`uart_isr` is about to report. -/
def isrDue (s : Uart) : Nat :=
  match s.isr with
  | .report recv_len => recv_len
  | _ => 0

/-- Lengths that the callback is about to report. -/
def cpltDue (s : Uart) : Nat :=
  match s.cplt with
  | .report recv_len => recv_len
  | _ => 0

/-- The bytes received are those reported or due and those between {lit}`last_index` and the
index of the DMA, with the laps that wait for their callbacks. -/
structure Inv (bufsz : Nat) (s : Uart) : Prop where
  counter_pos : 0 < s.counter
  counter_le : s.counter ≤ bufsz
  last_le : s.last_index ≤ bufsz
  balance : s.received + s.last_index =
    s.reported.sum + s.isrDue + s.cpltDue + s.lapBytes bufsz + (bufsz - s.counter)
  front : s.LapCounted → s.last_index ≤ bufsz - s.counter
  lengths : ∀ len ∈ s.reported, len ≤ bufsz
  isrDue_le : s.isrDue ≤ bufsz
  cpltDue_le : s.cpltDue ≤ bufsz
  counted : ∀ total, s.isr = .counted total → s.last_index ≤ total ∧ total ≤ bufsz ∧
    (s.LapCounted → total ≤ bufsz - s.counter) ∧
    (s.idleLast = true → total = bufsz - s.counter ∧ (s.LapCounted ∨ total = 0))
  settled : s.idleLast = true → s.isr ≠ .entered → s.masked = false →
    s.last_index = bufsz - s.counter ∧ (s.LapCounted ∨ s.last_index = 0)

theorem inv_initial {bufsz : Nat} (h : 0 < bufsz) : (initial bufsz).Inv bufsz := by
  constructor <;> simp [initial, isrDue, cpltDue, lapBytes, LapCounted]
  exact h

@[simp] theorem sum_report (s : Uart) (recv_len : Nat) :
    (s.report recv_len).reported.sum = s.reported.sum + recv_len := by
  show (if recv_len ≠ 0 then s.reported ++ [recv_len] else s.reported).sum = _
  split_ifs with h
  · simp
  · omega

theorem report_le {bufsz : Nat} {s : Uart} (h : ∀ len ∈ s.reported, len ≤ bufsz)
    {recv_len : Nat} (hlen : recv_len ≤ bufsz) :
    ∀ len ∈ (s.report recv_len).reported, len ≤ bufsz := by
  show ∀ len ∈ (if recv_len ≠ 0 then s.reported ++ [recv_len] else s.reported), len ≤ bufsz
  split_ifs with hzero
  · intro len hmem
    rcases List.mem_append.mp hmem with hmem | hmem
    · exact h len hmem
    · rwa [List.mem_singleton.mp hmem]
  · exact h

namespace Inv

variable {bufsz : Nat} {s : Uart}

/-- A byte within a lap. -/
theorem byte_of_ne (h : s.Inv bufsz) (hlast : s.counter ≠ 1) :
    Inv bufsz { s with
      counter := s.counter - 1, received := s.received + 1, idleLast := false } := by
  have hpos := h.counter_pos
  have hle := h.counter_le
  have hbalance := h.balance
  constructor
  · show 0 < s.counter - 1
    omega
  · show s.counter - 1 ≤ bufsz
    omega
  · exact h.last_le
  · show s.received + 1 + s.last_index =
      s.reported.sum + s.isrDue + s.cpltDue + s.lapBytes bufsz + (bufsz - (s.counter - 1))
    omega
  · intro hlap
    have hfront := h.front hlap
    show s.last_index ≤ bufsz - (s.counter - 1)
    omega
  · exact h.lengths
  · exact h.isrDue_le
  · exact h.cpltDue_le
  · intro total htotal
    rcases h.counted total htotal with ⟨hlast, htop, hlap, -⟩
    refine ⟨hlast, htop, ?_, nofun⟩
    intro hcounted
    have := hlap hcounted
    show total ≤ bufsz - (s.counter - 1)
    omega
  · exact nofun

/-- The last byte of a lap. -/
theorem byte_of_eq (h : s.Inv bufsz) (hlast : s.counter = 1) (hpending : s.pending = false) :
    Inv bufsz { s with
      counter := bufsz, pending := true, received := s.received + 1, idleLast := false } := by
  have hle := h.counter_le
  have hbalance := h.balance
  constructor
  · show 0 < bufsz
    omega
  · exact Nat.le_refl _
  · exact h.last_le
  · show s.received + 1 + s.last_index = s.reported.sum + s.isrDue + s.cpltDue +
      (bufsz + if s.cplt = .entered then bufsz else 0) + (bufsz - bufsz)
    rw [lapBytes, hpending] at hbalance
    simp only [Bool.false_eq_true, if_false] at hbalance
    omega
  · intro hlap
    exact absurd hlap.1 nofun
  · exact h.lengths
  · exact h.isrDue_le
  · exact h.cpltDue_le
  · intro total htotal
    rcases h.counted total htotal with ⟨hlast, htop, -, -⟩
    exact ⟨hlast, htop, fun hlap => absurd hlap.1 nofun, nofun⟩
  · exact nofun

/-- {lit}`uart_isr` begins. -/
theorem idle (h : s.Inv bufsz) (hoff : s.isr = .off) :
    Inv bufsz { s with isr := .entered, idleLast := true } := by
  have hdue : s.isrDue = 0 := by rw [isrDue, hoff]
  have hbalance := h.balance
  rw [hdue] at hbalance
  exact { h with
    balance := hbalance
    isrDue_le := Nat.zero_le _
    counted := nofun
    settled := fun _ hne => absurd rfl hne }

/-- It disables interrupts. -/
theorem disable (h : s.Inv bufsz) (hentered : s.isr = .entered) :
    Inv bufsz { s with isr := .masked } := by
  have hdue : s.isrDue = 0 := by rw [isrDue, hentered]
  have hbalance := h.balance
  rw [hdue] at hbalance
  exact { h with
    balance := hbalance
    isrDue_le := Nat.zero_le _
    counted := nofun
    settled := fun _ _ hmasked => absurd hmasked nofun }

/-- It reads the counter in the lap of {lit}`last_index`. -/
theorem count (h : s.Inv bufsz) (hmasked : s.isr = .masked)
    (hlap : s.CountsInLap bufsz .count) :
    Inv bufsz { s with isr := .counted (bufsz - s.counter) } := by
  have hdue : s.isrDue = 0 := by rw [isrDue, hmasked]
  have hbalance := h.balance
  rw [hdue] at hbalance
  rcases hlap rfl hmasked with ⟨hlast, hidle⟩
  refine { h with
    balance := hbalance
    isrDue_le := Nat.zero_le _
    counted := ?_
    settled := fun _ _ hmasked => absurd hmasked nofun }
  intro total htotal
  cases htotal
  refine ⟨hlast, Nat.sub_le _ _, fun _ => Nat.le_refl _, fun hidleLast => ⟨rfl, ?_⟩⟩
  rcases hidle hidleLast with hcounted | hfull
  · exact .inl hcounted
  · exact .inr (by rw [hfull, Nat.sub_self])

/-- It takes the index for {lit}`last_index`. -/
theorem update (h : s.Inv bufsz) (hsize : bufsz < 65536) {total : Nat}
    (hcounted : s.isr = .counted total) :
    Inv bufsz { s with isr := .report (sizeSub total s.last_index), last_index := total } := by
  have hdue : s.isrDue = 0 := by rw [isrDue, hcounted]
  have hbalance := h.balance
  rcases h.counted total hcounted with ⟨hlast, htop, hlap, hidle⟩
  rw [sizeSub_of_le hlast (by omega)]
  constructor
  · exact h.counter_pos
  · exact h.counter_le
  · exact htop
  · show s.received + total = s.reported.sum + (total - s.last_index) + s.cpltDue +
      s.lapBytes bufsz + (bufsz - s.counter)
    omega
  · exact hlap
  · exact h.lengths
  · show total - s.last_index ≤ bufsz
    omega
  · exact h.cpltDue_le
  · exact nofun
  · intro hidleLast _ _
    exact hidle hidleLast

/-- It reports and returns. -/
theorem isrReport (h : s.Inv bufsz) {recv_len : Nat} (hreport : s.isr = .report recv_len) :
    Inv bufsz { s.report recv_len with isr := .off } := by
  have hdue : s.isrDue = recv_len := by rw [isrDue, hreport]
  have hbalance := h.balance
  have hlen := h.isrDue_le
  rw [hdue] at hbalance hlen
  constructor
  · exact h.counter_pos
  · exact h.counter_le
  · exact h.last_le
  · show s.received + s.last_index = (s.report recv_len).reported.sum + 0 + s.cpltDue +
      s.lapBytes bufsz + (bufsz - s.counter)
    rw [sum_report]
    omega
  · exact h.front
  · exact report_le h.lengths hlen
  · exact Nat.zero_le _
  · exact h.cpltDue_le
  · exact nofun
  · intro hidleLast _ _
    exact h.settled hidleLast (by rw [hreport]; nofun) (by rw [masked, hreport])

/-- The callback begins. -/
theorem cplt (h : s.Inv bufsz) (hpending : s.pending = true) (hoff : s.cplt = .off) :
    Inv bufsz { s with pending := false, cplt := .entered } := by
  have hdue : s.cpltDue = 0 := by rw [cpltDue, hoff]
  have hlap : s.lapBytes bufsz = bufsz := by simp [lapBytes, hpending, hoff]
  have hwaiting : ¬s.LapCounted := fun hcounted => by simp [hcounted.1] at hpending
  have hstill (hcounted : LapCounted { s with pending := false, cplt := .entered }) : False :=
    hcounted.2 rfl
  have hbalance := h.balance
  rw [hdue, hlap] at hbalance
  constructor
  · exact h.counter_pos
  · exact h.counter_le
  · exact h.last_le
  · show s.received + s.last_index = s.reported.sum + s.isrDue + 0 + (0 + bufsz) +
      (bufsz - s.counter)
    omega
  · exact fun hcounted => (hstill hcounted).elim
  · exact h.lengths
  · exact h.isrDue_le
  · exact Nat.zero_le _
  · intro total htotal
    rcases h.counted total htotal with ⟨hlast, htop, -, hidle⟩
    refine ⟨hlast, htop, fun hcounted => (hstill hcounted).elim, fun hidleLast => ?_⟩
    rcases hidle hidleLast with ⟨hindex, hzero⟩
    exact ⟨hindex, .inr (hzero.resolve_left hwaiting)⟩
  · intro hidleLast hne hmasked
    rcases h.settled hidleLast hne hmasked with ⟨hindex, hzero⟩
    exact ⟨hindex, .inr (hzero.resolve_left hwaiting)⟩

/-- The callback resets {lit}`last_index`. -/
theorem cpltUpdate (h : s.Inv bufsz) (hsize : bufsz < 65536) (hentered : s.cplt = .entered)
    (hmasked : s.masked = false) :
    Inv bufsz { s with cplt := .report (sizeSub bufsz s.last_index), last_index := 0 } := by
  have hdue : s.cpltDue = 0 := by rw [cpltDue, hentered]
  have hlast := h.last_le
  have hwaiting : ¬s.LapCounted := fun hcounted => hcounted.2 hentered
  have hbalance := h.balance
  rw [hdue, lapBytes, if_pos hentered] at hbalance
  rw [sizeSub_of_le hlast (by omega)]
  constructor
  · exact h.counter_pos
  · exact h.counter_le
  · exact Nat.zero_le _
  · show s.received + 0 = s.reported.sum + s.isrDue + (bufsz - s.last_index) +
      ((if s.pending then bufsz else 0) + 0) + (bufsz - s.counter)
    omega
  · exact fun _ => Nat.zero_le _
  · exact h.lengths
  · exact h.isrDue_le
  · exact Nat.sub_le _ _
  · intro total htotal
    have : s.masked = true := by rw [masked, htotal]
    rw [hmasked] at this
    contradiction
  · intro hidleLast hne hmasked
    rcases h.settled hidleLast hne hmasked with ⟨hindex, hzero⟩
    -- The index was 0 already, since a lap was waiting.
    exact ⟨(hzero.resolve_left hwaiting).symm.trans hindex, .inr rfl⟩

/-- The callback reports and returns. -/
theorem cpltReport (h : s.Inv bufsz) {recv_len : Nat} (hreport : s.cplt = .report recv_len) :
    Inv bufsz { s.report recv_len with cplt := .off } := by
  have hdue : s.cpltDue = recv_len := by rw [cpltDue, hreport]
  have hlap : s.lapBytes bufsz = if s.pending then bufsz else 0 := by
    simp [lapBytes, hreport]
  have hcounted : LapCounted { s.report recv_len with cplt := .off } ↔ s.LapCounted := by
    simp [LapCounted, hreport, report]
  have hbalance := h.balance
  have hlen := h.cpltDue_le
  rw [hdue] at hbalance hlen
  rw [hlap] at hbalance
  constructor
  · exact h.counter_pos
  · exact h.counter_le
  · exact h.last_le
  · show s.received + s.last_index = (s.report recv_len).reported.sum + s.isrDue + 0 +
      ((if s.pending then bufsz else 0) + 0) + (bufsz - s.counter)
    rw [sum_report]
    omega
  · rw [hcounted]
    exact h.front
  · exact report_le h.lengths hlen
  · exact h.isrDue_le
  · exact Nat.zero_le _
  · rw [hcounted]
    exact h.counted
  · rw [hcounted]
    exact h.settled

end Inv

/-- Every step keeps the invariant when the counter is read in the lap of
{lit}`last_index`. -/
theorem inv_step {bufsz : Nat} {s s' : Uart} {a : UartAction} (hsize : bufsz < 65536)
    (h : s.Inv bufsz) (hlap : s.CountsInLap bufsz a) (hs : s.step bufsz a = some s') :
    s'.Inv bufsz := by
  cases a with
  | byte =>
      simp only [step] at hs
      split_ifs at hs with hlast hpending
      · cases hs
        exact h.byte_of_eq hlast (Bool.eq_false_iff.mpr hpending)
      · cases hs
        exact h.byte_of_ne hlast
  | idle =>
      simp only [step] at hs
      split_ifs at hs with hoff
      cases hs
      exact h.idle hoff
  | disable =>
      simp only [step] at hs
      split_ifs at hs with hentered
      cases hs
      exact h.disable hentered
  | count =>
      simp only [step] at hs
      split_ifs at hs with hmasked
      cases hs
      exact h.count hmasked hlap
  | update =>
      simp only [step] at hs
      split at hs
      · rename_i total hcounted
        cases hs
        exact h.update hsize hcounted
      · contradiction
  | isrReport =>
      simp only [step] at hs
      split at hs
      · rename_i recv_len hreport
        cases hs
        exact h.isrReport hreport
      · contradiction
  | cplt =>
      simp only [step] at hs
      split_ifs at hs with hready
      cases hs
      exact h.cplt hready.1 hready.2.1
  | cpltUpdate =>
      simp only [step] at hs
      split_ifs at hs with hready
      cases hs
      exact h.cpltUpdate hsize hready.1 hready.2
  | cpltReport =>
      simp only [step] at hs
      split at hs
      · rename_i recv_len hreport
        split_ifs at hs with hmasked
        cases hs
        exact h.cpltReport hreport
      · contradiction

/-- Between interrupts all received bytes are reported. -/
theorem Inv.sum_of_quiescent {bufsz : Nat} {s : Uart} (h : s.Inv bufsz) (hquiet : s.Quiescent) :
    s.reported.sum = s.received := by
  rcases hquiet with ⟨hpending, hisr, hcplt, hidle⟩
  have hisrDue : s.isrDue = 0 := by rw [isrDue, hisr]
  have hcpltDue : s.cpltDue = 0 := by rw [cpltDue, hcplt]
  have hlap : s.lapBytes bufsz = 0 := by simp [lapBytes, hpending, hcplt]
  have hindex := (h.settled hidle (by rw [hisr]; nofun) (by rw [masked, hisr])).1
  have hbalance := h.balance
  omega

/-- In every run in which {lit}`uart_isr` reads the counter only in the lap of
{lit}`last_index`, with bytes and interrupts in any order, every length passed to
{lit}`rt_hw_serial_isr` is at most the size of the ring; and whenever no interrupt is pending
or running and the last idle interrupt came after the last byte, the lengths add up to the
bytes received. -/
theorem uart_counts_once (bufsz : UInt16) (hbufsz : bufsz ≠ 0) (as : List UartAction) (t : Uart)
    (hlap : Execution.AllSteps (step bufsz.toNat) (CountsInLap bufsz.toNat)
      (initial bufsz.toNat) as)
    (hrun : Execution.exec (step bufsz.toNat) (initial bufsz.toNat) as = some t) :
    (∀ len ∈ t.reported, len ≤ bufsz.toNat) ∧
      (t.Quiescent → t.reported.sum = t.received) := by
  have hpos : 0 < bufsz.toNat := Nat.pos_of_ne_zero fun h => hbufsz (UInt16.toNat_inj.mp h)
  have hsize : bufsz.toNat < 65536 := bufsz.toNat_lt
  have hinv : t.Inv bufsz.toNat :=
    Execution.exec_invariant (fun s a s' h hlap hs => inv_step hsize h hlap hs)
      (inv_initial hpos) hlap hrun
  exact ⟨hinv.lengths, hinv.sum_of_quiescent⟩

/-- In a ring of four bytes, two bytes are reported for an idle line and two more at the end
of the lap. -/
theorem uart_counts_once_lap :
    (∀ len ∈ (⟨4, false, 0, .off, .off, 4, [2, 2], true⟩ : Uart).reported,
      len ≤ (4 : UInt16).toNat) ∧
      (Quiescent ⟨4, false, 0, .off, .off, 4, [2, 2], true⟩ → [2, 2].sum = 4) :=
  uart_counts_once 4 (by decide)
    [.byte, .byte, .idle, .disable, .count, .update, .isrReport, .byte, .byte, .cplt,
      .cpltUpdate, .cpltReport, .idle, .disable, .count, .update, .isrReport]
    ⟨4, false, 0, .off, .off, 4, [2, 2], true⟩ (by decide +kernel) (by decide +kernel)

/-- The lap ends between the disabling of interrupts and the reading of the counter: of four
bytes in a ring of four, {lit}`uart_isr` reports 4294967294. -/
theorem uart_reads_next_lap :
    ¬∀ (bufsz : UInt16) (as : List UartAction) (t : Uart), bufsz ≠ 0 →
      Execution.exec (step bufsz.toNat) (initial bufsz.toNat) as = some t →
      (∀ len ∈ t.reported, len ≤ bufsz.toNat) ∧
        (t.Quiescent → t.reported.sum = t.received) := by
  intro h
  have hlen := (h 4 [.byte, .byte, .idle, .disable, .count, .update, .isrReport, .byte, .idle,
    .disable, .byte, .count, .update, .isrReport]
    ⟨4, true, 0, .off, .off, 4, [2, 4294967294], false⟩ (by decide) (by decide +kernel)).1
  exact absurd (hlen 4294967294 (by simp)) (by decide)

end Uart

end WeatherStation
