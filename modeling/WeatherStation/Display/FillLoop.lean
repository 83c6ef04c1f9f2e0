import WeatherStation.Foundation.Loop
import WeatherStation.Display.Fill

/-!
# The fast fill, step by step

With a buffer {lit}`lcd_fill` runs an endless loop: it stores the colour to the buffer, sends
the buffer, and either breaks or computes the size of the next transfer.  This module has the
loop with its variables and with the buffer as it was allocated, not yet stored to.

Main results:

- Theorem {lit}`inv_fillStep`: every step keeps what was sent and what is still to be sent
  together, and comes closer to the end.
- Theorem {lit}`fill_completes`: the loop is left, never sends more than the buffer has nor a
  byte that was not stored, and sends the size that was computed first.
- Theorem {lit}`transfers_lcdFill`: it makes the transfers of the drawing call.
-/

open Foundation

namespace WeatherStation

/-! ## The loop -/

/-- Where the loop stands: before the next store to the buffer, before the transfer, or behind
the {lit}`break`. -/
inductive FillPoint where
  | store
  | send
  | left
deriving DecidableEq

/-- The variables of {lit}`lcd_fill`, its buffer, of which a byte has a value once it was
stored to, and the bytes of its transfers so far. -/
structure FillState where
  point : FillPoint
  size : Nat
  size_remain : Nat
  i : Nat
  fill_buf : Nat → Option UInt8
  transfers : List (List (Option UInt8))

namespace FillState

/-- The body of the inner loop; {lit}`i` has 16 bits. -/
def store (color : UInt16) (s : FillState) : FillState :=
  { s with
    i := (s.i + 1) % 65536
    fill_buf :=
      Function.update
        (Function.update s.fill_buf (2 * s.i) (some (color >>> 8).toUInt8))
        (2 * s.i + 1) (some color.toUInt8) }

/-- {lit}`rt_spi_send(spi_dev_lcd, fill_buf, size)` -/
def send (s : FillState) : FillState :=
  { s with transfers := s.transfers ++ [(List.range s.size).map s.fill_buf] }

/-- The number of bytes to fill next time. -/
def next (s : FillState) : FillState :=
  if s.size_remain > LCD_CLEAR_SEND_NUMBER then
    { s with size_remain := s.size_remain - LCD_CLEAR_SEND_NUMBER }
  else { s with size := s.size_remain, size_remain := 0 }

end FillState

/-- The loops of {lit}`lcd_fill`, one step at a time. -/
def fillStep (color : UInt16) (s : FillState) : Option FillState :=
  match s.point with
  | .store => if s.i < s.size / 2 then some (s.store color) else some { s with point := .send }
  | .send =>
      if s.size_remain = 0 then some { s.send with point := .left }
      else some { s.send.next with point := .store, i := 0 }
  | .left => none

/-- {lit}`lcd_fill` after its allocation, which has as many bytes as {lit}`size` says. -/
def fillStart (x_start y_start x_end y_end : Nat) : FillState :=
  let size := fillSize x_start y_start x_end y_end
  { point := .store
    size := if size > LCD_CLEAR_SEND_NUMBER then LCD_CLEAR_SEND_NUMBER else size
    size_remain := if size > LCD_CLEAR_SEND_NUMBER then size - LCD_CLEAR_SEND_NUMBER else 0
    i := 0
    fill_buf := fun _ => none
    transfers := [] }

/-! ## The colour in the buffer -/

/-- The byte of the colour at an address of the buffer. -/
def colorByte (color : UInt16) (k : Nat) : UInt8 :=
  if k % 2 = 0 then (color >>> 8).toUInt8 else color.toUInt8

/-- A transfer of the colour. -/
def filled (color : UInt16) (n : Nat) : List (Option UInt8) :=
  (List.range n).map fun k => some (colorByte color k)

@[simp] theorem length_filled (color : UInt16) (n : Nat) : (filled color n).length = n := by
  rw [filled, List.length_map, List.length_range]

theorem getElem?_filled (color : UInt16) {n k : Nat} (hk : k < n) :
    (filled color n)[k]? = some (some (colorByte color k)) := by
  rw [filled, List.getElem?_map, List.getElem?_range hk, Option.map_some]

/-- The bytes of as many half-words. -/
theorem filled_two_mul (color : UInt16) (m : Nat) :
    filled color (2 * m) = ((List.replicate m color).flatMap halfWordBytes).map some := by
  induction m with
  | zero => rfl
  | succ m ih =>
      have heven : 2 * m % 2 = 0 := by omega
      have hodd : (2 * m + 1) % 2 ≠ 0 := by omega
      rw [List.replicate_succ', List.flatMap_append, List.map_append, ← ih,
        List.flatMap_singleton, halfWordBytes, ← toUInt8_shiftRight_eight, Nat.mul_succ, filled,
        filled, List.range_succ, List.range_succ, List.append_assoc, List.map_append]
      simp only [List.map_cons, List.map_nil, List.singleton_append, colorByte, heven, hodd,
        if_true, if_false]

namespace FillState

/-- The chunks that are still to be sent. -/
def pending (s : FillState) : List Nat :=
  match s.point with
  | .left => []
  | _ => fillChunks s.size s.size_remain

/-- The number of bytes of the buffer that have the colour of this transfer. -/
def loaded (s : FillState) : Nat :=
  match s.point with
  | .store => 2 * s.i
  | .send => s.size
  | .left => 0

/-- What every step keeps, for a buffer of {lit}`allocated` bytes. -/
structure Inv (color : UInt16) (allocated : Nat) (chunks : List Nat) (s : FillState) : Prop where
  /-- What was sent and what is pending make up the chunks. -/
  sent : s.transfers ++ s.pending.map (filled color) = chunks.map (filled color)
  /-- A transfer that is not the last one is full. -/
  full : s.size_remain = 0 ∨ s.size = LCD_CLEAR_SEND_NUMBER
  fits : s.size ≤ allocated
  even : s.size % 2 = 0
  even_remain : s.size_remain % 2 = 0
  index : s.i ≤ s.size / 2
  color : ∀ k, k < s.loaded → s.fill_buf k = some (colorByte color k)
  inside : ∀ k, s.fill_buf k ≠ none → k < allocated

/-- The stores and transfers that are still possible at most. -/
def remaining (s : FillState) : Nat :=
  match s.point with
  | .store => LCD_CLEAR_SEND_NUMBER * s.size_remain + (s.size / 2 - s.i) + 2
  | .send => LCD_CLEAR_SEND_NUMBER * s.size_remain + 1
  | .left => 0

end FillState

/-! ## The next transfer -/

namespace FillState

variable {s : FillState}

@[simp] theorem next_transfers : s.next.transfers = s.transfers := by
  unfold next
  split_ifs <;> rfl

@[simp] theorem next_fill_buf : s.next.fill_buf = s.fill_buf := by
  unfold next
  split_ifs <;> rfl

/-- The sizes that follow are those of the other chunks. -/
theorem fillChunks_next (hremain : s.size_remain ≠ 0) :
    fillChunks s.size s.size_remain = s.size :: fillChunks s.next.size s.next.size_remain := by
  rw [fillChunks, if_neg hremain, next]
  split_ifs <;> rfl

/-- Behind a full transfer nothing remains or the next one is full, too. -/
theorem next_bounds (hsize : s.size = LCD_CLEAR_SEND_NUMBER) :
    (s.next.size_remain = 0 ∨ s.next.size = LCD_CLEAR_SEND_NUMBER) ∧ s.next.size ≤ s.size := by
  unfold next
  split_ifs with hmore
  · exact ⟨.inr hsize, le_rfl⟩
  · exact ⟨.inl rfl, hsize ▸ Nat.le_of_not_lt hmore⟩

theorem next_even (heven : s.size % 2 = 0) (heven_remain : s.size_remain % 2 = 0) :
    s.next.size % 2 = 0 ∧ s.next.size_remain % 2 = 0 := by
  have hchunk : LCD_CLEAR_SEND_NUMBER % 2 = 0 := rfl
  unfold next
  split_ifs with hmore
  · exact ⟨heven, by dsimp only; omega⟩
  · exact ⟨heven_remain, rfl⟩

/-- The next size is paid for by what remains behind it. -/
theorem remaining_next (hsize : s.size ≤ LCD_CLEAR_SEND_NUMBER) (hremain : s.size_remain ≠ 0) :
    LCD_CLEAR_SEND_NUMBER * s.next.size_remain + s.next.size / 2 + 2 ≤
      LCD_CLEAR_SEND_NUMBER * s.size_remain := by
  unfold LCD_CLEAR_SEND_NUMBER at *
  unfold next
  unfold LCD_CLEAR_SEND_NUMBER
  split_ifs <;> dsimp only <;> omega

end FillState

/-! ## Steps -/

/-- What a step can do. -/
theorem fillStep_cases {color : UInt16} {s s' : FillState} (h : fillStep color s = some s') :
    (s.point = .store ∧ s.i < s.size / 2 ∧ s' = s.store color) ∨
      (s.point = .store ∧ s.size / 2 ≤ s.i ∧ s' = { s with point := .send }) ∨
      (s.point = .send ∧ s.size_remain = 0 ∧ s' = { s.send with point := .left }) ∨
      (s.point = .send ∧ s.size_remain ≠ 0 ∧
        s' = { s.send.next with point := .store, i := 0 }) := by
  unfold fillStep at h
  cases hpoint : s.point with
  | store =>
      rw [hpoint] at h
      dsimp only at h
      split_ifs at h with hi
      · exact .inl ⟨rfl, hi, (Option.some.inj h).symm⟩
      · exact .inr (.inl ⟨rfl, Nat.le_of_not_lt hi, (Option.some.inj h).symm⟩)
  | send =>
      rw [hpoint] at h
      dsimp only at h
      split_ifs at h with hremain
      · exact .inr (.inr (.inl ⟨rfl, hremain, (Option.some.inj h).symm⟩))
      · exact .inr (.inr (.inr ⟨rfl, hremain, (Option.some.inj h).symm⟩))
  | left =>
      rw [hpoint] at h
      exact absurd h.symm (Option.some_ne_none s')

theorem left_fillStep_iff {color : UInt16} {s : FillState} :
    Loop.Left (fillStep color) s ↔ s.point = .left := by
  rw [Loop.Left, fillStep]
  cases s.point with
  | store => dsimp only; split_ifs <;> simp
  | send => dsimp only; split_ifs <;> simp
  | left => simp

namespace FillState

section Steps

variable {color : UInt16} {allocated : Nat} {chunks : List Nat} {s : FillState}

/-- The two stores of one half-word. -/
theorem store_apply (color : UInt16) (s : FillState) (k : Nat) :
    (s.store color).fill_buf k =
      if k = 2 * s.i ∨ k = 2 * s.i + 1 then some (colorByte color k) else s.fill_buf k := by
  have heven : 2 * s.i % 2 = 0 := by omega
  have hodd : (2 * s.i + 1) % 2 ≠ 0 := by omega
  simp only [store, Function.update_apply]
  by_cases hlow : k = 2 * s.i + 1
  · rw [if_pos hlow, if_pos (.inr hlow), hlow, colorByte, if_neg hodd]
  · by_cases hhigh : k = 2 * s.i
    · rw [if_neg hlow, if_pos hhigh, if_pos (.inl hhigh), hhigh, colorByte, if_pos heven]
    · rw [if_neg hlow, if_neg hhigh, if_neg (not_or.mpr ⟨hhigh, hlow⟩)]

/-- The index of the buffer does not wrap around. -/
theorem next_index (hlarge : allocated ≤ LCD_CLEAR_SEND_NUMBER) (h : s.Inv color allocated chunks)
    (hi : s.i < s.size / 2) : (s.i + 1) % 65536 = s.i + 1 := by
  have hfits := h.fits
  unfold LCD_CLEAR_SEND_NUMBER at hlarge
  omega

/-- A store inside the buffer. -/
theorem inv_store (hlarge : allocated ≤ LCD_CLEAR_SEND_NUMBER) (h : s.Inv color allocated chunks)
    (hpoint : s.point = .store) (hi : s.i < s.size / 2) :
    (s.store color).Inv color allocated chunks := by
  have hnext := next_index hlarge h hi
  have hfits := h.fits
  have hloaded : (s.store color).loaded = 2 * (s.i + 1) := by
    rw [← hnext, loaded, store, hpoint]
  have hprevious : s.loaded = 2 * s.i := by
    rw [loaded, hpoint]
  constructor
  case sent => exact h.sent
  case full => exact h.full
  case fits => exact h.fits
  case even => exact h.even
  case even_remain => exact h.even_remain
  case index => exact hnext.trans_le hi
  case color =>
      intro k hk
      rw [store_apply]
      split_ifs with hnew
      · rfl
      · exact h.color k (by omega)
  case inside =>
      intro k hk
      rw [store_apply] at hk
      split_ifs at hk with hnew
      · omega
      · exact h.inside k hk

/-- Behind the inner loop the bytes of the transfer have the colour. -/
theorem inv_stored (h : s.Inv color allocated chunks) (hpoint : s.point = .store)
    (hi : s.size / 2 ≤ s.i) :
    ({ s with point := .send } : FillState).Inv color allocated chunks := by
  have heven := h.even
  have hloaded : s.loaded = 2 * s.i := by
    rw [loaded, hpoint]
  have hsent := h.sent
  rw [pending, hpoint] at hsent
  refine ⟨hsent, h.full, h.fits, h.even, h.even_remain, h.index, fun k hk => ?_, h.inside⟩
  have hk : k < s.size := hk
  exact h.color k (by omega)

/-- The transfer is one of the colour. -/
theorem transfers_send (h : s.Inv color allocated chunks) (hpoint : s.point = .send) :
    s.send.transfers = s.transfers ++ [filled color s.size] := by
  have hloaded : s.loaded = s.size := by
    rw [loaded, hpoint]
  refine congrArg (fun t => s.transfers ++ [t]) (List.map_congr_left fun k hk => ?_)
  exact h.color k (hloaded.symm ▸ List.mem_range.mp hk)

/-- The last transfer. -/
theorem inv_last (h : s.Inv color allocated chunks) (hpoint : s.point = .send)
    (hremain : s.size_remain = 0) :
    ({ s.send with point := .left } : FillState).Inv color allocated chunks := by
  have hsent := h.sent
  rw [pending, hpoint, hremain] at hsent
  dsimp only at hsent
  rw [fillChunks, if_pos rfl, List.map_singleton] at hsent
  refine ⟨?_, h.full, h.fits, h.even, h.even_remain, h.index, fun k hk => ?_, h.inside⟩
  · dsimp only [pending]
    rw [transfers_send h hpoint, hsent, List.map_nil, List.append_nil]
  · exact absurd hk (Nat.not_lt_zero k)

/-- A transfer with more to follow. -/
theorem inv_next (h : s.Inv color allocated chunks) (hpoint : s.point = .send)
    (hremain : s.size_remain ≠ 0) :
    ({ s.send.next with point := .store, i := 0 } : FillState).Inv color allocated chunks := by
  have hsize := h.full.resolve_left hremain
  have hchunks : fillChunks s.size s.size_remain =
      s.size :: fillChunks s.send.next.size s.send.next.size_remain :=
    fillChunks_next (s := s.send) hremain
  rcases next_bounds (s := s.send) hsize with ⟨hfull, hle⟩
  rcases next_even (s := s.send) h.even h.even_remain with ⟨heven, heven_remain⟩
  constructor
  case sent =>
      have hsent := h.sent
      rw [pending, hpoint] at hsent
      dsimp only at hsent
      rw [hchunks, List.map_cons] at hsent
      dsimp only [pending]
      rw [next_transfers, transfers_send h hpoint, List.append_assoc]
      exact hsent
  case full => exact hfull
  case fits => exact hle.trans h.fits
  case even => exact heven
  case even_remain => exact heven_remain
  case index => exact Nat.zero_le _
  case color =>
      intro k hk
      exact absurd hk (Nat.not_lt_zero k)
  case inside =>
      intro k hk
      dsimp only at hk
      rw [next_fill_buf] at hk
      exact h.inside k hk

/-- Every step keeps the invariant and leaves fewer steps to come. -/
theorem inv_fillStep {s' : FillState} (hlarge : allocated ≤ LCD_CLEAR_SEND_NUMBER)
    (h : s.Inv color allocated chunks) (hstep : fillStep color s = some s') :
    s'.Inv color allocated chunks ∧ s'.remaining < s.remaining := by
  rcases fillStep_cases hstep with ⟨hpoint, hi, rfl⟩ | ⟨hpoint, hi, rfl⟩ | ⟨hpoint, hremain, rfl⟩ |
    ⟨hpoint, hremain, rfl⟩
  · refine ⟨inv_store hlarge h hpoint hi, ?_⟩
    have hnext := next_index hlarge h hi
    simp only [remaining, store, hpoint, hnext]
    omega
  · refine ⟨inv_stored h hpoint hi, ?_⟩
    simp only [remaining, hpoint]
    omega
  · refine ⟨inv_last h hpoint hremain, ?_⟩
    simp only [remaining, hpoint]
    omega
  · refine ⟨inv_next h hpoint hremain, ?_⟩
    have hpaid : LCD_CLEAR_SEND_NUMBER * s.send.next.size_remain + s.send.next.size / 2 + 2 ≤
        LCD_CLEAR_SEND_NUMBER * s.size_remain :=
      remaining_next (s := s.send) (h.fits.trans hlarge) hremain
    simp only [remaining, hpoint]
    omega

/-- Every transfer that was made is one of the chunks. -/
theorem Inv.exists_chunk (h : s.Inv color allocated chunks) {t : List (Option UInt8)}
    (ht : t ∈ s.transfers) : ∃ n ∈ chunks, filled color n = t := by
  have hmem : t ∈ chunks.map (filled color) := h.sent ▸ List.mem_append_left _ ht
  exact List.mem_map.mp hmem

/-- Behind the loop all chunks were sent. -/
theorem Inv.transfers_of_left (h : s.Inv color allocated chunks) (hpoint : s.point = .left) :
    s.transfers = chunks.map (filled color) := by
  have hsent := h.sent
  rw [pending, hpoint] at hsent
  rwa [List.map_nil, List.append_nil] at hsent

end Steps

end FillState

/-! ## The rectangle -/

section Rectangle

variable (x_start y_start x_end y_end : Nat) (color : UInt16)

/-- The chunks that are sent for a rectangle. -/
def startChunks : List Nat :=
  fillChunks (fillStart x_start y_start x_end y_end).size
    (fillStart x_start y_start x_end y_end).size_remain

/-- Either nothing remains behind the first transfer or it is full. -/
theorem full_fillStart :
    (fillStart x_start y_start x_end y_end).size_remain = 0 ∨
      (fillStart x_start y_start x_end y_end).size = LCD_CLEAR_SEND_NUMBER := by
  dsimp only [fillStart]
  split_ifs
  · exact .inr rfl
  · exact .inl rfl

theorem sum_startChunks :
    (startChunks x_start y_start x_end y_end).sum = fillSize x_start y_start x_end y_end := by
  rw [startChunks, sum_fillChunks (full_fillStart ..)]
  dsimp only [fillStart]
  split_ifs <;> omega

/-- At most one full chunk is allocated. -/
theorem size_fillStart_le :
    (fillStart x_start y_start x_end y_end).size ≤ LCD_CLEAR_SEND_NUMBER := by
  dsimp only [fillStart]
  split_ifs <;> omega

/-- The computed size is even. -/
theorem even_fillSize : fillSize x_start y_start x_end y_end % 2 = 0 := by
  unfold fillSize
  omega

theorem inv_fillStart :
    (fillStart x_start y_start x_end y_end).Inv color
      (fillStart x_start y_start x_end y_end).size (startChunks x_start y_start x_end y_end) := by
  have heven := even_fillSize x_start y_start x_end y_end
  have hchunk : LCD_CLEAR_SEND_NUMBER % 2 = 0 := rfl
  constructor
  case sent => rfl
  case full => exact full_fillStart ..
  case fits => exact le_rfl
  case even =>
      dsimp only [fillStart]
      split_ifs <;> omega
  case even_remain =>
      dsimp only [fillStart]
      split_ifs <;> omega
  case index => exact Nat.zero_le _
  case color => exact fun k hk => absurd hk (Nat.not_lt_zero k)
  case inside => exact fun k hk => absurd rfl hk

/-- The state after any number of steps. -/
theorem inv_fillRounds (n : Nat) :
    (Loop.rounds (fillStep color) n (fillStart x_start y_start x_end y_end)).Inv color
      (fillStart x_start y_start x_end y_end).size (startChunks x_start y_start x_end y_end) :=
  Loop.rounds_invariant
    (fun _ _ h hstep => (FillState.inv_fillStep (size_fillStart_le ..) h hstep).1)
    (inv_fillStart ..) n

/-- The loop makes the transfers of the drawing call. -/
theorem transfers_lcdFill {n : Nat}
    (hleft : Loop.Left (fillStep color)
      (Loop.rounds (fillStep color) n (fillStart x_start y_start x_end y_end))) :
    (Loop.rounds (fillStep color) n (fillStart x_start y_start x_end y_end)).transfers =
      (lcdFill true x_start y_start x_end y_end color).sends.map fun s =>
        (s.pixels.flatMap halfWordBytes).map some := by
  have hinv := inv_fillRounds x_start y_start x_end y_end color n
  have hstart := inv_fillStart x_start y_start x_end y_end color
  have heven : ∀ k ∈ startChunks x_start y_start x_end y_end, k % 2 = 0 :=
    even_fillChunks hstart.even hstart.even_remain
  have hsends : (lcdFill true x_start y_start x_end y_end color).sends =
      (startChunks x_start y_start x_end y_end).map fun k =>
        (⟨true, List.replicate (k / 2) color⟩ : Send) := by
    rw [lcdFill, if_pos rfl, fastFill, startChunks]
    dsimp only [fillStart]
    split_ifs <;> rfl
  rw [hinv.transfers_of_left (left_fillStep_iff.mp hleft), hsends, List.map_map]
  refine List.map_congr_left fun k hk => ?_
  obtain ⟨m, rfl⟩ : ∃ m, k = 2 * m := ⟨k / 2, by have := heven k hk; omega⟩
  rw [filled_two_mul, Function.comp_apply, Nat.mul_div_cancel_left m Nat.two_pos]

/-- For every rectangle on the panel, with a buffer, the loop is left after finitely many
steps and has then sent two bytes for each pixel that the rectangle has without its last row
and column.  At every time, the buffer was stored to inside its allocation only, and every
transfer so far was at most as long as the allocation and had bytes of the colour only. -/
theorem fill_completes (hx : x_start < x_end) (hx' : x_end ≤ LCD_W) (hy : y_start < y_end)
    (hy' : y_end ≤ LCD_H) :
    let start := fillStart x_start y_start x_end y_end
    let after (n : Nat) : FillState := Loop.rounds (fillStep color) n start
    (∃ n, Loop.Left (fillStep color) (after n) ∧
      ((after n).transfers.map List.length).sum = 2 * (x_end - x_start) * (y_end - y_start)) ∧
    ∀ n, (∀ k, (after n).fill_buf k ≠ none → k < start.size) ∧
      ∀ t ∈ (after n).transfers, t.length ≤ start.size ∧
        ∀ k, k < t.length → t[k]? = some (some (colorByte color k)) := by
  intro start after
  constructor
  · obtain ⟨n, hleft, hinv⟩ := Loop.exists_left (m := FillState.remaining)
      (fun _ _ h hstep => FillState.inv_fillStep (size_fillStart_le ..) h hstep)
      (inv_fillStart x_start y_start x_end y_end color)
    refine ⟨n, hleft, ?_⟩
    have hlengths : (List.length ∘ filled color : Nat → Nat) = id :=
      funext (length_filled color)
    rw [hinv.transfers_of_left (left_fillStep_iff.mp hleft), List.map_map, hlengths, List.map_id,
      sum_startChunks, fillSize_eq hx.le hx' hy.le hy', Nat.mul_comm, Nat.mul_assoc]
  · intro n
    have hinv := inv_fillRounds x_start y_start x_end y_end color n
    refine ⟨hinv.inside, fun t ht => ?_⟩
    obtain ⟨k, hk, rfl⟩ := hinv.exists_chunk ht
    have hle := le_fillChunks (full_fillStart x_start y_start x_end y_end) k hk
    refine ⟨(length_filled color k).trans_le hle, fun j hj => ?_⟩
    exact getElem?_filled color (hj.trans_eq (length_filled color k))

/-- The whole panel takes twenty full chunks. -/
theorem fill_completes_panel :
    ∃ n, Loop.Left (fillStep RED) (Loop.rounds (fillStep RED) n (fillStart 0 0 240 240)) ∧
      ((Loop.rounds (fillStep RED) n (fillStart 0 0 240 240)).transfers.map List.length).sum =
        2 * (240 - 0) * (240 - 0) :=
  (fill_completes 0 0 240 240 RED (by decide) (by decide) (by decide) (by decide)).1

end Rectangle

end WeatherStation
