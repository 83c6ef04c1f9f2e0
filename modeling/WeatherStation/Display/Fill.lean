import Mathlib.Tactic.Ring
import WeatherStation.Display.Glyph

/-!
# Filling a rectangle

{lit}`lcd_fill` addresses a window with inclusive ends.  When its buffer is allocated it
sends the colour in chunks of at most 5760 bytes, otherwise pixel by pixel.

Main results:

- Theorem {lit}`sum_fillChunks`: the chunks add up to the size that is computed first.
- Theorem {lit}`mem_fillChunks`: a chunk is the first one, or at most a full one with full
  ones before it.
- Theorem {lit}`fill_differs`: the pixel loop fills the window, the chunks leave out one
  row and one column of it.
-/

open Foundation

namespace WeatherStation

/-- {lit}`LCD_CLEAR_SEND_NUMBER` -/
def LCD_CLEAR_SEND_NUMBER : Nat := 5760

/-- The bytes of each transfer of the fast fill, with what is left after the first. -/
def fillChunks (size size_remain : Nat) : List Nat :=
  if size_remain = 0 then [size]
  else if size_remain > LCD_CLEAR_SEND_NUMBER then
    size :: fillChunks size (size_remain - LCD_CLEAR_SEND_NUMBER)
  else size :: fillChunks size_remain 0
termination_by size_remain
decreasing_by
  · exact Nat.sub_lt (by omega) (by decide)
  · omega

/-- The number of bytes that {lit}`lcd_fill` computes for a rectangle. -/
def fillSize (x_start y_start x_end y_end : Nat) : Nat :=
  ((x_end - x_start : Int) * (y_end - y_start) * 2 % 4294967296).toNat

/-- The transfers of the fast fill. -/
def fastFill (size : Nat) (color : UInt16) : List Send :=
  let chunks :=
    if size > LCD_CLEAR_SEND_NUMBER then
      fillChunks LCD_CLEAR_SEND_NUMBER (size - LCD_CLEAR_SEND_NUMBER)
    else fillChunks size 0
  chunks.map fun n => ⟨true, List.replicate (n / 2) color⟩

/-- {lit}`lcd_fill`, by the result of its allocation, which may succeed for zero bytes too:
the heap then gives out a block of its least size. -/
def lcdFill (fill_buf : Bool) (x_start y_start x_end y_end : Nat) (color : UInt16) : Draw where
  window := some ⟨x_start, y_start, x_end, y_end⟩
  sends :=
    if fill_buf then fastFill (fillSize x_start y_start x_end y_end) color
    else
      (List.range (y_end + 1 - y_start)).flatMap fun _ =>
        (List.range (x_end + 1 - x_start)).map fun _ => lcdWriteHalfWord color

/-! ## The chunks -/

/-- The chunks add up: the first one is full whenever there are more. -/
theorem sum_fillChunks {size size_remain : Nat}
    (h : size_remain = 0 ∨ size = LCD_CLEAR_SEND_NUMBER) :
    (fillChunks size size_remain).sum = size + size_remain := by
  induction size, size_remain using fillChunks.induct with
  | case1 size => rw [fillChunks, if_pos rfl, List.sum_singleton, Nat.add_zero]
  | case2 size size_remain hmore hfull ih =>
      have hsize := h.resolve_left hmore
      rw [fillChunks, if_neg hmore, if_pos hfull, List.sum_cons, ih (.inr hsize)]
      omega
  | case3 size size_remain hmore hlast ih =>
      rw [fillChunks, if_neg hmore, if_neg hlast, List.sum_cons, ih (.inl rfl), Nat.add_zero]

/-- Every chunk but the first one is at most a full one, and what remained before the
chunks is this one with full ones. -/
theorem mem_fillChunks {size size_remain n : Nat} (hn : n ∈ fillChunks size size_remain) :
    n = size ∨ (size_remain ≠ 0 ∧ n ≤ LCD_CLEAR_SEND_NUMBER ∧
      ∃ k, size_remain = n + LCD_CLEAR_SEND_NUMBER * k) := by
  induction size, size_remain using fillChunks.induct with
  | case1 size =>
      rw [fillChunks, if_pos rfl] at hn
      exact .inl (List.mem_singleton.mp hn)
  | case2 size size_remain hmore hfull ih =>
      rw [fillChunks, if_neg hmore, if_pos hfull] at hn
      rcases List.mem_cons.mp hn with hfirst | hrest
      · exact .inl hfirst
      · refine (ih hrest).imp_right fun hlater => ?_
        rcases hlater with ⟨-, hle, k, hk⟩
        refine ⟨hmore, hle, k + 1, ?_⟩
        rw [Nat.mul_succ, ← Nat.add_assoc, ← hk, Nat.sub_add_cancel hfull.le]
  | case3 size size_remain hmore hlast ih =>
      rw [fillChunks, if_neg hmore, if_neg hlast] at hn
      rcases List.mem_cons.mp hn with hfirst | hrest
      · exact .inl hfirst
      · rcases ih hrest with rfl | hnone
        · exact .inr ⟨hmore, Nat.le_of_not_lt hlast, 0, rfl⟩
        · exact absurd rfl hnone.1

/-- No chunk is larger than the first one. -/
theorem le_fillChunks {size size_remain : Nat}
    (h : size_remain = 0 ∨ size = LCD_CLEAR_SEND_NUMBER) :
    ∀ n ∈ fillChunks size size_remain, n ≤ size := by
  intro n hn
  rcases mem_fillChunks hn with rfl | ⟨hmore, hle, -⟩
  · exact le_rfl
  · exact hle.trans (h.resolve_left hmore).ge

/-- All chunks of an even size are even. -/
theorem even_fillChunks {size size_remain : Nat} (hsize : size % 2 = 0)
    (hremain : size_remain % 2 = 0) : ∀ n ∈ fillChunks size size_remain, n % 2 = 0 := by
  intro n hn
  rcases mem_fillChunks hn with rfl | ⟨-, -, k, rfl⟩
  · exact hsize
  · unfold LCD_CLEAR_SEND_NUMBER at hremain
    omega

/-- Transfers of one colour from a buffer of even chunks. -/
theorem flatMap_chunks {chunks : List Nat} (heven : ∀ n ∈ chunks, n % 2 = 0) (color : UInt16) :
    (chunks.map fun n => (⟨true, List.replicate (n / 2) color⟩ : Send)).flatMap Send.pixels =
      List.replicate (chunks.sum / 2) color := by
  induction chunks with
  | nil => rfl
  | cons n chunks ih =>
      rcases List.forall_mem_cons.mp heven with ⟨hn, hchunks⟩
      rw [List.map_cons, List.flatMap_cons, ih hchunks, List.replicate_append_replicate,
        List.sum_cons]
      congr 1
      omega

/-- The fast fill sends the computed number of bytes. -/
theorem flatMap_fastFill {size : Nat} (heven : size % 2 = 0) (color : UInt16) :
    (fastFill size color).flatMap Send.pixels = List.replicate (size / 2) color := by
  have hfull : LCD_CLEAR_SEND_NUMBER % 2 = 0 := rfl
  unfold fastFill
  split_ifs with hlarge
  · have hremain : (size - LCD_CLEAR_SEND_NUMBER) % 2 = 0 := by omega
    rw [flatMap_chunks (even_fillChunks hfull hremain), sum_fillChunks (.inr rfl),
      Nat.add_sub_cancel' (Nat.le_of_lt hlarge)]
  · rw [flatMap_chunks (even_fillChunks heven rfl), sum_fillChunks (.inl rfl), Nat.add_zero]

/-! ## Both ways of filling -/

section Rectangle

variable {x_start y_start x_end y_end : Nat}

/-- The computed size leaves out the last row and the last column. -/
theorem fillSize_eq (hx : x_start ≤ x_end) (hx' : x_end ≤ LCD_W) (hy : y_start ≤ y_end)
    (hy' : y_end ≤ LCD_H) :
    fillSize x_start y_start x_end y_end = (x_end - x_start) * (y_end - y_start) * 2 := by
  have hbound : (x_end - x_start) * (y_end - y_start) ≤ 240 * 240 :=
    Nat.mul_le_mul ((Nat.sub_le _ _).trans hx') ((Nat.sub_le _ _).trans hy')
  have hcast : (x_end - x_start : Int) * (y_end - y_start) =
      ((x_end - x_start) * (y_end - y_start) : Nat) := by
    rw [Int.natCast_mul, Int.natCast_sub hx, Int.natCast_sub hy]
  rw [fillSize, hcast]
  omega

theorem pixels_lcdFill_true (hx : x_start ≤ x_end) (hx' : x_end ≤ 239) (hy : y_start ≤ y_end)
    (hy' : y_end ≤ 239) (color : UInt16) :
    (lcdFill true x_start y_start x_end y_end color).pixels =
      List.replicate ((x_end - x_start) * (y_end - y_start)) color := by
  have hsize := fillSize_eq hx (hx'.trans (Nat.le_succ 239)) hy (hy'.trans (Nat.le_succ 239))
  rw [Draw.pixels, lcdFill, if_pos rfl, hsize, flatMap_fastFill (by omega)]
  congr 1
  omega

/-- The pixel loop fills the whole window. -/
theorem pixels_lcdFill_false (color : UInt16) :
    (lcdFill false x_start y_start x_end y_end color).pixels =
      List.replicate (Window.area ⟨x_start, y_start, x_end, y_end⟩) color := by
  rw [List.eq_replicate_iff]
  constructor
  · simp [Draw.pixels, lcdFill, List.flatMap_assoc, List.length_flatMap, lcdWriteHalfWord,
      Window.area, Window.width, Window.height, Nat.mul_comm]
  · intro c hc
    simp only [Draw.pixels, lcdFill, Bool.false_eq_true, if_false, List.mem_flatMap,
      List.mem_map] at hc
    rcases hc with ⟨-, ⟨-, -, -, -, rfl⟩, hc⟩
    simpa [lcdWriteHalfWord] using hc

/-- Both ways make valid drawing calls. -/
theorem valid_lcdFill (hx : x_start ≤ x_end) (hx' : x_end ≤ 239) (hy : y_start ≤ y_end)
    (hy' : y_end ≤ 239) (fill_buf : Bool) (color : UInt16) :
    (lcdFill fill_buf x_start y_start x_end y_end color).Valid where
  window := by
    refine ⟨_, rfl, ⟨hx, hy, Nat.lt_succ_of_le hx', Nat.lt_succ_of_le hy'⟩, ?_⟩
    cases fill_buf with
    | true =>
        rw [pixels_lcdFill_true hx hx' hy hy', List.length_replicate]
        exact Nat.mul_le_mul (by simp only [Window.width]; omega)
          (by simp only [Window.height]; omega)
    | false =>
        rw [pixels_lcdFill_false, List.length_replicate]
  pin s hs := by
    have hall : ∀ s ∈ (lcdFill fill_buf x_start y_start x_end y_end color).sends,
        s.setPin = true := by
      cases fill_buf with
      | true =>
          simp only [lcdFill, fastFill, if_true, List.forall_mem_map, implies_true]
      | false =>
          simp only [lcdFill, Bool.false_eq_true, if_false, List.mem_flatMap, List.mem_map]
          rintro s ⟨-, -, -, -, rfl⟩
          rfl
    exact hall s (List.mem_of_mem_head? hs)

/-- The last pixel of the rectangle is painted by the pixel loop only. -/
theorem layer_lcdFill_last (hx : x_start ≤ x_end) (hx' : x_end ≤ 239) (hy : y_start ≤ y_end)
    (hy' : y_end ≤ 239) (color : UInt16) :
    (lcdFill true x_start y_start x_end y_end color).layer (x_end, y_end) = none ∧
      (lcdFill false x_start y_start x_end y_end color).layer (x_end, y_end) = some color := by
  have hlast : (⟨x_start, y_start, x_end, y_end⟩ : Window).Contains (x_end, y_end) :=
    ⟨hx, le_rfl, hy, le_rfl⟩
  have harea := Window.index_lt_area hlast
  constructor
  · change Window.layer ⟨x_start, y_start, x_end, y_end⟩ (Draw.pixels _) _ = none
    rw [pixels_lcdFill_true hx hx' hy hy', Window.layer, if_pos hlast]
    refine List.getElem?_eq_none ?_
    rw [List.length_replicate]
    calc (x_end - x_start) * (y_end - y_start)
        ≤ (x_end + 1 - x_start) * (y_end - y_start) := Nat.mul_le_mul_right _ (by omega)
      _ ≤ (x_end - x_start) + (x_end + 1 - x_start) * (y_end - y_start) := Nat.le_add_left _ _
  · change Window.layer ⟨x_start, y_start, x_end, y_end⟩ (Draw.pixels _) _ = some color
    rw [pixels_lcdFill_false, Window.layer, if_pos hlast]
    exact List.getElem?_replicate_of_lt harea

end Rectangle

/-- Both ways of filling send a pixel for each pixel of the window and so leave the same
panel. -/
structure FillAgrees (x_start y_start x_end y_end : Nat) (color : UInt16) : Prop where
  count : ∀ fill_buf, (lcdFill fill_buf x_start y_start x_end y_end color).pixels.length =
    Window.area ⟨x_start, y_start, x_end, y_end⟩
  panel : ∀ s : Lcd,
    (s.receiveAll (lcdFill true x_start y_start x_end y_end color).events).panel =
      (s.receiveAll (lcdFill false x_start y_start x_end y_end color).events).panel

/-- For every rectangle on the panel the pixel loop sends as many pixels as the window has,
and the chunks send one row and one column less.  They never fill the window, and from a
panel of another colour they never leave the panel that the pixel loop leaves. -/
theorem fill_differs {x_start y_start x_end y_end : Nat} (hx : x_start ≤ x_end)
    (hx' : x_end ≤ 239) (hy : y_start ≤ y_end) (hy' : y_end ≤ 239) (color : UInt16) :
    (lcdFill false x_start y_start x_end y_end color).pixels.length =
        Window.area ⟨x_start, y_start, x_end, y_end⟩ ∧
      (lcdFill true x_start y_start x_end y_end color).pixels.length =
        (x_end - x_start) * (y_end - y_start) ∧
      (lcdFill true x_start y_start x_end y_end color).pixels.length <
        Window.area ⟨x_start, y_start, x_end, y_end⟩ ∧
      (∀ s : Lcd, s.panel (x_end, y_end) ≠ color →
        (s.receiveAll (lcdFill true x_start y_start x_end y_end color).events).panel ≠
          (s.receiveAll (lcdFill false x_start y_start x_end y_end color).events).panel) ∧
      ¬FillAgrees x_start y_start x_end y_end color := by
  have hfalse : (lcdFill false x_start y_start x_end y_end color).pixels.length =
      Window.area ⟨x_start, y_start, x_end, y_end⟩ := by
    rw [pixels_lcdFill_false, List.length_replicate]
  have htrue : (lcdFill true x_start y_start x_end y_end color).pixels.length =
      (x_end - x_start) * (y_end - y_start) := by
    rw [pixels_lcdFill_true hx hx' hy hy', List.length_replicate]
  have hless : (x_end - x_start) * (y_end - y_start) <
      Window.area ⟨x_start, y_start, x_end, y_end⟩ := by
    calc (x_end - x_start) * (y_end - y_start)
        ≤ (x_end - x_start) * (y_end + 1 - y_start) := Nat.mul_le_mul_left _ (by omega)
      _ < (x_end + 1 - x_start) * (y_end + 1 - y_start) :=
          Nat.mul_lt_mul_of_pos_right (by omega) (by omega)
  rcases layer_lcdFill_last hx hx' hy hy' color with ⟨hopen, hpainted⟩
  refine ⟨hfalse, htrue, htrue ▸ hless, fun s hother hsame => hother ?_, fun h => ?_⟩
  · rw [(Lcd.receiveAll_draw s (valid_lcdFill hx hx' hy hy' true color)).2,
      (Lcd.receiveAll_draw s (valid_lcdFill hx hx' hy hy' false color)).2] at hsame
    simpa [Canvas.paint, hopen, hpainted] using congrFun hsame (x_end, y_end)
  · have hcount := h.count true
    rw [htrue] at hcount
    exact absurd hcount (Nat.ne_of_lt hless)

/-- A column of 100 pixels, of which the chunks send none. -/
theorem fill_differs_column :
    (lcdFill true 7 0 7 99 RED).pixels.length = (7 - 7) * (99 - 0) :=
  (@fill_differs 7 0 7 99 (by decide) (by decide) (by decide) (by decide) RED).2.1

/-- A single pixel is filled by the pixel loop only. -/
theorem fill_pixel :
    ¬∀ (x_start y_start x_end y_end : Nat) (color : UInt16), x_start ≤ x_end → x_end ≤ 239 →
      y_start ≤ y_end → y_end ≤ 239 → FillAgrees x_start y_start x_end y_end color := by
  intro h
  have hcount := (h 5 5 5 5 RED (by decide) (by decide) (by decide) (by decide)).count true
  rw [pixels_lcdFill_true (by decide) (by decide) (by decide) (by decide)] at hcount
  revert hcount
  decide

end WeatherStation
