import CantayaOS.Graphics.Framebuffer

/-!
# Hardware and back buffer

Outside the dirty rectangle the hardware shows what is in the back buffer.
Every drawing operation paints within the rectangle it marks, provided that
the framebuffer has at most `2 ^ 30` pixels, so that no offset wraps, and the
marked rectangle does not wrap either.
-/

namespace CantayaOS.Graphics

open Lib List Option Nat UInt32 Raster Framebuffer

variable {row : UInt32} {pixels : Pixels} {rows buf : List UInt32}

variable {after source : Pixels}

namespace Framebuffer

/-- The place of a pixel in the pixel memories. -/
abbrev cell (fb : Framebuffer) (px py : Nat) : Nat :=
  Raster.index fb.stride.toNat px py

/-- The framebuffer is set up, rows do not overlap and byte offsets fit into 32 bits. -/
structure Fits (fb : Framebuffer) : Prop where
  ready : fb.initialized = true
  width_le : fb.width.toNat ≤ fb.stride.toNat
  small : fb.stride.toNat * fb.height.toNat ≤ 2 ^ 30

def Visible (fb : Framebuffer) (x y : Nat) : Prop := x < fb.width.toNat ∧ y < fb.height.toNat

def Dirty (fb : Framebuffer) (x y : Nat) : Prop :=
  fb.dirty = true ∧ fb.dirtyX1.toNat ≤ x ∧ x < fb.dirtyX2.toNat ∧
    fb.dirtyY1.toNat ≤ y ∧ y < fb.dirtyY2.toNat

/-- The hardware shows the pixel of the back buffer. -/
def Shown (fb : Framebuffer) (x y : Nat) : Prop :=
  fb.hardware (Raster.index fb.stride.toNat x y) = fb.backBuffer (Raster.index fb.stride.toNat x y)

/-- Every visible pixel of the hardware equals the back buffer, if there is one. -/
def Presented (fb : Framebuffer) : Prop :=
  fb.doubleBuffered = true → ∀ x y, fb.Visible x y → fb.Shown x y

/-- Visible pixels are shown unless they are dirty or still to be marked. -/
structure SyncedExcept (fb : Framebuffer) (pending : Nat → Nat → Prop) : Prop where
  fits : fb.Fits
  shown : fb.doubleBuffered = true → ∀ x y, fb.Visible x y → ¬ fb.Dirty x y → ¬ pending x y →
    fb.Shown x y

abbrev Synced (fb : Framebuffer) : Prop := fb.SyncedExcept fun _ _ => False

variable {fb : Framebuffer} {x y w h : UInt32} {px py : Nat} {change : Pixels → Pixels}
  {pending painted : Nat → Nat → Prop} {color : Color}

theorem toNat_offset (below : index fb.stride.toNat x.toNat y.toNat < 2 ^ 30) :
    (y * fb.stride + x).toNat = Raster.index fb.stride.toNat x.toNat y.toNat ∧
      ((y * fb.stride + x) * 4).toNat / 4 = Raster.index fb.stride.toNat x.toNat y.toNat := by
  have offset : (y * fb.stride + x).toNat = Raster.index fb.stride.toNat x.toNat y.toNat := by
    rw [UInt32.toNat_add, UInt32.toNat_mul, mod_add_mod]
    exact mod_eq_of_lt (below.trans (by decide))
  have four : (4 : UInt32).toNat = 4 := rfl
  refine ⟨offset, ?_⟩
  rw [UInt32.toNat_mul, offset, four]
  omega

theorem Fits.index_lt (fits : fb.Fits) (inside : px < fb.stride.toNat)
    (above : py < fb.height.toNat) : fb.cell px py < 2 ^ 30 := by
  refine lt_of_lt_of_le (Raster.index_lt inside above) ?_
  rw [mul_comm]
  exact fits.small

theorem mem_span {low high : UInt32} :
    row ∈ span low high ↔ low.toNat ≤ row.toNat ∧ row.toNat < high.toNat := by
  have bound := high.toNat_lt
  constructor
  · intro member
    obtain ⟨n, inside, rfl⟩ := List.mem_map.mp member
    rw [mem_range'_1] at inside
    rw [toNat_ofNat']
    omega
  · intro inside
    refine List.mem_map.mpr ⟨row.toNat, mem_range'_1.mpr (by omega), ?_⟩
    exact UInt32.ofNat_toNat

/-! ## Drawing and marking -/

@[simp] theorem draw_width : (fb.draw change).width = fb.width := by
  unfold draw
  split <;> rfl

@[simp] theorem draw_height : (fb.draw change).height = fb.height := by
  unfold draw
  split <;> rfl

@[simp] theorem draw_initialized : (fb.draw change).initialized = fb.initialized := by
  unfold draw
  split <;> rfl

@[simp] theorem draw_stride : (fb.draw change).stride = fb.stride := by
  unfold draw
  split <;> rfl

theorem Fits.draw (fits : fb.Fits) : (fb.draw change).Fits := by
  refine ⟨?_, ?_, ?_⟩
  · rw [draw_initialized]
    exact fits.ready
  · rw [draw_width, draw_stride]
    exact fits.width_le
  · rw [draw_height, draw_stride]
    exact fits.small

theorem SyncedExcept.draw (synced : fb.SyncedExcept pending)
    (confined : fb.doubleBuffered = true → ∀ x y, fb.Visible x y → ¬ painted x y →
      change fb.backBuffer (fb.cell x y) = fb.backBuffer (fb.cell x y)) :
    (fb.draw change).SyncedExcept fun x y => painted x y ∨ pending x y := by
  refine ⟨synced.fits.draw, fun buffered x y visible clean unmarked => ?_⟩
  rw [not_or] at unmarked
  unfold Framebuffer.draw at buffered visible clean ⊢
  split at buffered
  · rename_i double
    simp only [double] at visible clean ⊢
    exact (synced.shown double x y visible clean unmarked.2).trans
      (confined double x y visible unmarked.1).symm
  · rename_i single
    exact absurd buffered single

/-- A rectangle is not marked when it is empty, off the screen or wraps. -/
theorem markDirtyRect_cases (fb : Framebuffer) (x y w h : UInt32) :
    fb.markDirtyRect x y w h = fb ∧
        (w = 0 ∨ h = 0 ∨ x ≥ min (x + w) fb.width ∨ y ≥ min (y + h) fb.height) ∨
      fb.markDirtyRect x y w h =
        { fb with
          dirtyX1 := min fb.dirtyX1 x
          dirtyY1 := min fb.dirtyY1 y
          dirtyX2 := max fb.dirtyX2 (min (x + w) fb.width)
          dirtyY2 := max fb.dirtyY2 (min (y + h) fb.height)
          dirty := true } := by
  unfold markDirtyRect
  by_cases empty : w = 0 ∨ h = 0
  · rw [if_pos empty]
    exact .inl ⟨rfl, empty.imp_right Or.inl⟩
  · rw [if_neg empty]
    by_cases outside : x ≥ min (x + w) fb.width ∨ y ≥ min (y + h) fb.height
    · exact .inl ⟨if_pos outside, .inr (.inr outside)⟩
    · exact .inr (if_neg outside)

/-- Marking covers the visible part of a rectangle that does not wrap. -/
theorem SyncedExcept.mark (synced : fb.SyncedExcept fun px py => painted px py ∨ pending px py)
    (covered : ∀ px py, fb.Visible px py → painted px py →
      x.toNat ≤ px ∧ px < x.toNat + w.toNat ∧ y.toNat ≤ py ∧ py < y.toNat + h.toNat ∧
        x.toNat + w.toNat < 2 ^ 32 ∧ y.toNat + h.toNat < 2 ^ 32) :
    (fb.markDirtyRect x y w h).SyncedExcept pending := by
  have fits := synced.fits
  obtain ⟨same, unmarked⟩ | marked := markDirtyRect_cases fb x y w h
  · rw [same]
    refine ⟨fits, fun double px py visible clean settled => ?_⟩
    refine synced.shown double px py visible clean fun held => ?_
    obtain ⟨left, right, top, bottom, noWrap, noWrap'⟩ :=
      covered px py visible (held.resolve_right settled)
    obtain ⟨inWidth, inHeight⟩ := visible
    simp only [← UInt32.toNat_inj, UInt32.le_iff_toNat_le, UInt32.toNat_min, UInt32.toNat_add,
      UInt32.toNat_zero] at unmarked
    omega
  · rw [marked]
    refine ⟨⟨fits.ready, fits.width_le, fits.small⟩, fun double px py visible clean settled => ?_⟩
    refine synced.shown double px py visible (fun dirty => clean ?_) fun held => clean ?_
    · obtain ⟨_, left, right, top, bottom⟩ := dirty
      refine ⟨rfl, ?_⟩
      simp only [toNat_min, toNat_max]
      omega
    · obtain ⟨left, right, top, bottom, noWrap, noWrap'⟩ :=
        covered px py visible (held.resolve_right settled)
      obtain ⟨inWidth, inHeight⟩ := visible
      refine ⟨rfl, ?_⟩
      simp only [UInt32.toNat_min, UInt32.toNat_max, UInt32.toNat_add, mod_eq_of_lt noWrap,
        mod_eq_of_lt noWrap'] at inWidth inHeight ⊢
      omega

/-- An operation that paints within the rectangle it marks keeps the buffers in sync. -/
theorem SyncedExcept.draw_mark (synced : fb.SyncedExcept pending)
    (confined : fb.doubleBuffered = true → ∀ px py, fb.Visible px py →
      change fb.backBuffer (fb.cell px py) ≠ fb.backBuffer (fb.cell px py) →
      x.toNat ≤ px ∧ px < x.toNat + w.toNat ∧ y.toNat ≤ py ∧ py < y.toNat + h.toNat ∧
        x.toNat + w.toNat < 2 ^ 32 ∧ y.toNat + h.toNat < 2 ^ 32) :
    ((fb.draw change).markDirtyRect x y w h).SyncedExcept pending := by
  have unmarked := synced.draw fun _ px py _ (kept : ¬ (fb.doubleBuffered = true ∧
      change fb.backBuffer (fb.cell px py) ≠ fb.backBuffer (fb.cell px py))) =>
    not_not.mp fun changed => kept ⟨‹_›, changed⟩
  refine unmarked.mark fun px py visible ⟨double, changed⟩ => ?_
  unfold Visible at visible
  rw [draw_width, draw_height] at visible
  exact confined double px py visible changed

/-! ## The operations -/

theorem SyncedExcept.putPixel (synced : fb.SyncedExcept pending) :
    (fb.putPixel x y color).SyncedExcept pending := by
  unfold Framebuffer.putPixel
  split_ifs with skipped
  · exact synced
  · rw [not_or, not_or, UInt32.not_le, UInt32.not_le, UInt32.lt_iff_toNat_lt,
      UInt32.lt_iff_toNat_lt] at skipped
    obtain ⟨_, inWidth, inHeight⟩ := skipped
    have inRow := inWidth.trans_le synced.fits.width_le
    have place := (toNat_offset (synced.fits.index_lt inRow inHeight)).2
    refine synced.draw_mark fun _ px py visible changed => ?_
    simp only [place] at changed
    rw [Raster.paint_row (visible.1.trans_le synced.fits.width_le) (by omega)] at changed
    split_ifs at changed with here
    · have one : (1 : UInt32).toNat = 1 := rfl
      have wide := fb.width.toNat_lt
      have tall := fb.height.toNat_lt
      omega
    · exact absurd rfl changed

theorem SyncedExcept.fillRect (synced : fb.SyncedExcept pending) :
    (fb.fillRect x y w h color).SyncedExcept pending := by
  unfold Framebuffer.fillRect
  dsimp only
  split_ifs with skipped empty
  · exact synced
  · exact synced
  · rw [not_or, UInt32.not_le, UInt32.lt_iff_toNat_lt, UInt32.toNat_min, UInt32.toNat_min] at empty
    obtain ⟨wide, tall⟩ := empty
    have inRow : x.toNat < fb.stride.toNat := by
      have narrow := synced.fits.width_le
      omega
    refine synced.draw_mark fun _ px py visible changed => ?_
    by_contra outside
    refine changed (Raster.foldl_keeps (fun row member cells => ?_) _)
    obtain ⟨top, bottom⟩ := mem_span.mp member
    rw [UInt32.toNat_min, UInt32.toNat_add] at bottom
    rw [(toNat_offset (synced.fits.index_lt inRow (by omega))).1, UInt32.toNat_min, UInt32.toNat_add,
      Raster.paint_row (visible.1.trans_le synced.fits.width_le), if_neg]
    · rintro ⟨rfl, left, right⟩
      have bound'' := w.toNat_lt
      have bound''' := h.toNat_lt
      omega
    · have narrow := synced.fits.width_le
      omega

theorem Fits.clear (fits : fb.Fits) : (fb.clear color).Synced := by
  unfold Framebuffer.clear
  rw [if_neg (by rw [fits.ready]; nofun)]
  have unmarked : (fb.draw (paint 0 (fb.stride.toNat * fb.height.toNat) fun _ =>
      color.toPixel fb.format)).SyncedExcept fun _ _ => True ∨ False :=
    ⟨fits.draw, fun _ _ _ _ _ held => absurd (.inl trivial) held⟩
  refine unmarked.mark fun px py visible _ => ?_
  unfold Visible at visible
  rw [draw_width, draw_height] at visible
  have wide := fb.width.toNat_lt
  have tall := fb.height.toNat_lt
  have zero : (0 : UInt32).toNat = 0 := rfl
  omega

/-- The rectangle is off the screen, or its far corner does not wrap. -/
def Unwrapped (fb : Framebuffer) (x y w h : UInt32) : Prop :=
  fb.width ≤ x ∨ fb.height ≤ y ∨ x.toNat + w.toNat < 2 ^ 32 ∧ y.toNat + h.toNat < 2 ^ 32

instance (fb : Framebuffer) (x y w h : UInt32) : Decidable (fb.Unwrapped x y w h) :=
  inferInstanceAs (Decidable (_ ∨ _))

theorem span_zero (high : UInt32) : span 0 high = [] ∨ ∃ rest, span 0 high = 0 :: rest := by
  unfold span
  cases high.toNat with
  | zero => exact .inl rfl
  | succ count => exact .inr ⟨_, rfl⟩

/-- Blitted rows change pixels of those rows only. -/
theorem blitRows_keeps (fits : fb.Fits) (visible : fb.Visible px py)
    (outside : ∀ row ∈ rows, (y + row).toNat = py → ¬ (x.toNat ≤ px ∧ px < x.toNat + w.toNat)) :
    fb.blitRows x y w source rows pixels (fb.cell px py) = pixels (fb.cell px py) := by
  induction rows generalizing pixels with
  | nil => rfl
  | cons row rest ih =>
    have later : ∀ pixels, fb.blitRows x y w source rest pixels
        (fb.cell px py) = pixels (fb.cell px py) :=
      fun pixels => ih fun other member => outside other (mem_cons_of_mem _ member)
    rw [blitRows]
    dsimp only
    split_ifs with below empty
    · rfl
    · exact later pixels
    · rw [later]
      rw [UInt32.not_le] at below
      have narrow := fits.width_le
      rw [(toNat_offset (fits.index_lt (by omega) below)).1,
        paint_row (visible.1.trans_le narrow) (by omega), if_neg]
      rintro ⟨rfl, left, right⟩
      exact outside row mem_cons_self rfl ⟨left, by omega⟩

theorem toNat_add_of_mem_span {start count item : UInt32} (member : item ∈ span 0 count)
    (noWrap : start.toNat + count.toNat < 2 ^ 32) :
    (start + item).toNat = start.toNat + item.toNat ∧ item.toNat < count.toNat := by
  obtain ⟨_, below⟩ := mem_span.mp member
  rw [UInt32.toNat_add]
  omega

theorem SyncedExcept.blitBuffer (synced : fb.SyncedExcept pending)
    (unwrapped : fb.Unwrapped x y w h) : (fb.blitBuffer x y w h source).SyncedExcept pending := by
  unfold Framebuffer.blitBuffer
  split_ifs with skipped
  · exact synced
  · refine synced.draw_mark fun _ px py visible changed => ?_
    by_contra outside
    refine changed ?_
    rcases unwrapped with beside | below | ⟨noWrap, noWrap'⟩
    · refine blitRows_keeps synced.fits visible fun row _ _ inside => ?_
      rw [le_iff_toNat_le] at beside
      have := visible.1
      omega
    · rcases span_zero h with empty | ⟨rest, first⟩
      · rw [empty]
        rfl
      · rw [first, blitRows, add_zero]
        rw [if_pos below]
    · refine blitRows_keeps synced.fits visible fun row member here inside => outside ?_
      obtain ⟨sum, inHeight⟩ := toNat_add_of_mem_span member noWrap'
      omega

/-- One restored row changes the pixels of its columns only. -/
theorem restoreRow_keeps (fits : fb.Fits) {line : UInt32} {cols : List UInt32}
    (inHeight : line.toNat < fb.height.toNat) (visible : fb.Visible px py)
    (done : fb.restoreRow x w row line buf cols pixels = some after)
    (outside : line.toNat = py → ∀ col ∈ cols, (x + col).toNat ≠ px) :
    after (fb.cell px py) = pixels (fb.cell px py) := by
  induction cols generalizing pixels with
  | nil =>
    cases done
    rfl
  | cons col rest ih =>
    rw [restoreRow] at done
    split_ifs at done with beside
    · cases done
      rfl
    · cases read : buf[(row * w + col).toNat]? with
      | none =>
        rw [read] at done
        cases done
      | some pixel =>
        rw [read] at done
        rw [UInt32.not_le, UInt32.lt_iff_toNat_lt] at beside
        have narrow := fits.width_le
        rw [ih done fun here other member => outside here other (mem_cons_of_mem _ member),
          (toNat_offset (fits.index_lt (by omega) inHeight)).1,
          paint_row (visible.1.trans_le narrow) (by omega), if_neg]
        rintro ⟨rfl, left, right⟩
        exact outside rfl col mem_cons_self (by omega)

theorem restoreRows_keeps (fits : fb.Fits)
    (visible : fb.Visible px py) (done : fb.restoreRows x y w buf rows pixels = some after)
    (outside : ∀ row ∈ rows, (y + row).toNat = py → ∀ col ∈ span 0 w, (x + col).toNat ≠ px) :
    after (fb.cell px py) = pixels (fb.cell px py) := by
  induction rows generalizing pixels with
  | nil =>
    cases done
    rfl
  | cons row rest ih =>
    rw [restoreRows] at done
    split_ifs at done with below
    · cases done
      rfl
    · obtain ⟨middle, first, later⟩ := bind_eq_some_iff.mp done
      rw [UInt32.not_le] at below
      rw [ih later fun other member => outside other (mem_cons_of_mem _ member)]
      exact restoreRow_keeps fits below visible first (outside row (.head _))

theorem restoreRows_beside (beside : fb.width ≤ x) :
    fb.restoreRows x y w buf rows pixels = some pixels := by
  induction rows with
  | nil => rfl
  | cons row rest ih =>
    have first : fb.restoreRow x w row (y + row) buf (span 0 w) pixels = some pixels := by
      rcases span_zero w with empty | ⟨others, shape⟩
      · rw [empty]
        rfl
      · rw [shape, restoreRow, add_zero, if_pos beside]
    rw [restoreRows, first, bind_some, ih, ite_self]

theorem SyncedExcept.restoreRegion (synced : fb.SyncedExcept pending) {after : Framebuffer}
    (unwrapped : fb.Unwrapped x y w h) (done : fb.restoreRegion x y w h buf = some after) :
    after.SyncedExcept pending := by
  unfold Framebuffer.restoreRegion at done
  by_cases skipped : fb.initialized = false
  · rw [if_pos skipped] at done
    cases done
    exact synced
  rw [if_neg skipped] at done
  obtain ⟨pixels, restored, rfl⟩ := map_eq_some_iff.mp done
  refine synced.draw_mark fun double px py visible changed => ?_
  rw [if_pos double] at restored
  by_contra outside
  refine changed ?_
  rcases unwrapped with beside | below | ⟨noWrap, noWrap'⟩
  · rw [restoreRows_beside beside] at restored
    cases restored
    rfl
  · rcases span_zero h with empty | ⟨rest, first⟩
    · rw [empty] at restored
      cases restored
      rfl
    · rw [first, restoreRows, add_zero, if_pos below] at restored
      cases restored
      rfl
  · refine restoreRows_keeps synced.fits visible restored fun row member here col inside there => ?_
    obtain ⟨sum, inHeight⟩ := toNat_add_of_mem_span member noWrap'
    obtain ⟨sum', inWidth⟩ := toNat_add_of_mem_span inside noWrap
    omega

/-! ## Presenting -/

section Copies

variable {x1 y1 x2 y2 : UInt32}

/-- Whole rows are copied in one run. -/
theorem Fits.copy_rows (fits : fb.Fits) (inside : px < fb.stride.toNat)
    (order : y1.toNat < y2.toNat) (inHeight : y2.toNat ≤ fb.height.toNat) :
    paint (y1 * fb.stride).toNat ((y2 - y1) * fb.stride).toNat
        (fun i => fb.backBuffer ((y1 * fb.stride).toNat + i)) fb.hardware
        (index fb.stride.toNat px py) =
      if y1.toNat ≤ py ∧ py < y2.toNat then fb.backBuffer (index fb.stride.toNat px py)
      else fb.hardware (index fb.stride.toNat px py) := by
  have whole : fb.height.toNat * fb.stride.toNat ≤ 2 ^ 30 := by
    rw [mul_comm]
    exact fits.small
  have first : (y1 * fb.stride).toNat = y1.toNat * fb.stride.toNat := by
    have less : y1.toNat * fb.stride.toNat ≤ fb.height.toNat * fb.stride.toNat :=
      Nat.mul_le_mul_right _ (by omega)
    rw [UInt32.toNat_mul]
    exact mod_eq_of_lt (by omega)
  have count : ((y2 - y1) * fb.stride).toNat = (y2.toNat - y1.toNat) * fb.stride.toNat := by
    have less : (y2.toNat - y1.toNat) * fb.stride.toNat ≤ fb.height.toNat * fb.stride.toNat :=
      Nat.mul_le_mul_right _ (by omega)
    rw [UInt32.toNat_mul, UInt32.toNat_sub_of_le _ _ (UInt32.le_iff_toNat_le.mpr (by omega))]
    exact mod_eq_of_lt (by omega)
  have last : y1.toNat + (y2.toNat - y1.toNat) = y2.toNat := by omega
  rw [first, count, paint_rows inside, last]
  split_ifs with here
  · congr 1
    have above := Nat.mul_le_mul_right fb.stride.toNat here.1
    unfold index
    omega
  · rfl

/-- The columns of the rectangle are copied row by row. -/
theorem Fits.copy_cols (fits : fb.Fits) (visible : fb.Visible px py) (order : x1.toNat < x2.toNat)
    (inWidth : x2.toNat ≤ fb.width.toNat) (inHeight : y2.toNat ≤ fb.height.toNat) :
    (span y1 y2).foldl (fun pixels row =>
        paint (row * fb.stride + x1).toNat (x2 - x1).toNat
          (fun i => fb.backBuffer ((row * fb.stride + x1).toNat + i)) pixels)
        fb.hardware (index fb.stride.toNat px py) =
      if x1.toNat ≤ px ∧ px < x2.toNat ∧ y1.toNat ≤ py ∧ py < y2.toNat then
        fb.backBuffer (index fb.stride.toNat px py)
      else fb.hardware (index fb.stride.toNat px py) := by
  have narrow := fits.width_le
  have count : (x2 - x1).toNat = x2.toNat - x1.toNat :=
    UInt32.toNat_sub_of_le _ _ (UInt32.le_iff_toNat_le.mpr (by omega))
  have round : ∀ row ∈ span y1 y2, ∀ pixels : Pixels,
      paint (row * fb.stride + x1).toNat (x2 - x1).toNat
          (fun i => fb.backBuffer ((row * fb.stride + x1).toNat + i)) pixels
          (index fb.stride.toNat px py) =
        if py = row.toNat ∧ x1.toNat ≤ px ∧ px < x2.toNat then
          fb.backBuffer (index fb.stride.toNat px py)
        else pixels (index fb.stride.toNat px py) := by
    intro row member pixels
    obtain ⟨_, below⟩ := mem_span.mp member
    rw [(toNat_offset (fits.index_lt (by omega) (by omega))).1, count,
      paint_row (visible.1.trans_le narrow) (by omega)]
    have right : x1.toNat + (x2.toNat - x1.toNat) = x2.toNat := by omega
    rw [right]
    split_ifs with here
    · obtain ⟨rfl, left, _⟩ := here
      congr 1
      unfold index
      omega
    · rfl
  split_ifs with here
  · obtain ⟨left, right, top, bottom⟩ := here
    refine foldl_settles (fun row member pixels => ?_) ?_ _
    · rw [round row member pixels]
      split_ifs
      · exact .inl rfl
      · exact .inr rfl
    · have bound := fb.height.toNat_lt
      have same : (ofNat py).toNat = py := by
        exact mod_eq_of_lt (by omega)
      have member : ofNat py ∈ span y1 y2 := mem_span.mpr (by omega)
      refine ⟨_, member, fun pixels => ?_⟩
      rw [round _ member pixels, if_pos ⟨same.symm, left, right⟩]
  · refine foldl_keeps (fun row member pixels => ?_) _
    obtain ⟨top, bottom⟩ := mem_span.mp member
    rw [round row member pixels, if_neg]
    rintro ⟨rfl, left, right⟩
    exact here ⟨left, right, top, bottom⟩

end Copies

/-- Where presenting copies nothing, every visible pixel was shown before. -/
theorem SyncedExcept.shown_of_clean (synced : fb.Synced) (double : fb.doubleBuffered = true)
    (visible : fb.Visible px py)
    (clean : fb.dirty = false ∨ min fb.dirtyX1 fb.width ≥ min fb.dirtyX2 fb.width ∨
      min fb.dirtyY1 fb.height ≥ min fb.dirtyY2 fb.height) : fb.Shown px py := by
  refine synced.shown double px py visible ?_ id
  rintro ⟨dirty, left, right, top, bottom⟩
  obtain ⟨inWidth, inHeight⟩ := visible
  rcases clean with clean | clean
  · rw [clean] at dirty
    cases dirty
  · simp only [le_iff_toNat_le, toNat_min] at clean
    omega

/-- After presenting, every visible pixel is shown. -/
theorem SyncedExcept.presented (synced : fb.Synced) : fb.present.Presented := by
  unfold present
  by_cases skipped : fb.initialized = false ∨ fb.doubleBuffered = false ∨ fb.dirty = false
  · rw [if_pos skipped]
    intro double px py visible
    refine synced.shown_of_clean double visible ?_
    rw [synced.fits.ready, double] at skipped
    exact .inl ((skipped.resolve_left nofun).resolve_left nofun)
  rw [if_neg skipped]
  by_cases empty : min fb.dirtyX1 fb.width ≥ min fb.dirtyX2 fb.width ∨
      min fb.dirtyY1 fb.height ≥ min fb.dirtyY2 fb.height
  · rw [if_pos empty]
    exact fun double px py visible => synced.shown_of_clean double visible (.inr empty)
  rw [if_neg empty]
  intro double px py visible
  have visible : fb.Visible px py := visible
  rw [not_or, ge_iff_le, UInt32.not_le, UInt32.not_le] at empty
  have kept := synced.shown double px py visible
  have inRow := visible.1.trans_le synced.fits.width_le
  have top : (min fb.dirtyY2 fb.height).toNat ≤ fb.height.toNat := by
    rw [toNat_min]
    omega
  have side : (min fb.dirtyX2 fb.width).toNat ≤ fb.width.toNat := by
    rw [toNat_min]
    omega
  unfold Shown at kept ⊢
  dsimp only
  split_ifs with full
  · rw [synced.fits.copy_rows inRow empty.2 top]
    split_ifs with copied
    · rfl
    · refine kept (fun dirty => copied ?_) id
      obtain ⟨_, _, _, above, below⟩ := dirty
      have inHeight := visible.2
      rw [toNat_min, toNat_min]
      omega
  · rw [synced.fits.copy_cols visible empty.1 side top]
    split_ifs with copied
    · rfl
    · refine kept (fun dirty => copied ?_) id
      obtain ⟨_, left, right, above, below⟩ := dirty
      obtain ⟨inWidth, inHeight⟩ := visible
      simp only [toNat_min]
      omega

theorem present_fits (fits : fb.Fits) : fb.present.Fits := by
  unfold present
  dsimp only
  split_ifs <;> exact ⟨fits.ready, fits.width_le, fits.small⟩

theorem SyncedExcept.present (synced : fb.Synced) : fb.present.Synced :=
  ⟨present_fits synced.fits, fun double px py visible _ _ =>
    synced.presented double px py visible⟩

end Framebuffer

/-- Rows of the mode do not overlap, and it has at most `2 ^ 30` pixels. -/
structure FramebufferMode.Addressable (mode : FramebufferMode) : Prop where
  width_le : mode.width.toNat ≤ mode.stride.toNat
  small : mode.stride.toNat * mode.height.toNat ≤ 2 ^ 30

namespace Framebuffer

theorem init_synced {mode : FramebufferMode} (addressable : mode.Addressable) (hardware : Pixels)
    (allocated : Option Pixels) : (init mode hardware allocated).Synced := by
  unfold init
  dsimp only
  split_ifs
  · exact (Fits.clear ⟨rfl, addressable.width_le, addressable.small⟩).present
  · exact Fits.clear ⟨rfl, addressable.width_le, addressable.small⟩

end Framebuffer

end CantayaOS.Graphics
