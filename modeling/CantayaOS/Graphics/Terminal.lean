import CantayaOS.Lib.Terminal
import CantayaOS.Lib.Word
import CantayaOS.Graphics.Present

/-!
# The console as a terminal

Text printed on a cleared console looks as on the reference terminal: every
pixel of the text area of the draw target has the color that the glyph of its
cell gives it.  The text area must not be empty, scan lines must not overlap,
and the byte offsets of the text area must fit into the 32 bits in which a
pixel's offset is computed.
-/

namespace CantayaOS.Graphics

open Lib Raster Framebuffer Nat UInt32 UInt64

variable {other : Framebuffer} {y : UInt32} {Item : Type}

theorem toNat_sub_one {n : UInt64} (positive : 0 < n.toNat) : (n - 1).toNat = n.toNat - 1 :=
  UInt64.toNat_sub_of_le n 1 (UInt64.le_iff_toNat_le.mpr positive)

namespace Framebuffer

/-- The pixels that are drawn to: the back buffer if there is one. -/
def target (fb : Framebuffer) : Pixels := if fb.doubleBuffered then fb.backBuffer else fb.hardware

def mode (fb : Framebuffer) : UInt32 × UInt32 × UInt32 × PixelFormat × Bool × Bool :=
  (fb.width, fb.height, fb.stride, fb.format, fb.initialized, fb.doubleBuffered)

/-- A grid of cells lies on the screen and its offsets do not wrap. -/
structure TextArea (fb : Framebuffer) (cols rows : Nat) : Prop where
  ready : fb.initialized = true
  wide : cols * 8 ≤ fb.width.toNat
  tall : rows * 16 ≤ fb.height.toNat
  narrow : fb.width.toNat ≤ fb.stride.toNat
  small : rows * 16 * fb.stride.toNat ≤ 2 ^ 30

variable {fb : Framebuffer} {cols rows px py : Nat} {color : Color}

/-! ## The pixels after drawing -/

theorem mode_eq_iff : other.mode = fb.mode ↔
    other.width = fb.width ∧ other.height = fb.height ∧ other.stride = fb.stride ∧
      other.format = fb.format ∧ other.initialized = fb.initialized ∧
      other.doubleBuffered = fb.doubleBuffered := by
  simp only [mode, Prod.mk.injEq]

theorem TextArea.congr (area : fb.TextArea cols rows)
    (same : other.mode = fb.mode) : other.TextArea cols rows := by
  obtain ⟨width, height, stride, -, ready, -⟩ := mode_eq_iff.mp same
  refine ⟨ready.trans area.ready, ?_, ?_, ?_, ?_⟩
  · rw [width]
    exact area.wide
  · rw [height]
    exact area.tall
  · rw [width, stride]
    exact area.narrow
  · rw [stride]
    exact area.small

theorem TextArea.lt_stride (area : fb.TextArea cols rows) (inCols : px < cols * 8) :
    px < fb.stride.toNat :=
  inCols.trans_le (le_trans area.wide area.narrow)

theorem TextArea.index_lt (area : fb.TextArea cols rows) (inRow : px < fb.stride.toNat)
    (inRows : py < rows * 16) : fb.cell px py < 2 ^ 30 :=
  lt_of_lt_of_le (Raster.index_lt inRow inRows) area.small

variable (fb)

theorem draw_target (change : Pixels → Pixels) : (fb.draw change).target = change fb.target := by
  unfold draw target
  by_cases double : fb.doubleBuffered = true
  · simp only [double, if_true]
  · simp only [double, if_false, Bool.false_eq_true]

theorem draw_mode (change : Pixels → Pixels) : (fb.draw change).mode = fb.mode := by
  unfold draw
  split <;> rfl

theorem markDirtyRect_target (x y w h : UInt32) :
    (fb.markDirtyRect x y w h).target = fb.target := by
  obtain ⟨same, -⟩ | marked := markDirtyRect_cases fb x y w h
  · rw [same]
  · rw [marked]
    rfl

theorem markDirtyRect_mode (x y w h : UInt32) : (fb.markDirtyRect x y w h).mode = fb.mode := by
  obtain ⟨same, -⟩ | marked := markDirtyRect_cases fb x y w h
  · rw [same]
  · rw [marked]
    rfl

theorem present_mode : fb.present.mode = fb.mode := by
  unfold present
  dsimp only
  split_ifs <;> rfl

/-- Presenting writes the hardware only if there is a back buffer. -/
theorem present_target : fb.present.target = fb.target := by
  by_cases double : fb.doubleBuffered = true
  · have kept : fb.present.doubleBuffered = fb.doubleBuffered ∧
        fb.present.backBuffer = fb.backBuffer := by
      unfold present
      dsimp only
      split_ifs <;> exact ⟨rfl, rfl⟩
    unfold target
    rw [kept.1, kept.2, if_pos double, if_pos double]
  · have idle : fb.present = fb := by
      exact if_pos (.inr (.inl (Bool.eq_false_iff.mpr double)))
    rw [idle]

theorem putPixel_mode (x y : UInt32) (color : Color) : (fb.putPixel x y color).mode = fb.mode := by
  unfold putPixel
  split
  · rfl
  · rw [markDirtyRect_mode, draw_mode]

theorem fillRect_mode (x y w h : UInt32) (color : Color) :
    (fb.fillRect x y w h color).mode = fb.mode := by
  unfold fillRect
  dsimp only
  split_ifs
  · rfl
  · rfl
  · rw [markDirtyRect_mode, draw_mode]

theorem clear_mode (color : Color) : (fb.clear color).mode = fb.mode := by
  unfold clear
  split_ifs
  · rfl
  · rw [markDirtyRect_mode, draw_mode]

variable {fb}

/-- One pixel of the text area is set. -/
theorem putPixel_target (area : fb.TextArea cols rows) {x : UInt32} (inCols : x.toNat < cols * 8)
    (inRows : y.toNat < rows * 16) (inside : px < fb.stride.toNat) :
    (fb.putPixel x y color).target (fb.cell px py) =
      if px = x.toNat ∧ py = y.toNat then color.toPixel fb.format
      else fb.target (fb.cell px py) := by
  have wide := area.wide
  have tall := area.tall
  have inRow := area.lt_stride inCols
  have onScreen : ¬ (fb.initialized = false ∨ x ≥ fb.width ∨ y ≥ fb.height) := by
    rw [area.ready, ge_iff_le, ge_iff_le, UInt32.le_iff_toNat_le, UInt32.le_iff_toNat_le]
    rintro (idle | beside | below)
    · exact nomatch idle
    · omega
    · omega
  have place := (toNat_offset (area.index_lt inRow inRows)).2
  unfold putPixel
  rw [if_neg onScreen]
  rw [markDirtyRect_target, draw_target, place, paint_row inside (by omega)]
  refine if_congr ?_ rfl rfl
  omega

/-- A band of whole rows of the text area is filled. -/
theorem fillRect_target (area : fb.TextArea cols rows)
    (inRows : y.toNat + 16 ≤ rows * 16) (inside : px < fb.width.toNat) (py : Nat) (color : Color) :
    (fb.fillRect 0 y fb.width charHeight color).target (index fb.stride.toNat px py) =
      if y.toNat ≤ py ∧ py < y.toNat + 16 then color.toPixel fb.format
      else fb.target (index fb.stride.toNat px py) := by
  have tall := area.tall
  have narrow := area.narrow
  have bound := fb.height.toNat_lt
  have char : charHeight.toNat = 16 := rfl
  have xEnd : (min (0 + fb.width) fb.width).toNat - (0 : UInt32).toNat = fb.width.toNat := by
    rw [zero_add, UInt32.toNat_min, UInt32.toNat_zero, min_self, Nat.sub_zero]
  have yEnd : (min (y + charHeight) fb.height).toNat = y.toNat + 16 := by
    rw [UInt32.toNat_min, UInt32.toNat_add]
    omega
  unfold fillRect
  rw [if_neg (by rw [area.ready]; nofun)]
  dsimp only
  rw [xEnd, if_neg, markDirtyRect_target, draw_target]
  · -- The rows of the band are painted one after the other, each from its first pixel.
    have row : ∀ line ∈ span y (min (y + charHeight) fb.height), ∀ pixels : Pixels,
        paint (line * fb.stride + 0).toNat fb.width.toNat (fun _ => color.toPixel fb.format)
            pixels (index fb.stride.toNat px py) =
          if py = line.toNat then color.toPixel fb.format
          else pixels (index fb.stride.toNat px py) := by
      intro line member pixels
      obtain ⟨-, below⟩ := mem_span.mp member
      have start : (0 : UInt32).toNat < fb.stride.toNat := by
        rw [UInt32.toNat_zero]
        omega
      rw [(toNat_offset (area.index_lt start (by omega))).1, UInt32.toNat_zero,
        paint_row (inside.trans_le narrow) (by omega)]
      refine if_congr ?_ rfl rfl
      omega
    split_ifs with band
    · refine foldl_settles (fun line member pixels => ?_)
        ⟨UInt32.ofNat py, ?_, fun pixels => ?_⟩ _
      · rw [row line member]
        split_ifs
        · exact .inl rfl
        · exact .inr rfl
      all_goals
        have back : (UInt32.ofNat py).toNat = py := by
          rw [UInt32.toNat_ofNat']
          omega
        have member : UInt32.ofNat py ∈ span y (min (y + charHeight) fb.height) := by
          rw [mem_span, back, yEnd]
          exact band
      · exact member
      · rw [row _ member, if_pos back.symm]
    · refine foldl_keeps (fun line member pixels => ?_) _
      rw [row line member, if_neg]
      rintro rfl
      rw [mem_span, yEnd] at member
      exact band member
  · rw [ge_iff_le, UInt32.le_iff_toNat_le]
    omega

theorem clear_target (ready : fb.initialized = true) (inside : px < fb.stride.toNat)
    (above : py < fb.height.toNat) :
    (fb.clear color).target (fb.cell px py) = color.toPixel fb.format := by
  unfold clear
  rw [if_neg (by rw [ready]; nofun)]
  rw [markDirtyRect_target, draw_target]
  refine paint_of_mem (zero_le _) ?_
  rw [zero_add, mul_comm]
  exact index_lt inside above

theorem scrollUp_mode (fb : Framebuffer) (console : Console) :
    (fb.scrollUp console).mode = fb.mode := by
  unfold scrollUp copyUp
  rw [present_mode, fillRect_mode, draw_mode]

/-- A scrolled screen: all of it is moved up by one cell and the last text row is blank. -/
theorem scrollUp_pixel {console : Console} (area : fb.TextArea cols console.rows.toNat)
    (rowsPos : 0 < console.rows.toNat) (visible : fb.Visible px py) :
    (fb.scrollUp console).target (index fb.stride.toNat px py) =
      if (console.rows.toNat - 1) * 16 ≤ py ∧ py < (console.rows.toNat - 1) * 16 + 16 then
        console.bgColor.toPixel fb.format
      else if py < fb.height.toNat - 16 then fb.target (index fb.stride.toNat px (py + 16))
      else fb.target (index fb.stride.toNat px py) := by
  have tall := area.tall
  have bound := fb.height.toNat_lt
  have char : charHeight.toNat = 16 := rfl
  have last : ((console.rows - 1).toUInt32 * charHeight).toNat = (console.rows.toNat - 1) * 16 := by
    rw [UInt32.toNat_mul, toNat_toUInt32, toNat_sub_one rowsPos, char]
    omega
  have same : fb.copyUp.mode = fb.mode := draw_mode _ _
  obtain ⟨width, -, stride, format, -, -⟩ := mode_eq_iff.mp same
  have moved : fb.copyUp.target (index fb.stride.toNat px py) =
      if py < fb.height.toNat - 16 then fb.target (index fb.stride.toNat px (py + 16))
      else fb.target (index fb.stride.toNat px py) := by
    unfold copyUp
    rw [draw_target]
    exact copyUp_index area.narrow (by omega) visible _
  have band : ((console.rows - 1).toUInt32 * charHeight).toNat + 16 ≤ console.rows.toNat * 16 := by
    omega
  have inside : px < fb.copyUp.width.toNat := by
    rw [width]
    exact visible.1
  have filled := fillRect_target (area.congr same) band inside py console.bgColor
  rw [width, stride, format, last, moved] at filled
  unfold scrollUp
  rw [present_target, filled]

/-- A scrolled text area: the rows are moved up by one cell and the last one is blank. -/
theorem scrollUp_target {console : Console} (area : fb.TextArea cols console.rows.toNat)
    (rowsPos : 0 < console.rows.toNat) (inCols : px < cols * 8)
    (inRows : py < console.rows.toNat * 16) :
    (fb.scrollUp console).target (index fb.stride.toNat px py) =
      if py + 16 < console.rows.toNat * 16 then
        fb.target (index fb.stride.toNat px (py + 16))
      else console.bgColor.toPixel fb.format := by
  have wide := area.wide
  have tall := area.tall
  rw [scrollUp_pixel area rowsPos ⟨by omega, by omega⟩]
  by_cases moves : py + 16 < console.rows.toNat * 16
  · rw [if_neg (by omega), if_pos (by omega), if_pos moves]
  · rw [if_pos (by omega), if_neg moves]

theorem init_totalRows (fb : Framebuffer) :
    (Console.init fb).totalRows.toNat = min (fb.height.toNat / 16) 128 := by
  unfold Console.init
  rw [toNat_toUInt64, UInt32.toNat_min, UInt32.toNat_div]
  rfl

theorem init_rows (fb : Framebuffer) :
    (Console.init fb).rows.toNat = (Console.init fb).totalRows.toNat -
      if 2 ≤ (Console.init fb).totalRows.toNat then 1 else 0 := by
  have many : (Console.init fb).totalRows > 1 ↔ 2 ≤ (Console.init fb).totalRows.toNat :=
    lt_iff_toNat_lt
  rw [← if_congr many rfl rfl]
  change (if (Console.init fb).totalRows > 1 then _ else _ : UInt64).toNat = _
  split_ifs with big
  · exact UInt64.toNat_sub_of_le _ _ (UInt64.le_of_lt big)
  · rfl

/-- Scrolling leaves the pixels of the last character row, the status bar's, as they are. -/
def KeepsStatusBar (fb : Framebuffer) (console : Console) : Prop :=
  ∀ px < fb.width.toNat, ∀ py, (console.totalRows.toNat - 1) * 16 ≤ py →
    py < console.totalRows.toNat * 16 →
    (fb.scrollUp console).target (index fb.stride.toNat px py) =
      fb.target (index fb.stride.toNat px py)

/-- Whatever is on the screen, the status bar is kept exactly when the screen ends with it. -/
theorem statusBar_kept_iff (fb : Framebuffer) (console : Console)
    (rows : console.rows = (Console.init fb).rows)
    (totalRows : console.totalRows = (Console.init fb).totalRows)
    (area : fb.TextArea 0 console.rows.toNat) (wide : 0 < fb.width.toNat)
    (two : 32 ≤ fb.height.toNat) :
    (∀ other : Framebuffer, other.mode = fb.mode → other.KeepsStatusBar console) ↔
      fb.height.toNat = min (fb.height.toNat / 16) 128 * 16 := by
  have least : 2 ≤ min (fb.height.toNat / 16) 128 := le_min (by omega) (by decide)
  have most := min_le_left (fb.height.toNat / 16) 128
  have text := init_rows fb
  rw [← init_totalRows, ← totalRows] at least most ⊢
  rw [← rows, ← totalRows, if_pos least] at text
  have pixel (other : Framebuffer) (same : other.mode = fb.mode) {px py : Nat}
      (inside : px < fb.width.toNat) (low : (console.totalRows.toNat - 1) * 16 ≤ py)
      (high : py < console.totalRows.toNat * 16) :
      (other.scrollUp console).target (index fb.stride.toNat px py) =
        if py < fb.height.toNat - 16 then other.target (index fb.stride.toNat px (py + 16))
        else other.target (index fb.stride.toNat px py) := by
    obtain ⟨width, height, stride, -⟩ := mode_eq_iff.mp same
    rw [← width] at inside
    rw [← height] at most ⊢
    rw [← stride, scrollUp_pixel (area.congr same) (by omega) ⟨inside, by omega⟩, if_neg (by omega)]
  constructor
  · intro kept
    by_contra longer
    -- a mark just below the bar is moved into its first line
    let mark : Pixels := fun i =>
      if i = index fb.stride.toNat 0 (console.totalRows.toNat * 16) then 1 else 0
    let other : Framebuffer := { fb with hardware := mark, backBuffer := mark }
    have target : other.target = mark := ite_self mark
    have moved := pixel other rfl wide le_rfl (by omega)
    have same : _ = other.target (index fb.stride.toNat 0 _) :=
      kept other rfl 0 wide ((console.totalRows.toNat - 1) * 16) le_rfl (by omega)
    have below : (console.totalRows.toNat - 1) * 16 + 16 = console.totalRows.toNat * 16 := by omega
    have apart : index fb.stride.toNat 0 ((console.totalRows.toNat - 1) * 16) ≠
        index fb.stride.toNat 0 (console.totalRows.toNat * 16) :=
      (index_lt_of_lt (wide.trans_le area.narrow) (by omega)).ne
    rw [if_pos (by omega), below, same, target] at moved
    simp [mark, apart] at moved
  · intro ends other same px inside py low high
    obtain ⟨width, -, stride, -⟩ := mode_eq_iff.mp same
    rw [stride, pixel other same (width ▸ inside) low high, if_neg (by omega)]

/-- The pixels are 1 from the 33rd line on. -/
def shortScreen (height : UInt32) : Framebuffer :=
  { Framebuffer.init ⟨8, height, 8, .bgr⟩ (fun _ => 0) none with
    hardware := fun i => if i < 256 then 0 else 1 }

theorem statusBar_kept_two_rows : (shortScreen 32).KeepsStatusBar (Console.init (shortScreen 32)) :=
  (statusBar_kept_iff _ _ rfl rfl ⟨rfl, by decide, by decide, by decide, by decide⟩ (by decide)
    (by decide)).mpr (by decide) _ rfl

/-- Of 40 lines the last eight are moved into the status bar. -/
theorem statusBar_overwritten :
    ¬ (shortScreen 40).KeepsStatusBar (Console.init (shortScreen 40)) := fun kept =>
  absurd (kept 0 (by decide) 16 (by decide) (by decide)) (by decide +kernel)

def glyphBit (bitmap : Vector UInt8 16) (dx dy : Nat) : Bool :=
  decide ((bitmap.toList.getD dy 0 >>> UInt8.ofNat (7 - dx)) &&& 1 ≠ 0)

/-- Pixels of the text area are set one after the other; none is set in two colors. -/
theorem foldl_putPixel {x y : Item → UInt32} {color : Item → Color}
    {items : List Item} (area : fb.TextArea cols rows)
    (within : ∀ item ∈ items, (x item).toNat < cols * 8 ∧ (y item).toNat < rows * 16)
    (inside : px < fb.stride.toNat) {value : UInt32}
    (agree : ∀ item ∈ items, px = (x item).toNat → py = (y item).toNat →
      (color item).toPixel fb.format = value)
    (covered : (∃ item ∈ items, px = (x item).toNat ∧ py = (y item).toNat) ∨
      fb.target (index fb.stride.toNat px py) = value) :
    (items.foldl (fun fb item => fb.putPixel (x item) (y item) (color item)) fb).target
      (index fb.stride.toNat px py) = value := by
  induction items generalizing fb with
  | nil => exact covered.resolve_left nofun
  | cons item rest ih =>
    have same := putPixel_mode fb (x item) (y item) (color item)
    obtain ⟨-, -, stride, format, -, -⟩ := mode_eq_iff.mp same
    obtain ⟨inCols, inRows⟩ := within item (.head _)
    have first : (fb.putPixel (x item) (y item) (color item)).target
        (index fb.stride.toNat px py) =
        if px = (x item).toNat ∧ py = (y item).toNat then (color item).toPixel fb.format
        else fb.target (index fb.stride.toNat px py) :=
      putPixel_target area inCols inRows inside
    have later := @ih (fb.putPixel (x item) (y item) (color item)) (area.congr same)
      (fun other member => within other (List.mem_cons_of_mem _ member))
    rw [stride, format] at later
    refine later inside (fun other member => agree other (List.mem_cons_of_mem _ member)) ?_
    by_cases here : px = (x item).toNat ∧ py = (y item).toNat
    · rw [first, if_pos here]
      exact .inr (agree item List.mem_cons_self here.1 here.2)
    rw [first, if_neg here]
    refine covered.imp_left fun ⟨other, member, hits⟩ => ?_
    rcases List.mem_cons.mp member with rfl | inRest
    · exact absurd hits here
    · exact ⟨other, inRest, hits⟩

theorem foldl_putPixel_mode {x y : Item → UInt32} {color : Item → Color} {items : List Item} :
    (items.foldl (fun fb item => fb.putPixel (x item) (y item) (color item)) fb).mode = fb.mode := by
  induction items generalizing fb with
  | nil => rfl
  | cons item rest ih => rw [List.foldl_cons, ih, putPixel_mode]

def cellPixels (bitmap : Vector UInt8 16) : List (UInt8 × Nat × Nat) :=
  bitmap.toList.zipIdx.flatMap fun (rowBits, dy) => (List.range 8).map fun dx => (rowBits, dy, dx)

theorem mem_cellPixels {bitmap : Vector UInt8 16} {rowBits : UInt8} {dx dy : Nat} :
    (rowBits, dy, dx) ∈ cellPixels bitmap ↔
      dy < 16 ∧ dx < 8 ∧ bitmap.toList.getD dy 0 = rowBits := by
  have length : bitmap.toList.length = 16 := bitmap.length_toList
  unfold cellPixels
  rw [List.mem_flatMap]
  constructor
  · rintro ⟨⟨bits, line⟩, listed, member⟩
    obtain ⟨column, inRange, same⟩ := List.mem_map.mp member
    cases same
    rw [List.mem_zipIdx_iff_getElem?] at listed
    obtain ⟨below, -⟩ := List.getElem?_eq_some_iff.mp listed
    refine ⟨by omega, List.mem_range.mp inRange, ?_⟩
    rw [List.getD_eq_getElem?_getD, listed, Option.getD_some]
  · rintro ⟨inLines, inRange, same⟩
    refine ⟨(rowBits, dy), ?_, List.mem_map.mpr ⟨dx, List.mem_range.mpr inRange, rfl⟩⟩
    have present : dy < bitmap.toList.length := by omega
    rw [List.mem_zipIdx_iff_getElem?, ← same, List.getD_eq_getElem?_getD,
      List.getElem?_eq_getElem present, Option.getD_some]

theorem drawChar_eq (font : Font) (fb : Framebuffer) (col row : UInt64) (c : Char) (fg bg : Color) :
    fb.drawChar font col row c fg bg =
      (cellPixels (font c)).foldl (fun fb item =>
        fb.putPixel (col.toUInt32 * charWidth + UInt32.ofNat item.2.2)
          (row.toUInt32 * charHeight + UInt32.ofNat item.2.1)
          (if decide ((item.1 >>> UInt8.ofNat (7 - item.2.2)) &&& 1 ≠ 0) then fg else bg)) fb := by
  unfold drawChar cellPixels
  rw [List.foldl_flatMap]
  simp only [List.foldl_map]

theorem drawChar_mode (font : Font) (fb : Framebuffer) (col row : UInt64) (c : Char)
    (fg bg : Color) : (fb.drawChar font col row c fg bg).mode = fb.mode := by
  rw [drawChar_eq]
  exact foldl_putPixel_mode

/-- A cell of the text area is drawn. -/
theorem drawChar_target (area : fb.TextArea cols rows) (font : Font) {col row : UInt64}
    (inCols : col.toNat < cols) (inRows : row.toNat < rows) (c : Char) (fg bg : Color)
    (inside : px < fb.stride.toNat) :
    (fb.drawChar font col row c fg bg).target (index fb.stride.toNat px py) =
      if py / 16 = row.toNat ∧ px / 8 = col.toNat then
        (if glyphBit (font c) (px % 8) (py % 16) then fg else bg).toPixel fb.format
      else fb.target (index fb.stride.toNat px py) := by
  have wide := area.wide
  have tall := area.tall
  have widthBound := fb.width.toNat_lt
  have heightBound := fb.height.toNat_lt
  have eight : charWidth.toNat = 8 := rfl
  have sixteen : charHeight.toNat = 16 := rfl
  have x : ∀ dx < 8, (col.toUInt32 * charWidth + UInt32.ofNat dx).toNat = col.toNat * 8 + dx := by
    intro dx small
    rw [UInt32.toNat_add, UInt32.toNat_mul, toNat_toUInt32, UInt32.toNat_ofNat', eight]
    omega
  have y : ∀ dy < 16, (row.toUInt32 * charHeight + UInt32.ofNat dy).toNat = row.toNat * 16 + dy := by
    intro dy small
    rw [UInt32.toNat_add, UInt32.toNat_mul, UInt64.toNat_toUInt32, UInt32.toNat_ofNat', sixteen]
    omega
  rw [drawChar_eq]
  refine foldl_putPixel area ?_ inside ?_ ?_
  · rintro ⟨bits, dy, dx⟩ member
    obtain ⟨inLines, inRange, -⟩ := mem_cellPixels.mp member
    rw [x dx inRange, y dy inLines]
    omega
  · rintro ⟨bits, dy, dx⟩ member here there
    obtain ⟨inLines, inRange, rfl⟩ := mem_cellPixels.mp member
    rw [x dx inRange] at here
    rw [y dy inLines] at there
    have column : px % 8 = dx := by omega
    have line : py % 16 = dy := by omega
    have cell : py / 16 = row.toNat ∧ px / 8 = col.toNat := by omega
    rw [if_pos cell, column, line]
    rfl
  · by_cases cell : py / 16 = row.toNat ∧ px / 8 = col.toNat
    · refine .inl ⟨((font c).toList.getD (py % 16) 0, py % 16, px % 8), ?_, ?_⟩
      · exact mem_cellPixels.mpr ⟨Nat.mod_lt _ (by decide), Nat.mod_lt _ (by decide), rfl⟩
      · rw [x _ (Nat.mod_lt _ (by decide)), y _ (Nat.mod_lt _ (by decide))]
        omega
    · exact .inr (if_neg cell).symm

end Framebuffer

/-- The reference terminal for a character of the console. -/
def feed (cols rows : Nat) (terminal : Terminal Char) (c : Char) : Terminal Char :=
  if c = '\n' then terminal.newline rows
  else if c = '\r' then terminal.carriageReturn
  else if c = '\t' then terminal.tab cols 4
  else terminal.put cols rows c

def shade (font : Font) (fg bg : Color) (terminal : Terminal Char) (px py : Nat) : Color :=
  match terminal.cell (py / 16) (px / 8) with
  | none => bg
  | some c => if Framebuffer.glyphBit (font c) (px % 8) (py % 16) then fg else bg

theorem shade_write (font : Font) (fg bg : Color) (terminal : Terminal Char) (c : Char)
    (px py : Nat) :
    shade font fg bg (terminal.write c) px py =
      if py / 16 = terminal.row ∧ px / 8 = terminal.col then
        if glyphBit (font c) (px % 8) (py % 16) then fg else bg
      else shade font fg bg terminal px py := by
  unfold shade Terminal.write
  dsimp only
  by_cases here : py / 16 = terminal.row ∧ px / 8 = terminal.col
  · rw [if_pos here, if_pos here]
  · rw [if_neg here, if_neg here]

theorem shade_scroll (font : Font) (fg bg : Color) (rows : Nat) (terminal : Terminal Char)
    (px py : Nat) :
    shade font fg bg (terminal.scroll rows) px py =
      if py + 16 < rows * 16 then shade font fg bg terminal px (py + 16) else bg := by
  have row : (py + 16) / 16 = py / 16 + 1 := by omega
  have line : (py + 16) % 16 = py % 16 := by omega
  unfold shade Terminal.scroll
  dsimp only
  rw [row, line]
  by_cases moves : py / 16 + 1 < rows
  · rw [if_pos moves, if_pos (by omega)]
  · rw [if_neg moves, if_neg (by omega)]

namespace Screen

variable {font : Font} {base screen : Screen} {terminal : Terminal Char}

/-- The console of the base screen has moved its cursor and shows the terminal's cells. -/
structure Renders (font : Font) (base screen : Screen) (terminal : Terminal Char) : Prop where
  mode : screen.fb.mode = base.fb.mode
  console : screen.console =
    { base.console with col := screen.console.col, row := screen.console.row }
  col : screen.console.col.toNat = terminal.col
  row : screen.console.row.toNat = terminal.row
  inside : terminal.Inside base.console.cols.toNat base.console.rows.toNat
  pixels : ∀ px < base.console.cols.toNat * 8, ∀ py < base.console.rows.toNat * 16,
    screen.fb.target (Raster.index base.fb.stride.toNat px py) =
      (shade font base.console.fgColor base.console.bgColor terminal px py).toPixel base.fb.format

/-- The screen after a character is drawn, scrolled if the cursor has left the last row. -/
def scrolled (drawn : Screen) : Screen :=
  if drawn.console.row ≥ drawn.console.rows then
    ⟨drawn.fb.scrollUp drawn.console, { drawn.console with row := drawn.console.rows - 1 }⟩
  else
    drawn

theorem writeChar_eq (ready : screen.console.initialized = true) (c : Char) :
    screen.writeChar font c = (screen.drawn font c).scrolled :=
  if_neg (by rw [ready]; nofun)

/-! ## The steps -/

section Steps

variable {fb : Framebuffer} {console : Console}

theorem scrolled_of_lt (above : screen.console.row.toNat < screen.console.rows.toNat) :
    screen.scrolled = screen := by
  refine if_neg ?_
  rw [ge_iff_le, UInt64.le_iff_toNat_le]
  omega

section

variable (renders : Renders font base screen terminal)
include renders

theorem Renders.rows_eq : screen.console.rows = base.console.rows := by
  rw [renders.console]

theorem Renders.cols_eq : screen.console.cols = base.console.cols := by
  rw [renders.console]

theorem Renders.colors_eq :
    screen.console.fgColor = base.console.fgColor ∧
      screen.console.bgColor = base.console.bgColor := by
  rw [renders.console]
  exact ⟨rfl, rfl⟩

theorem Renders.scrolled : Renders font base screen.scrolled terminal := by
  rw [scrolled_of_lt]
  · exact renders
  · rw [renders.row, renders.rows_eq]
    exact renders.inside.row_lt

end

section

variable (renders : Renders font base ⟨fb, console⟩ terminal)
include renders

theorem Renders.carriageReturn :
    Renders font base ⟨fb, { console with col := 0 }⟩ terminal.carriageReturn :=
  ⟨renders.mode, congrArg (fun c : Console => { c with col := 0 }) renders.console, rfl,
    renders.row, renders.inside.carriageReturn, renders.pixels⟩

section

variable (area : base.fb.TextArea base.console.cols.toNat base.console.rows.toNat)
include area

/-- The text area is scrolled, with the cursor in the last row. -/
theorem Renders.scroll (row : UInt64) (last : terminal.row + 1 = base.console.rows.toNat) :
    Renders font base
      ⟨fb.scrollUp { console with row := row }, { console with row := console.rows - 1 }⟩
      (terminal.scroll base.console.rows.toNat) := by
  have rows : console.rows = base.console.rows := renders.rows_eq
  have background : console.bgColor = base.console.bgColor := renders.colors_eq.2
  have same : fb.mode = base.fb.mode := renders.mode
  obtain ⟨-, -, stride, format, -, -⟩ := mode_eq_iff.mp same
  refine ⟨?_, ?_, renders.col, ?_, ⟨renders.inside.row_lt, renders.inside.col_lt⟩,
    fun px inCols py inRows => ?_⟩
  · exact (scrollUp_mode _ _).trans same
  · exact congrArg (fun c : Console => { c with row := console.rows - 1 }) renders.console
  · rw [rows, toNat_sub_one (by omega), ← last]
    rfl
  · have area' : fb.TextArea base.console.cols.toNat console.rows.toNat := by
      rw [rows]
      exact area.congr same
    have inRows' : py < console.rows.toNat * 16 := by
      rw [rows]
      exact inRows
    have moved := @Framebuffer.scrollUp_target fb _ px py { console with row := row } area'
      (by dsimp only; omega) inCols inRows'
    rw [stride, format] at moved
    rw [moved, shade_scroll, rows, background]
    by_cases moves : py + 16 < base.console.rows.toNat * 16
    · rw [if_pos moves, if_pos moves]
      exact renders.pixels px inCols (py + 16) moves
    · rw [if_neg moves, if_neg moves]

/-- A cursor that goes to the next row, and the scrolling when there is none. -/
theorem Renders.lineFeed :
    Renders font base (Screen.scrolled ⟨fb, { console with row := console.row + 1 }⟩)
      (terminal.lineFeed base.console.rows.toNat) := by
  have rows : console.rows = base.console.rows := renders.rows_eq
  have row : console.row.toNat = terminal.row := renders.row
  have below := renders.inside.row_lt
  have bound := base.console.rows.toNat_lt
  have one : (1 : UInt64).toNat = 1 := rfl
  have next : (console.row + 1).toNat = terminal.row + 1 := by
    rw [UInt64.toNat_add]
    omega
  have inside := renders.inside.lineFeed
  unfold Terminal.lineFeed at inside ⊢
  by_cases room : terminal.row + 1 < base.console.rows.toNat
  · rw [scrolled_of_lt (by dsimp only; rw [next, rows]; exact room)]
    rw [if_pos room] at inside ⊢
    have moved := congrArg (fun c : Console => { c with row := console.row + 1 }) renders.console
    exact ⟨renders.mode, moved, renders.col, next, inside, renders.pixels⟩
  rw [if_neg room]
  have full : (⟨fb, { console with row := console.row + 1 }⟩ : Screen).scrolled =
      ⟨fb.scrollUp { console with row := console.row + 1 },
        { console with row := console.rows - 1 }⟩ := by
    refine if_pos ?_
    rw [ge_iff_le, UInt64.le_iff_toNat_le]
    rw [next, rows]
    omega
  rw [full]
  exact renders.scroll area _ (by omega)

/-- A tab goes to the next multiple of four, or to the last column. -/
theorem Renders.tab :
    Renders font base
      ⟨fb, { console with col := min ((console.col + 4) &&& ~~~3) (console.cols - 1) }⟩
      (terminal.tab base.console.cols.toNat 4) := by
  have cols : console.cols = base.console.cols := renders.cols_eq
  have col : console.col.toNat = terminal.col := renders.col
  have before := renders.inside.col_lt
  have wide := area.wide
  have bound := base.fb.width.toNat_lt
  have four : (4 : UInt64).toNat = 4 := rfl
  have mask : (~~~(3 : UInt64)).toNat = Word.not64 (2 ^ 2 - 1) := by decide
  have moved := congrArg
    (fun c : Console => { c with col := min ((console.col + 4) &&& ~~~3) (console.cols - 1) })
    renders.console
  refine ⟨renders.mode, moved, ?_, renders.row, renders.inside.tab 4, renders.pixels⟩
  dsimp only [Terminal.tab]
  have sum : (console.col + 4).toNat = terminal.col + 4 := by
    rw [UInt64.toNat_add]
    omega
  have stop : ((console.col + 4) &&& ~~~3).toNat = (terminal.col / 4 + 1) * 4 := by
    rw [UInt64.toNat_and, mask, Word.and_not64_eq_div_mul (toNat_lt _) (by decide)]
    omega
  rw [UInt64.toNat_min, stop, cols, toNat_sub_one (by omega)]

theorem Renders.write (c : Char) :
    Renders font base
      ⟨fb.drawChar font console.col console.row c console.fgColor console.bgColor, console⟩
      (terminal.write c) := by
  have same : fb.mode = base.fb.mode := renders.mode
  obtain ⟨-, -, stride, format, -, -⟩ := mode_eq_iff.mp same
  have col : console.col.toNat = terminal.col := renders.col
  have row : console.row.toNat = terminal.row := renders.row
  have foreground : console.fgColor = base.console.fgColor := renders.colors_eq.1
  have background : console.bgColor = base.console.bgColor := renders.colors_eq.2
  refine ⟨?_, renders.console, renders.col, renders.row, renders.inside.write c,
    fun px inCols py inRows => ?_⟩
  · exact (drawChar_mode _ _ _ _ _ _ _).trans same
  · have shown := area.congr same
    have drawn := @Framebuffer.drawChar_target fb _ _ px py shown font console.col console.row
      (by rw [col]; exact renders.inside.col_lt) (by rw [row]; exact renders.inside.row_lt) c
      console.fgColor console.bgColor (shown.lt_stride inCols)
    rw [stride, format, col, row, foreground, background] at drawn
    rw [foreground, background, drawn, shade_write]
    by_cases here : py / 16 = terminal.row ∧ px / 8 = terminal.col
    · rw [if_pos here, if_pos here]
    · rw [if_neg here, if_neg here]
      exact renders.pixels px inCols py inRows

/-- A character is drawn and the cursor moves on, to the next row behind the last column. -/
theorem Renders.put (c : Char) :
    Renders font base
      (Screen.scrolled ⟨fb.drawChar font console.col console.row c console.fgColor console.bgColor,
        if console.col + 1 ≥ console.cols then { console with col := 0, row := console.row + 1 }
        else { console with col := console.col + 1 }⟩)
      (terminal.put base.console.cols.toNat base.console.rows.toNat c) := by
  have written := renders.write area c
  have cols : console.cols = base.console.cols := renders.cols_eq
  have col : console.col.toNat = terminal.col := renders.col
  have before := renders.inside.col_lt
  have bound := base.console.cols.toNat_lt
  have one : (1 : UInt64).toNat = 1 := rfl
  have next : (console.col + 1).toNat = terminal.col + 1 := by
    rw [UInt64.toNat_add]
    omega
  have wraps : console.col + 1 ≥ console.cols ↔
      ¬ terminal.col + 1 < base.console.cols.toNat := by
    rw [ge_iff_le, UInt64.le_iff_toNat_le, next, cols, not_lt]
  unfold Terminal.put
  by_cases room : terminal.col + 1 < base.console.cols.toNat
  · rw [if_neg fun full => wraps.mp full room, if_pos room]
    have moved := congrArg (fun c : Console => { c with col := console.col + 1 }) written.console
    have forward : Renders font base
        ⟨fb.drawChar font console.col console.row c console.fgColor console.bgColor,
          { console with col := console.col + 1 }⟩
        { terminal.write c with col := terminal.col + 1 } :=
      ⟨written.mode, moved, next, written.row, ⟨written.inside.row_lt, room⟩, written.pixels⟩
    exact forward.scrolled
  · rw [if_pos (wraps.mpr room), if_neg room]
    exact written.carriageReturn.lineFeed area

end

end

section

variable (renders : Renders font base screen terminal) (ready : base.console.initialized = true)
  (area : base.fb.TextArea base.console.cols.toNat base.console.rows.toNat)
include renders ready area

/-- A printed character is fed to the terminal. -/
theorem Renders.writeChar (c : Char) :
    Renders font base (screen.writeChar font c)
      (feed base.console.cols.toNat base.console.rows.toNat terminal c) := by
  obtain ⟨fb, console⟩ := screen
  have on : console.initialized = true :=
    (congrArg Console.initialized renders.console).trans ready
  rw [writeChar_eq on]
  unfold drawn Console.advance feed
  by_cases newline : c = '\n'
  · rw [if_pos newline, if_pos newline]
    exact renders.carriageReturn.lineFeed area
  rw [if_neg newline, if_neg newline]
  by_cases carriage : c = '\r'
  · rw [if_pos carriage, if_pos carriage]
    exact renders.carriageReturn.scrolled
  rw [if_neg carriage, if_neg carriage]
  by_cases tab : c = '\t'
  · rw [if_pos tab, if_pos tab]
    exact (renders.tab area).scrolled
  rw [if_neg tab, if_neg tab]
  have put := renders.put area c
  by_cases wraps : console.col + 1 ≥ console.cols
  · rw [if_pos wraps] at put
    rw [if_pos wraps]
    exact put
  · rw [if_neg wraps] at put
    rw [if_neg wraps]
    exact put

theorem Renders.writeChars (text : List Char) :
    Renders font base (screen.writeChars font text)
      (text.foldl (feed base.console.cols.toNat base.console.rows.toNat) terminal) := by
  induction text generalizing screen terminal with
  | nil => exact renders
  | cons c rest ih => exact ih (renders.writeChar ready area c)

end

end Steps

/--
The console is set up for its framebuffer and has a text area: at least one
column and one row, scan lines that do not overlap, and offsets of its pixels
that fit into 32 bits when counted in bytes.
-/
structure HasTextArea (screen : Screen) : Prop where
  ready : screen.fb.initialized = true
  on : screen.console.initialized = true
  cols_eq : screen.console.cols = (Console.init screen.fb).cols
  rows_eq : screen.console.rows = (Console.init screen.fb).rows
  cols_pos : 0 < screen.console.cols.toNat
  rows_pos : 0 < screen.console.rows.toNat
  narrow : screen.fb.width.toNat ≤ screen.fb.stride.toNat
  small : screen.console.rows.toNat * 16 * screen.fb.stride.toNat ≤ 2 ^ 30

theorem HasTextArea.textArea (has : screen.HasTextArea) :
    screen.fb.TextArea screen.console.cols.toNat screen.console.rows.toNat := by
  have eight : charWidth.toNat = 8 := rfl
  have sixteen : charHeight.toNat = 16 := rfl
  have cols : (Console.init screen.fb).cols.toNat ≤ screen.fb.width.toNat / 8 := by
    unfold Console.init
    rw [toNat_toUInt64, UInt32.toNat_min, UInt32.toNat_div]
    exact min_le_left _ _
  have rows : (Console.init screen.fb).rows.toNat ≤ screen.fb.height.toNat / 16 := by
    rw [init_rows, init_totalRows]
    exact (sub_le ..).trans (min_le_left ..)
  rw [← has.cols_eq] at cols
  rw [← has.rows_eq] at rows
  exact ⟨has.ready, by omega, by omega, has.narrow, has.small⟩

theorem HasTextArea.clear (has : screen.HasTextArea) (font : Font) :
    Renders font screen screen.clear Terminal.blank := by
  have area := has.textArea
  have tall := area.tall
  refine ⟨?_, rfl, rfl, rfl, ⟨has.rows_pos, has.cols_pos⟩, fun px inCols py inRows => ?_⟩
  · exact (present_mode _).trans (clear_mode _ _)
  · unfold Screen.clear
    rw [present_target]
    exact clear_target has.ready (area.lt_stride inCols) (by omega)

/--
Whatever is printed on a cleared console, the cursor is where the reference
terminal has it, on the grid, and every pixel of the text area has the color
that the terminal's cell gives it.
-/
theorem print_shows_terminal (has : screen.HasTextArea) (font : Font) (text : List Char) :
    let cols := screen.console.cols.toNat
    let rows := screen.console.rows.toNat
    let terminal := text.foldl (feed cols rows) Terminal.blank
    let after := screen.clear.print font text
    after.fb.mode = screen.fb.mode ∧
      after.console.col.toNat = terminal.col ∧ after.console.row.toNat = terminal.row ∧
      after.console.col.toNat < cols ∧ after.console.row.toNat < rows ∧
      ∀ px < cols * 8, ∀ py < rows * 16,
        after.fb.target (Raster.index screen.fb.stride.toNat px py) =
          (shade font screen.console.fgColor screen.console.bgColor terminal px py).toPixel
            screen.fb.format := by
  intro cols rows terminal after
  have renders : Renders font screen (screen.clear.writeChars font text) terminal :=
    (has.clear font).writeChars has.on has.textArea text
  refine ⟨?_, renders.col, renders.row, ?_, ?_, fun px inCols py inRows => ?_⟩
  · exact (present_mode _).trans renders.mode
  · exact renders.col.trans_lt renders.inside.col_lt
  · exact renders.row.trans_lt renders.inside.row_lt
  · refine Eq.trans ?_ (renders.pixels px inCols py inRows)
    exact congrFun (present_target _) _

/-- On two by two cells the last row is written, wrapped and scrolled. -/
theorem print_shows_terminal_small :
    let screen := Screen.init smallMode (fun _ => 0) (some fun _ => 0)
    let after := screen.clear.print blockFont ['a', '\n', 'b', 'c', '\r', '\t']
    after.console.col.toNat = 1 ∧ after.console.row.toNat = 1 ∧
      ∀ px < 16, ∀ py < 32, after.fb.target (Raster.index 16 px py) =
        if py < 16 then Color.white.toPixel .bgr else Color.teal.toPixel .bgr := by
  intro screen after
  have has : screen.HasTextArea := ⟨rfl, rfl, rfl, rfl, by decide, by decide, by decide, by decide⟩
  obtain ⟨-, col, row, -, -, pixels⟩ :=
    print_shows_terminal has blockFont ['a', '\n', 'b', 'c', '\r', '\t']
  refine ⟨col.trans (by decide +kernel), row.trans (by decide +kernel), ?_⟩
  refine fun px inCols py inRows => (pixels px inCols py inRows).trans ?_
  revert px py
  decide +kernel

end Screen

end CantayaOS.Graphics
