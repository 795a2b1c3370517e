import Mathlib

/-!
# Pixels in linear memory

A raster keeps the rows of a picture one behind the other, a fixed number of
cells apart.  Everything is written by painting runs of neighbouring cells; a
run that stays within a row changes the pixels of that row only.
-/

namespace CantayaOS.Lib.Raster

variable {Value : Type}

def index (stride x y : Nat) : Nat := y * stride + x

def paint (start count : Nat) (source : Nat → Value) (cells : Nat → Value) : Nat → Value :=
  fun cell => if start ≤ cell ∧ cell < start + count then source (cell - start) else cells cell

variable {stride x y count px py start cell : Nat} {source cells : Nat → Value}

theorem paint_of_not_mem (outside : cell < start ∨ start + count ≤ cell) :
    paint start count source cells cell = cells cell := by
  rw [paint, if_neg]
  omega

theorem paint_of_mem (low : start ≤ cell) (high : cell < start + count) :
    paint start count source cells cell = source (cell - start) := by
  rw [paint, if_pos ⟨low, high⟩]

/-- Cells of different rows are ordered like the rows. -/
theorem index_lt_of_lt (inside : x < stride) (above : y < py) :
    index stride x y < index stride px py := by
  have next : (y + 1) * stride ≤ py * stride := Nat.mul_le_mul_right stride above
  unfold index
  rw [add_mul] at next
  omega

theorem index_lt (inside : x < stride) (above : y < py) : index stride x y < py * stride := by
  have below : index stride x y < index stride 0 py := index_lt_of_lt inside above
  exact below

/-- A run within a row changes the pixels of that row it covers. -/
theorem paint_row (inside : px < stride) (fits : x + count ≤ stride) :
    paint (index stride x y) count source cells (index stride px py) =
      if py = y ∧ x ≤ px ∧ px < x + count then source (px - x)
      else cells (index stride px py) := by
  split_ifs with here
  · obtain ⟨rfl, low, high⟩ := here
    rw [paint_of_mem]
    · congr 1
      unfold index
      omega
    · unfold index
      omega
    · unfold index
      omega
  · refine paint_of_not_mem ?_
    rcases lt_trichotomy py y with above | rfl | below
    · exact .inl (index_lt_of_lt inside above)
    · unfold index
      omega
    · refine .inr ?_
      have next : (y + 1) * stride ≤ py * stride := Nat.mul_le_mul_right stride below
      unfold index
      rw [add_mul] at next
      omega

/-- A run of whole rows changes the pixels of those rows. -/
theorem paint_rows {rows : Nat} (inside : px < stride) :
    paint (y * stride) (rows * stride) source cells (index stride px py) =
      if y ≤ py ∧ py < y + rows then source (index stride px py - y * stride)
      else cells (index stride px py) := by
  have whole : y * stride + rows * stride = (y + rows) * stride := (add_mul _ _ _).symm
  split_ifs with here
  · refine paint_of_mem ?_ ?_
    · have above := Nat.mul_le_mul_right stride here.1
      unfold index
      omega
    · rw [whole]
      exact index_lt inside here.2
  · refine paint_of_not_mem ?_
    rcases lt_or_ge py y with above | below
    · exact .inl (index_lt inside above)
    · have behind := Nat.mul_le_mul_right stride (Nat.le_of_not_lt fun less => here ⟨below, less⟩)
      unfold index
      omega

section Loops

variable {Item : Type} {body : (Nat → Value) → Item → Nat → Value} {items : List Item}

/-- A cell that no round of a loop writes keeps its value. -/
theorem foldl_keeps (keeps : ∀ item ∈ items, ∀ cells, body cells item cell = cells cell)
    (cells : Nat → Value) : items.foldl body cells cell = cells cell :=
  List.foldlRecOn (motive := fun after : Nat → Value => after cell = cells cell) _ _ rfl
    fun _ kept item member => (keeps item member _).trans kept

/-- A cell that one round sets to a value, and no round to another, has that value. -/
theorem foldl_settles {value : Value}
    (sets : ∀ item ∈ items, ∀ cells, body cells item cell = value ∨ body cells item cell = cells cell)
    (hit : ∃ item ∈ items, ∀ cells, body cells item cell = value) (cells : Nat → Value) :
    items.foldl body cells cell = value := by
  induction items generalizing cells with
  | nil =>
    obtain ⟨item, member, _⟩ := hit
    cases member
  | cons item rest ih =>
    have later : ∀ other ∈ rest, ∀ cells,
        body cells other cell = value ∨ body cells other cell = cells cell :=
      fun other member => sets other (List.mem_cons_of_mem _ member)
    obtain ⟨found, member, sets'⟩ := hit
    rcases List.mem_cons.mp member with rfl | inRest
    · exact List.foldlRecOn (motive := (· cell = value)) _ _ (sets' cells) fun cells done other inRest =>
        (later other inRest cells).elim id fun kept => kept.trans done
    · exact ih later ⟨found, inRest, sets'⟩ _

end Loops

/-- Move every row of the given width up by a number of rows, from the top on. -/
def moveUp (stride width shift count : Nat) (cells : Nat → Value) : Nat → Value :=
  (List.range count).foldl (fun cells row =>
    paint (row * stride) width (fun offset => cells ((row + shift) * stride + offset)) cells) cells

theorem moveUp_index {width shift : Nat} (inside : px < width) (fits : width ≤ stride) :
    moveUp stride width shift count cells (index stride px py) =
      if py < count then cells (index stride px (py + shift)) else cells (index stride px py) := by
  induction count generalizing py with
  | zero => rfl
  | succ count ih =>
    -- The row copied last still has its first value: only rows above it were written.
    have source : moveUp stride width shift count cells ((count + shift) * stride + px) =
        cells (index stride px (count + shift)) := by
      refine ih.trans (if_neg ?_)
      omega
    have last : moveUp stride width shift (count + 1) cells =
        paint (index stride 0 count) width (fun offset =>
          moveUp stride width shift count cells ((count + shift) * stride + offset))
            (moveUp stride width shift count cells) := by
      unfold moveUp
      rw [List.range_succ, List.foldl_append, List.foldl_cons]
      rfl
    rw [last, paint_row (inside.trans_le fits) (by omega), Nat.sub_zero, source, ih]
    rcases Nat.lt_trichotomy py count with above | rfl | below
    · rw [if_neg (by omega), if_pos above, if_pos (by omega)]
    · rw [if_pos (by omega), if_pos (by omega)]
    · rw [if_neg (by omega), if_neg (by omega), if_neg (by omega)]

end CantayaOS.Lib.Raster
