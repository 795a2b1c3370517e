import Mathlib

/-!
# A character-grid terminal

The reference for text output: a grid of cells with a cursor.  A glyph is put at
the cursor, which moves on and wraps behind the last column; when it would leave
the last row, all rows move up and the last one becomes blank.
-/

namespace CantayaOS.Lib

/-- The cells by row and column; a blank cell holds no glyph. -/
structure Terminal (Glyph : Type) where
  cell : Nat → Nat → Option Glyph
  row : Nat
  col : Nat

namespace Terminal

variable {Glyph : Type} (cols rows : Nat) (terminal : Terminal Glyph)

def blank : Terminal Glyph := ⟨fun _ _ => none, 0, 0⟩

def scroll : Terminal Glyph :=
  { terminal with
    cell := fun row col => if row + 1 < rows then terminal.cell (row + 1) col else none }

def lineFeed : Terminal Glyph :=
  if terminal.row + 1 < rows then { terminal with row := terminal.row + 1 }
  else terminal.scroll rows

def carriageReturn : Terminal Glyph := { terminal with col := 0 }

def newline : Terminal Glyph := terminal.carriageReturn.lineFeed rows

/-- Go to the next tab stop, or to the last column when there is none. -/
def tab (stop : Nat) : Terminal Glyph :=
  { terminal with col := min ((terminal.col / stop + 1) * stop) (cols - 1) }

def write (glyph : Glyph) : Terminal Glyph :=
  { terminal with
    cell := fun row col =>
      if row = terminal.row ∧ col = terminal.col then some glyph else terminal.cell row col }

def put (glyph : Glyph) : Terminal Glyph :=
  let written := terminal.write glyph
  if terminal.col + 1 < cols then { written with col := terminal.col + 1 }
  else written.newline rows

structure Inside : Prop where
  row_lt : terminal.row < rows
  col_lt : terminal.col < cols

variable {cols rows terminal}

section

variable (inside : terminal.Inside cols rows)
include inside

theorem Inside.lineFeed : (terminal.lineFeed rows).Inside cols rows := by
  unfold Terminal.lineFeed
  split
  · exact ⟨‹_›, inside.col_lt⟩
  · exact ⟨inside.row_lt, inside.col_lt⟩

theorem Inside.carriageReturn : terminal.carriageReturn.Inside cols rows :=
  ⟨inside.row_lt, lt_of_le_of_lt (Nat.zero_le _) inside.col_lt⟩

theorem Inside.tab (stop : Nat) : (terminal.tab cols stop).Inside cols rows := by
  have below := inside.col_lt
  refine ⟨inside.row_lt, ?_⟩
  exact lt_of_le_of_lt (min_le_right _ _) (by omega)

theorem Inside.write (glyph : Glyph) :
    (terminal.write glyph).Inside cols rows := ⟨inside.row_lt, inside.col_lt⟩

end

end Terminal

end CantayaOS.Lib
