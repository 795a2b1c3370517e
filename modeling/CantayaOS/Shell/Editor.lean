import CantayaOS.Hal.Keyboard
import CantayaOS.Lib.Transition
import CantayaOS.Lib.Utf8
import CantayaOS.Storage.Fat32

/-!
# The text editor of the shell

The editor keeps a file as lines of text and the cursor as a row and a byte
offset (`shell/editor.rs`).  It draws the screen, waits for a key, and goes on
until it is left; before an unsaved text is given up it waits for one more key.
The bars above and below the text are left out.

The offset moves by single bytes, so the editor is safe for exactly the files
that hold no longer characters.
-/

namespace CantayaOS.Shell

open Hal Lib Lib.Utf8 Storage

/-! ## The editor -/

inductive EditorPhase where
  | drawing
  | waiting
  | confirming
  | closed
deriving DecidableEq, Repr

structure EditorState where
  lines : List (List Char)
  cursorRow : Nat
  cursorCol : Nat
  scrollOffset : Nat
  modified : Bool
  phase : EditorPhase
deriving DecidableEq, Repr

inductive EditorInput where
  | draw
  /-- A key, and what saving a text would give. -/
  | key (event : KeyEvent) (writeFile : List UInt8 → Bool)

variable {screenCols screenRows : Nat} {editor : Except Fault EditorState}

namespace EditorState

/-- The text of a file; bytes that are no text are taken for an empty one. -/
def textOf (contents : Option (List UInt8)) : List Char :=
  (Storage.fromUtf8 (contents.getD [])).getD []

def load (contents : Option (List UInt8)) : EditorState where
  lines :=
    let text := textOf contents
    let lines := if text = [] then [[]] else Utf8.lines text
    if lines = [] then [[]] else lines
  cursorRow := 0
  cursorCol := 0
  scrollOffset := 0
  modified := false
  phase := .drawing

variable (state : EditorState)

def content : List UInt8 := Storage.toUtf8 (['\n'].intercalate state.lines)

def lineAt (row : Nat) : Except Fault (List Char) :=
  match state.lines[row]? with
  | some line => .ok line
  | none => .error .panic

/-- A line cut to the screen.  With fewer than five columns the width wraps around, and no
line is longer. -/
def display (screenCols : Nat) (line : List Char) : Except Fault (List Char) :=
  if 5 ≤ screenCols ∧ byteLen line > screenCols - 5 then
    (splitAt line (screenCols - 5)).map Prod.fst
  else .ok line

def editRows (screenRows : Nat) : Nat := screenRows - 2

/-- The rows of the screen: a line with its number, or nothing behind the last line. -/
def draw (screenCols screenRows : Nat) : Except Fault (List (Option (Nat × List Char))) :=
  (List.range (editRows screenRows)).mapM fun i =>
    match state.lines[state.scrollOffset + i]? with
    | some line => (display screenCols line).map fun shown => some (state.scrollOffset + i + 1, shown)
    | none => .ok none

def adjustScroll (screenRows : Nat) : EditorState :=
  let above :=
    if state.cursorRow < state.scrollOffset then { state with scrollOffset := state.cursorRow }
    else state
  if above.cursorRow ≥ above.scrollOffset + editRows screenRows then
    { above with scrollOffset := above.cursorRow - editRows screenRows + 1 }
  else above

def insertLine : Except Fault EditorState := do
  let current ← state.lineAt state.cursorRow
  let (front, rest) ← splitAt current state.cursorCol
  return { state with
    lines := (state.lines.set state.cursorRow front).insertIdx (state.cursorRow + 1) rest
    cursorRow := state.cursorRow + 1
    cursorCol := 0
    modified := true }

def backspace : Except Fault EditorState :=
  if 0 < state.cursorCol then do
    let current ← state.lineAt state.cursorRow
    let shorter ← removeAt current (state.cursorCol - 1)
    return { state with
      lines := state.lines.set state.cursorRow shorter
      cursorCol := state.cursorCol - 1
      modified := true }
  else if 0 < state.cursorRow then do
    let current ← state.lineAt state.cursorRow
    let previous ← state.lineAt (state.cursorRow - 1)
    return { state with
      lines := (state.lines.eraseIdx state.cursorRow).set (state.cursorRow - 1) (previous ++ current)
      cursorRow := state.cursorRow - 1
      cursorCol := byteLen previous
      modified := true }
  else return state

/-- Type text of single bytes at the cursor. -/
def insertText (piece : List Char) : Except Fault EditorState := do
  let current ← state.lineAt state.cursorRow
  let longer ← insertAt current state.cursorCol piece
  return { state with
    lines := state.lines.set state.cursorRow longer
    cursorCol := state.cursorCol + piece.length
    modified := true }

/-- Go to another row, with the offset cut to the length of its line. -/
def moveTo (row : Nat) : Except Fault EditorState := do
  let line ← state.lineAt row
  return { state with cursorRow := row, cursorCol := min state.cursorCol (byteLen line) }

def moveCursor (key : KeyCode) : Except Fault EditorState :=
  match key with
  | .up => if 0 < state.cursorRow then state.moveTo (state.cursorRow - 1) else return state
  | .down =>
    if state.cursorRow < state.lines.length - 1 then state.moveTo (state.cursorRow + 1)
    else return state
  | .left =>
    return if 0 < state.cursorCol then { state with cursorCol := state.cursorCol - 1 } else state
  | .right => do
    let line ← state.lineAt state.cursorRow
    return if state.cursorCol < byteLen line then { state with cursorCol := state.cursorCol + 1 }
      else state
  | _ => return state

/-- What a key does, before the screen is scrolled. -/
def edit (event : KeyEvent) (writeFile : List UInt8 → Bool) : Except Fault EditorState :=
  if event.ascii = 0x13 then
    return if writeFile state.content then { state with modified := false } else state
  else if event.ascii = 0x11 then
    return { state with phase := if state.modified then .confirming else .closed }
  else if event.ascii = 0x07 then
    return { state with cursorRow := 0, cursorCol := 0, scrollOffset := 0 }
  else if event.ascii = 0x0A then state.insertLine
  else if event.ascii = 0x08 then state.backspace
  else if event.ascii = 0x09 then state.insertText [' ', ' ', ' ', ' ']
  else if 0x20 ≤ event.ascii ∧ event.ascii ≤ 0x7E then
    state.insertText [Char.ofNat event.ascii.toNat]
  else state.moveCursor event.key

/-- A key that was waited for.  The quit dialogue keeps the key for itself. -/
def handleKey (screenRows : Nat) (event : KeyEvent) (writeFile : List UInt8 → Bool) :
    Except Fault EditorState := do
  let after ← { state with phase := .drawing }.edit event writeFile
  return if after.phase = .confirming then after else after.adjustScroll screenRows

/-- The key that answers the question whether to quit. -/
def confirm (screenRows : Nat) (event : KeyEvent) : EditorState :=
  { state with phase := if event.ascii = 0x11 then .closed else .drawing }.adjustScroll screenRows

/-- One step of the editor; a fault ends it. -/
def step (screenCols screenRows : Nat) (editor : Except Fault EditorState) (input : EditorInput) :
    Option (Except Fault EditorState) :=
  match editor with
  | .error _ => none
  | .ok state =>
    match state.phase, input with
    | .drawing, .draw =>
      some ((state.draw screenCols screenRows).map fun _ => { state with phase := .waiting })
    | .waiting, .key event writeFile => some (state.handleKey screenRows event writeFile)
    | .confirming, .key event _ => some (.ok (state.confirm screenRows event))
    | _, _ => none

/-- The cursor is in a row and on a character boundary of its line. -/
def CursorSound : Prop :=
  ∃ line, state.lines[state.cursorRow]? = some line ∧ Boundary line state.cursorCol

/-- The editor has not failed, and its cursor is sound. -/
def Sound (editor : Except Fault EditorState) : Prop :=
  ∃ state, editor = .ok state ∧ state.CursorSound

variable {state} {row col : Nat} {line : List Char} {input : EditorInput}
  {next : Except Fault EditorState}

/-! ## Files of single bytes -/

/-- All lines have single bytes only, and the cursor is in one. -/
structure Plain (state : EditorState) : Prop where
  single : ∀ line ∈ state.lines, Single line
  cursor : ∃ line, state.lines[state.cursorRow]? = some line ∧ state.cursorCol ≤ byteLen line

theorem Plain.cursorSound (plain : state.Plain) : state.CursorSound := by
  obtain ⟨line, found, inside⟩ := plain.cursor
  exact ⟨line, found, (plain.single line (List.mem_of_getElem? found)).boundary_iff.mpr inside⟩

theorem lineAt_eq (found : state.lines[row]? = some line) : state.lineAt row = .ok line := by
  rw [lineAt, found]

theorem display_plain (screenCols : Nat) (single : Single line) :
    ∃ shown, display screenCols line = .ok shown := by
  unfold display
  split
  · rename_i long
    rw [single.splitAt_eq long.2.le]
    exact ⟨_, rfl⟩
  · exact ⟨line, rfl⟩

open Checked

theorem mapM_ok {α β : Type} {f : α → Except Fault β} {items : List α}
    (each : ∀ item ∈ items, ∃ result, f item = .ok result) : ∃ results, items.mapM f = .ok results := by
  induction items with
  | nil => exact ⟨[], rfl⟩
  | cons item rest ih =>
    obtain ⟨result, isResult⟩ := each item (.head _)
    obtain ⟨results, isResults⟩ := ih fun other member => each other (List.mem_cons_of_mem _ member)
    refine ⟨result :: results, ?_⟩
    rw [List.mapM_cons, isResult, isResults]
    rfl

theorem draw_plain (screenCols screenRows : Nat) (plain : state.Plain) :
    ∃ rows, state.draw screenCols screenRows = .ok rows := by
  refine mapM_ok fun i _ => ?_
  cases found : state.lines[state.scrollOffset + i]? with
  | none => exact ⟨none, rfl⟩
  | some line =>
    obtain ⟨shown, isShown⟩ := display_plain screenCols
      (plain.single line (List.mem_of_getElem? found))
    dsimp only
    rw [isShown]
    exact ⟨_, rfl⟩

section

variable (plain : state.Plain)
include plain

theorem insertLine_plain : ∃ after, state.insertLine = .ok after ∧ after.Plain := by
  obtain ⟨line, found, inside⟩ := plain.cursor
  have single := plain.single line (List.mem_of_getElem? found)
  have rowLt := (List.getElem?_eq_some_iff.mp found).1
  rw [insertLine, lineAt_eq found, ok_bind, single.splitAt_eq inside]
  refine ⟨_, rfl, ?_, ?_⟩
  · intro other member
    rcases List.eq_or_mem_of_mem_insertIdx member with rfl | before
    · exact fun char inRest => single char (List.mem_of_mem_drop inRest)
    · rcases List.mem_or_eq_of_mem_set before with old | rfl
      · exact plain.single other old
      · exact fun char inFront => single char (List.mem_of_mem_take inFront)
  · refine ⟨line.drop state.cursorCol, ?_, Nat.zero_le _⟩
    rw [List.getElem?_insertIdx_self, if_pos]
    rw [List.length_set]
    exact rowLt

theorem Plain.set (single : Single line) (inside : col ≤ byteLen line) (modified : Bool) :
    Plain { state with
      lines := state.lines.set state.cursorRow line, cursorCol := col, modified := modified } := by
  obtain ⟨old, found, -⟩ := plain.cursor
  have rowLt := (List.getElem?_eq_some_iff.mp found).1
  refine ⟨fun other member => ?_, line, List.getElem?_set_self rowLt, inside⟩
  rcases List.mem_or_eq_of_mem_set member with before | rfl
  · exact plain.single other before
  · exact single

theorem backspace_plain : ∃ after, state.backspace = .ok after ∧ after.Plain := by
  obtain ⟨line, found, inside⟩ := plain.cursor
  have single := plain.single line (List.mem_of_getElem? found)
  unfold backspace
  by_cases within : 0 < state.cursorCol
  · rw [if_pos within, lineAt_eq found, ok_bind]
    have length := single.byteLen_eq
    have before : state.cursorCol - 1 < line.length := by omega
    have removed : removeAt line (state.cursorCol - 1) =
        .ok (line.take (state.cursorCol - 1) ++ line.drop (state.cursorCol - 1 + 1)) := by
      rw [removeAt, single.splitAt_eq (by omega), List.drop_eq_getElem_cons before]
    have shorter : Single (line.take (state.cursorCol - 1) ++ line.drop (state.cursorCol - 1 + 1)) :=
      Single.append (fun char member => single char (List.mem_of_mem_take member))
        (fun char member => single char (List.mem_of_mem_drop member))
    rw [removed]
    refine ⟨_, rfl, plain.set shorter ?_ true⟩
    rw [shorter.byteLen_eq, List.length_append, List.length_take]
    omega
  · rw [if_neg within]
    by_cases below : 0 < state.cursorRow
    · have rowLt := (List.getElem?_eq_some_iff.mp found).1
      have aboveLt : state.cursorRow - 1 < state.lines.length := by omega
      have above : state.lines[state.cursorRow - 1]? = some state.lines[state.cursorRow - 1] :=
        List.getElem?_eq_getElem aboveLt
      have upper := plain.single _ (List.mem_of_getElem? above)
      rw [if_pos below, lineAt_eq found, lineAt_eq above]
      refine ⟨_, rfl, ?_, ?_⟩
      · intro other member
        rcases List.mem_or_eq_of_mem_set member with old | rfl
        · exact plain.single other (List.mem_of_mem_eraseIdx old)
        · exact upper.append single
      · refine ⟨_, List.getElem?_set_self ?_, ?_⟩
        · rw [List.length_eraseIdx_of_lt rowLt]
          omega
        · rw [byteLen_append]
          exact Nat.le_add_right _ _
    · rw [if_neg below]
      exact ⟨state, rfl, plain⟩

theorem insertText_plain {piece : List Char} (typed : Single piece) :
    ∃ after, state.insertText piece = .ok after ∧ after.Plain := by
  obtain ⟨line, found, inside⟩ := plain.cursor
  have single := plain.single line (List.mem_of_getElem? found)
  have longer : Single (line.take state.cursorCol ++ piece ++ line.drop state.cursorCol) :=
    Single.append (Single.append (fun char member => single char (List.mem_of_mem_take member)) typed)
      (fun char member => single char (List.mem_of_mem_drop member))
  have length := single.byteLen_eq
  rw [insertText, lineAt_eq found, ok_bind, insertAt, single.splitAt_eq inside]
  refine ⟨_, rfl, plain.set longer ?_ true⟩
  rw [longer.byteLen_eq, List.length_append, List.length_append, List.length_take]
  omega

theorem moveTo_plain (inside : row < state.lines.length) :
    ∃ after, state.moveTo row = .ok after ∧ after.Plain := by
  have found := List.getElem?_eq_getElem inside
  rw [moveTo, lineAt_eq found]
  exact ⟨_, rfl, plain.single, _, found, min_le_right _ _⟩

theorem moveCursor_plain (key : KeyCode) :
    ∃ after, state.moveCursor key = .ok after ∧ after.Plain := by
  obtain ⟨line, found, inside⟩ := plain.cursor
  have rowLt := (List.getElem?_eq_some_iff.mp found).1
  have stays : ∃ after, (.ok state : Except Fault EditorState) = .ok after ∧ after.Plain :=
    ⟨state, rfl, plain⟩
  unfold moveCursor
  split
  · split
    · exact moveTo_plain plain (by omega)
    · exact stays
  · split
    · exact moveTo_plain plain (by omega)
    · exact stays
  · split
    · exact ⟨_, rfl, plain.single, line, found, le_trans (Nat.sub_le _ _) inside⟩
    · exact stays
  · rw [lineAt_eq found, ok_bind]
    split
    · rename_i before
      exact ⟨_, rfl, plain.single, line, found, before⟩
    · exact stays
  · exact stays

end

theorem single_typed (ascii : UInt8) (small : ascii < 128) : Single [Char.ofNat ascii.toNat] := by
  have each : ∀ n < 128, (Char.ofNat n).utf8Size = 1 := by decide +kernel
  exact List.forall_mem_singleton.mpr (each ascii.toNat small)

theorem edit_plain (plain : state.Plain) (event : KeyEvent) (writeFile : List UInt8 → Bool) :
    ∃ after, state.edit event writeFile = .ok after ∧ after.Plain := by
  unfold edit
  split
  · split
    · exact ⟨_, rfl, plain.single, plain.cursor⟩
    · exact ⟨_, rfl, plain⟩
  split
  · exact ⟨_, rfl, plain.single, plain.cursor⟩
  split
  · obtain ⟨line, found, -⟩ := plain.cursor
    have nonempty : 0 < state.lines.length :=
      lt_of_le_of_lt (Nat.zero_le _) (List.getElem?_eq_some_iff.mp found).1
    exact ⟨_, rfl, plain.single, _, List.getElem?_eq_getElem nonempty, Nat.zero_le _⟩
  · split
    · exact insertLine_plain plain
    · split
      · exact backspace_plain plain
      · split
        · exact insertText_plain plain (by decide)
        · split
          · rename_i printable
            refine insertText_plain plain (single_typed event.ascii ?_)
            exact UInt8.lt_of_le_of_lt printable.2 (by decide)
          · exact moveCursor_plain plain event.key

theorem adjustScroll_plain (plain : state.Plain) (screenRows : Nat) :
    (state.adjustScroll screenRows).Plain := by
  unfold adjustScroll
  dsimp only
  split <;> split <;> exact ⟨plain.single, plain.cursor⟩

/-- The steps of the editor: drawing, a key that was waited for, and the answer to the
question whether to quit. -/
theorem step_cases (stepped : step screenCols screenRows (.ok state) input = some next) :
    next = (state.draw screenCols screenRows).map (fun _ => { state with phase := .waiting }) ∨
      (∃ event writeFile, next = state.handleKey screenRows event writeFile) ∨
      ∃ event, next = .ok (state.confirm screenRows event) := by
  unfold step at stepped
  dsimp only at stepped
  split at stepped
  · exact .inl (Option.some.inj stepped).symm
  · exact .inr (.inl ⟨_, _, (Option.some.inj stepped).symm⟩)
  · exact .inr (.inr ⟨_, (Option.some.inj stepped).symm⟩)
  · exact nomatch stepped

/-- A step on a plain text does not fail and leaves the text plain. -/
theorem step_plain (plain : state.Plain)
    (stepped : step screenCols screenRows (.ok state) input = some next) :
    ∃ after, next = .ok after ∧ after.Plain := by
  rcases step_cases stepped with rfl | ⟨event, writeFile, rfl⟩ | ⟨event, rfl⟩
  · obtain ⟨rows, drawn⟩ := draw_plain screenCols screenRows plain
    rw [drawn]
    exact ⟨_, rfl, plain.single, plain.cursor⟩
  · have ready : Plain { state with phase := .drawing } := ⟨plain.single, plain.cursor⟩
    obtain ⟨after, edited, kept⟩ := edit_plain ready event writeFile
    rw [handleKey, edited, ok_bind]
    split
    · exact ⟨after, rfl, kept⟩
    · exact ⟨_, rfl, adjustScroll_plain kept screenRows⟩
  · refine ⟨_, rfl, adjustScroll_plain ?_ screenRows⟩
    exact ⟨plain.single, plain.cursor⟩

theorem throughout_of_plain (screenCols screenRows : Nat) (plain : state.Plain)
    (inputs : List EditorInput) :
    Transition.Throughout (step screenCols screenRows) Sound (.ok state) inputs := by
  induction inputs generalizing state with
  | nil => exact ⟨state, rfl, plain.cursorSound⟩
  | cons input rest ih =>
    refine ⟨⟨state, rfl, plain.cursorSound⟩, fun next stepped => ?_⟩
    obtain ⟨after, rfl, kept⟩ := step_plain plain stepped
    exact ih kept

/-! ## Files with longer characters -/

def Safe (screenCols screenRows : Nat) (editor : Except Fault EditorState) : Prop :=
  ∀ inputs, Transition.Throughout (step screenCols screenRows) Sound editor inputs

variable {screenCols screenRows : Nat}

theorem Safe.sound (safe : Safe screenCols screenRows editor) : Sound editor := safe []

theorem Safe.step (safe : Safe screenCols screenRows editor)
    (stepped : step screenCols screenRows editor input = some next) :
    Safe screenCols screenRows next :=
  fun inputs => (safe (input :: inputs)).2 next stepped

/-- A key can be pressed once the screen is drawn. -/
theorem Safe.press (safe : Safe screenCols screenRows (.ok state)) (drawing : state.phase = .drawing)
    (event : KeyEvent) (writeFile : List UInt8 → Bool) :
    Safe screenCols screenRows (state.handleKey screenRows event writeFile) := by
  have stepped : EditorState.step screenCols screenRows (.ok state) .draw =
      some ((state.draw screenCols screenRows).map fun _ => { state with phase := .waiting }) := by
    unfold EditorState.step
    dsimp only
    rw [drawing]
  have drawn := safe.step stepped
  obtain ⟨after, isAfter, -⟩ := drawn.sound
  cases rows : state.draw screenCols screenRows with
  | error fault =>
    rw [rows] at isAfter
    exact nomatch isAfter
  | ok shown =>
    rw [rows] at drawn
    have pressed : EditorState.step screenCols screenRows
        (.ok { state with phase := .waiting }) (.key event writeFile) =
        some (EditorState.handleKey { state with phase := .waiting } screenRows event writeFile) :=
      rfl
    exact drawn.step pressed

def arrow (key : KeyCode) : KeyEvent := ⟨0, key, true⟩

/-- The editor at a place of the text that it has loaded, about to draw. -/
structure At (lines : List (List Char)) (row col : Nat) (state : EditorState) : Prop where
  lines : state.lines = lines
  cursorRow : state.cursorRow = row
  cursorCol : state.cursorCol = col
  phase : state.phase = .drawing

theorem adjustScroll_at {lines : List (List Char)} (place : state.At lines row col)
    (screenRows : Nat) : (state.adjustScroll screenRows).At lines row col := by
  unfold adjustScroll
  dsimp only
  split <;> split <;> exact ⟨place.lines, place.cursorRow, place.cursorCol, place.phase⟩

theorem edit_arrow (state : EditorState) (key : KeyCode) (writeFile : List UInt8 → Bool) :
    state.edit (arrow key) writeFile = state.moveCursor key := rfl

variable {lines : List (List Char)}

section

variable (safe : Safe screenCols screenRows (.ok state))
include safe

theorem Safe.arrow {key : KeyCode} {after : EditorState} (drawing : state.phase = .drawing)
    (moved : { state with phase := .drawing }.moveCursor key = .ok after)
    (place : after.At lines row col) :
    ∃ final, Safe screenCols screenRows (.ok final) ∧ final.At lines row col := by
  have next := safe.press drawing (EditorState.arrow key) (fun _ => true)
  rw [handleKey, edit_arrow, moved, ok_bind, place.phase] at next
  exact ⟨_, next, adjustScroll_at place screenRows⟩

theorem Safe.down (place : state.At lines row 0) (more : row + 1 < lines.length) :
    ∃ final, Safe screenCols screenRows (.ok final) ∧ final.At lines (row + 1) 0 := by
  obtain ⟨rfl, rfl, atStart, drawing⟩ := place
  have isLine : lineAt { state with phase := .drawing } (state.cursorRow + 1) =
      .ok state.lines[state.cursorRow + 1] :=
    lineAt_eq (List.getElem?_eq_getElem more)
  have moved : { state with phase := .drawing }.moveCursor .down =
      .ok { state with cursorRow := state.cursorRow + 1, cursorCol := 0, phase := .drawing } := by
    unfold moveCursor moveTo
    dsimp only
    rw [if_pos (by omega), isLine, ok_bind, atStart]
    rfl
  exact safe.arrow drawing moved ⟨rfl, rfl, rfl, rfl⟩

theorem Safe.right (place : state.At lines row col)
    (isLine : lines[row]? = some line) (inside : col < byteLen line) :
    ∃ final, Safe screenCols screenRows (.ok final) ∧ final.At lines row (col + 1) := by
  have found : lineAt { state with phase := .drawing } state.cursorRow = .ok line := by
    refine lineAt_eq ?_
    rw [place.lines, place.cursorRow]
    exact isLine
  have moved : { state with phase := .drawing }.moveCursor .right =
      .ok { state with cursorCol := col + 1, phase := .drawing } := by
    unfold moveCursor
    rw [found, ok_bind, place.cursorCol, if_pos inside]
    rfl
  exact safe.arrow place.phase moved ⟨place.lines, place.cursorRow, rfl, rfl⟩

theorem Safe.to_row (place : state.At lines 0 0) (inside : row < lines.length) :
    ∃ final, Safe screenCols screenRows (.ok final) ∧ final.At lines row 0 := by
  induction row with
  | zero => exact ⟨state, safe, place⟩
  | succ row ih =>
    obtain ⟨before, safeBefore, placeBefore⟩ := ih (Nat.lt_of_succ_lt inside)
    exact safeBefore.down placeBefore inside

theorem Safe.to_col (place : state.At lines row 0)
    (isLine : lines[row]? = some line) (inside : col ≤ byteLen line) :
    ∃ final, Safe screenCols screenRows (.ok final) ∧ final.At lines row col := by
  induction col with
  | zero => exact ⟨state, safe, place⟩
  | succ col ih =>
    obtain ⟨before, safeBefore, placeBefore⟩ := ih (Nat.le_of_succ_le inside)
    exact safeBefore.right placeBefore isLine inside

theorem Safe.single (place : state.At lines 0 0) : ∀ line ∈ lines, Single line := by
  intro line member
  obtain ⟨row, isLine⟩ := List.mem_iff_getElem?.mp member
  have rowLt := (List.getElem?_eq_some_iff.mp isLine).1
  obtain ⟨atRow, safeRow, placeRow⟩ := safe.to_row place rowLt
  refine single_of_boundaries fun col inside => ?_
  obtain ⟨atCol, safeCol, placeCol⟩ := safeRow.to_col placeRow isLine inside
  obtain ⟨seen, same, found, isFound, boundary⟩ := safeCol.sound
  cases same
  rw [placeCol.lines, placeCol.cursorRow, isLine] at isFound
  cases isFound
  rwa [placeCol.cursorCol] at boundary

end

theorem lines_ne_nil {text : List Char} (nonempty : text ≠ []) : Utf8.lines text ≠ [] := by
  have each : ∀ text front : List Char, text ≠ [] ∨ front ≠ [] → linesFrom text front ≠ [] := by
    intro text
    induction text with
    | nil =>
      intro front more
      rw [linesFrom, if_neg (more.resolve_left (fun differ => differ rfl))]
      exact List.cons_ne_nil _ _
    | cons char rest ih =>
      intro front _
      rw [linesFrom]
      split
      · exact List.cons_ne_nil _ _
      · exact ih _ (.inr (List.cons_ne_nil _ _))
  exact each text [] (.inl nonempty)

theorem load_lines (text : List Char) :
    (load (some (toUtf8 text))).lines = if text = [] then [[]] else Utf8.lines text := by
  unfold load textOf
  rw [Option.getD_some, fromUtf8_toUtf8, Option.getD_some]
  refine if_neg ?_
  by_cases empty : text = []
  · rw [if_pos empty]
    exact List.cons_ne_nil _ _
  · rw [if_neg empty]
    exact lines_ne_nil empty

/-- Every line feed has another character behind it and no carriage return before it;
`returned` says that the character before the text is one. -/
def Kept : Bool → List Char → Prop
  | _, [] => True
  | returned, char :: rest =>
    (char = '\n' → returned = false ∧ rest ≠ []) ∧ Kept (char = '\r') rest

theorem join_linesFrom_iff (text front : List Char) :
    ['\n'].intercalate (linesFrom text front) = front.reverse ++ text ↔
      Kept (front.head? = some '\r') text := by
  induction text generalizing front with
  | nil =>
    refine iff_of_true ?_ trivial
    rw [linesFrom]
    split
    next empty => simp [empty]
    next => simp
  | cons char rest ih =>
    rw [linesFrom, Kept]
    by_cases feed : char = '\n'
    · have later := ih []
      subst feed
      rw [if_pos rfl]
      rcases eq_or_ne rest [] with rfl | more
      · -- the last line feed is lost
        refine iff_of_false (fun same => ?_) fun kept => (kept.1 rfl).2 rfl
        have length := congrArg List.length same
        have shorter : (dropReturn front).length ≤ front.length := by
          unfold dropReturn
          split <;> simp
        simp [linesFrom] at length
        omega
      · have behind : linesFrom rest [] ≠ [] := lines_ne_nil more
        rw [List.intercalate_cons_of_ne_nil behind]
        by_cases returned : front.head? = some '\r'
        · -- the carriage return is lost
          obtain ⟨before, rfl⟩ := List.head?_eq_some_iff.mp returned
          simp [dropReturn]
        have whole : dropReturn front = front := by
          unfold dropReturn
          split
          next => exact absurd rfl returned
          next => rfl
        simpa [whole, returned, more] using later
    · rw [if_neg feed]
      simpa [feed] using ih (char :: front)

theorem content_load_toUtf8 (text : List Char) :
    (load (some (toUtf8 text))).content = toUtf8 text ↔ Kept false text := by
  have joined : ['\n'].intercalate (load (some (toUtf8 text))).lines =
      ['\n'].intercalate (Utf8.lines text) := by
    rw [load_lines]
    split
    next empty => simp [empty, Utf8.lines, linesFrom]
    next => rfl
  rw [content, joined]
  exact toUtf8_injective.eq_iff.trans (join_linesFrom_iff text [])

theorem content_load_iff (contents : List UInt8) :
    (load (some contents)).content = contents ↔
      ∃ text, contents = toUtf8 text ∧ Kept false text := by
  constructor
  · intro same
    refine ⟨_, same.symm, (content_load_toUtf8 _).mp ?_⟩
    rw [content] at same
    rw [same, content, same]
  · rintro ⟨text, rfl, kept⟩
    exact (content_load_toUtf8 text).mpr kept

/-- Notepad opens and saves a file in the same way (`desktop/apps/notepad.rs`). -/
def notepadOpen (data : List UInt8) : List (List Char) := (load (some data)).lines

def notepadSave (lines : List (List Char)) : List UInt8 :=
  Storage.toUtf8 (['\n'].intercalate lines)

/-- Both save a file that was only opened as it was exactly when its bytes are a text without a
carriage return before a line feed and without a line feed at its end. -/
theorem saved_unedited_iff (contents : List UInt8) :
    ((load (some contents)).content = contents ↔
      ∃ text, contents = toUtf8 text ∧ Kept false text) ∧
    (notepadSave (notepadOpen contents) = contents ↔
      ∃ text, contents = toUtf8 text ∧ Kept false text) :=
  ⟨content_load_iff contents, content_load_iff contents⟩

/-- The line feed at the end of a file is lost. -/
theorem saved_without_last_line_feed :
    (load (some [0x61, 0x0A])).content ≠ [0x61, 0x0A] ∧
      notepadSave (notepadOpen [0x61, 0x0A]) ≠ [0x61, 0x0A] := by decide +kernel

theorem load_single_iff (text : List Char) :
    (∀ line ∈ (load (some (toUtf8 text))).lines, Single line) ↔ Single text := by
  rw [load_lines]
  by_cases empty : text = []
  · rw [empty]
    exact iff_of_true (List.forall_mem_singleton.mpr nofun) nofun
  · rw [if_neg empty, single_iff_lines]

theorem load_lines_pos (text : List Char) : 0 < (load (some (toUtf8 text))).lines.length := by
  rw [load_lines]
  by_cases empty : text = []
  · rw [if_pos empty]
    exact one_pos
  · rw [if_neg empty]
    exact List.length_pos_iff.mpr (lines_ne_nil empty)

/-- The editor keeps its cursor on character boundaries and never fails, whatever is typed,
exactly on the files that hold characters of single bytes only. -/
theorem editor_sound_iff_single (screenCols screenRows : Nat) (text : List Char) :
    (∀ inputs, Transition.Throughout (step screenCols screenRows) Sound
        (.ok (load (some (Storage.toUtf8 text)))) inputs) ↔
      ∀ char ∈ text, char.utf8Size = 1 := by
  constructor
  · intro safe
    have single := Safe.single safe ⟨rfl, rfl, rfl, rfl⟩
    exact (load_single_iff text).mp single
  · intro single inputs
    refine throughout_of_plain screenCols screenRows ⟨(load_single_iff text).mpr single, ?_⟩ inputs
    exact ⟨_, List.getElem?_eq_getElem (load_lines_pos text), Nat.zero_le _⟩

/-- In a file of one character of two bytes the right arrow puts the cursor inside the
character, and the editor fails when a letter is typed there. -/
theorem right_arrow_splits_character :
    ¬ Transition.Throughout (step 80 25) Sound
      (.ok (load (some (Storage.toUtf8 [Char.ofNat 0xE9]))))
      [.draw, .key (arrow .right) fun _ => true, .draw, .key ⟨0x61, .a, true⟩ fun _ => true] := by
  intro all
  obtain ⟨state, same, -⟩ := all.last (show _ = some (.error .panic) by decide +kernel)
  exact nomatch same

end EditorState

end CantayaOS.Shell
