import CantayaOS.Graphics.Framebuffer

/-!
# The text console

Characters are drawn into a grid of cells of 8 by 16 pixels; when the cursor
passes the last text row, the pixels are moved up by one cell.  The last row
of the screen is reserved for a status bar.  The font is a parameter.  The
capture buffer, which receives the text besides, is left out.
-/

namespace CantayaOS.Graphics

open Lib

/-- The sixteen rows of a character's bitmap. -/
abbrev Font := Char → Vector UInt8 16

def charWidth : UInt32 := 8

def charHeight : UInt32 := 16

def maxCols : UInt32 := 256

def maxRows : UInt32 := 128

structure Console where
  col : UInt64
  row : UInt64
  cols : UInt64
  rows : UInt64
  totalRows : UInt64
  fgColor : Color
  bgColor : Color
  initialized : Bool

structure Screen where
  fb : Framebuffer
  console : Console

def Console.init (fb : Framebuffer) : Console :=
  let total := (min (fb.height / charHeight) maxRows).toUInt64
  { col := 0
    row := 0
    cols := (min (fb.width / charWidth) maxCols).toUInt64
    rows := if total > 1 then total - 1 else total
    totalRows := total
    fgColor := .white
    bgColor := .teal
    initialized := true }

def Framebuffer.drawChar (font : Font) (fb : Framebuffer) (col row : UInt64) (c : Char)
    (fg bg : Color) : Framebuffer :=
  let xStart := col.toUInt32 * charWidth
  let yStart := row.toUInt32 * charHeight
  (font c).toList.zipIdx.foldl (fun fb (rowBits, dy) =>
    (List.range 8).foldl (fun fb dx =>
      let pixelSet := decide ((rowBits >>> UInt8.ofNat (7 - dx)) &&& 1 ≠ 0)
      let color := if pixelSet then fg else bg
      fb.putPixel (xStart + UInt32.ofNat dx) (yStart + UInt32.ofNat dy) color) fb) fb

/-- Copy the visible pixels up by one character height; nothing is marked. -/
def Framebuffer.copyUp (fb : Framebuffer) : Framebuffer :=
  let copyHeight := fb.height - charHeight
  fb.draw fun pixels => (span 0 copyHeight).foldl (fun pixels y =>
    let srcY := y + charHeight
    Raster.paint (y.toNat * fb.stride.toNat) fb.width.toNat
      (fun i => pixels (srcY.toNat * fb.stride.toNat + i)) pixels) pixels

def Framebuffer.scrollUp (fb : Framebuffer) (console : Console) : Framebuffer :=
  let lastRowY := (console.rows - 1).toUInt32 * charHeight
  (fb.copyUp.fillRect 0 lastRowY fb.width charHeight console.bgColor).present

/-- Move the cursor for a character; the position and colors if it is to be drawn. -/
def Console.advance (console : Console) (c : Char) :
    Console × Option (UInt64 × UInt64 × Char × Color × Color) :=
  if c = '\n' then
    ({ console with col := 0, row := console.row + 1 }, none)
  else if c = '\r' then
    ({ console with col := 0 }, none)
  else if c = '\t' then
    let tabStop := (console.col + 4) &&& ~~~3
    ({ console with col := min tabStop (console.cols - 1) }, none)
  else
    let drawInfo := some (console.col, console.row, c, console.fgColor, console.bgColor)
    if console.col + 1 ≥ console.cols then
      ({ console with col := 0, row := console.row + 1 }, drawInfo)
    else
      ({ console with col := console.col + 1 }, drawInfo)

namespace Screen

variable (font : Font) (screen : Screen)

/-- The framebuffer and console when the character is drawn, before scrolling. -/
def drawn (c : Char) : Screen :=
  match screen.console.advance c with
  | (console, none) => ⟨screen.fb, console⟩
  | (console, some (col, row, ch, fg, bg)) =>
    ⟨screen.fb.drawChar font col row ch fg bg, console⟩

/-- Write a single character to the console at the current cursor position. -/
def writeChar (c : Char) : Screen :=
  if screen.console.initialized = false then
    screen
  else
    let drawn := screen.drawn font c
    if drawn.console.row ≥ drawn.console.rows then
      ⟨drawn.fb.scrollUp drawn.console, { drawn.console with row := drawn.console.rows - 1 }⟩
    else
      drawn

def writeChars (text : List Char) : Screen := text.foldl (writeChar font) screen

def print (text : List Char) : Screen :=
  let screen := screen.writeChars font text
  { screen with fb := screen.fb.present }

def println (text : List Char) : Screen := screen.print font (text ++ ['\n'])

def backspace : Screen :=
  if screen.console.initialized = false then
    screen
  else if screen.console.col > 0 then
    let console := { screen.console with col := screen.console.col - 1 }
    let fb := screen.fb.drawChar font console.col console.row ' ' console.bgColor console.bgColor
    ⟨fb.present, console⟩
  else
    screen

def clear : Screen :=
  ⟨(screen.fb.clear screen.console.bgColor).present, { screen.console with col := 0, row := 0 }⟩

def setColor (r g b : UInt8) : Screen :=
  { screen with console := { screen.console with fgColor := ⟨r, g, b⟩ } }

def setBgColor (r g b : UInt8) : Screen :=
  { screen with console := { screen.console with bgColor := ⟨r, g, b⟩ } }

def drawCursor (visible : Bool) : Screen :=
  let console := screen.console
  if console.initialized = false then
    screen
  else if console.row ≥ console.rows ∨ console.col ≥ console.cols then
    screen
  else
    let x := console.col.toUInt32 * charWidth
    let y := console.row.toUInt32 * charHeight
    let color := if visible then console.fgColor else console.bgColor
    { screen with fb := (screen.fb.fillRect x (y + charHeight - 3) charWidth 3 color).present }

def drawStatusBar (text : List Char) : Screen :=
  if screen.console.initialized = false then
    screen
  else
    let barRow := if screen.console.totalRows = 0 then 0 else screen.console.totalRows - 1
    let fg : Color := ⟨0xFF, 0xFF, 0xFF⟩
    let bg : Color := ⟨0x20, 0x30, 0x50⟩
    let fb := screen.fb.fillRect 0 (barRow.toUInt32 * charHeight) screen.fb.width charHeight bg
    let fb := (text.take screen.console.cols.toNat).zipIdx.foldl (fun fb (ch, i) =>
      fb.drawChar font (UInt64.ofNat i) barRow ch fg bg) fb
    { screen with fb := fb.present }

end Screen

end CantayaOS.Graphics
