import CantayaOS.Desktop.WindowManager
import CantayaOS.Graphics.Console

/-!
# The input loop of the desktop

Mouse packets are read in batches: a batch moves the pointer, and of its button
edges only the latest is acted on.  Then at most one key is handled
(`desktop/input.rs` and the loop of `desktop/mod.rs`).  Drawing is left out.
-/

namespace CantayaOS.Hal

structure MouseButtons where
  left : Bool
  right : Bool
  middle : Bool
deriving DecidableEq, Repr

structure MouseEvent where
  dx : Int16
  dy : Int16
  buttons : MouseButtons
deriving DecidableEq

end CantayaOS.Hal

namespace CantayaOS.Desktop

open Hal Graphics

variable {AppState World : Type}

inductive MouseClick where
  | leftDown | leftUp | rightDown | rightUp
deriving DecidableEq, Repr

structure MouseTracker where
  prevLeft : Bool
  prevRight : Bool
  cursorX : Int32
  cursorY : Int32

namespace MouseTracker

def new (screenW screenH : UInt32) : MouseTracker :=
  ⟨false, false, (screenW / 2).toInt32, (screenH / 2).toInt32⟩

def clamp (position : Int32) (size : UInt32) : Int32 :=
  let inside := if position < 0 then 0 else position
  if inside ≥ size.toInt32 then size.toInt32 - 1 else inside

/-- The edge that a packet adds; a press of the right button hides an edge of the left. -/
def clickOf (tracker : MouseTracker) (event : MouseEvent) (click : Option MouseClick) :
    Option MouseClick :=
  let click := if event.buttons.left && !tracker.prevLeft then some .leftDown else click
  let click := if !event.buttons.left && tracker.prevLeft then some .leftUp else click
  if event.buttons.right && !tracker.prevRight then some .rightDown else click

def processEvent (screenW screenH : UInt32) :
    MouseTracker × Bool × Option MouseClick → MouseEvent → MouseTracker × Bool × Option MouseClick
  | (tracker, _, click), event =>
    ({ prevLeft := event.buttons.left
       prevRight := event.buttons.right
       cursorX := clamp (tracker.cursorX + event.dx.toInt32) screenW
       cursorY := clamp (tracker.cursorY + event.dy.toInt32) screenH },
      true, tracker.clickOf event click)

/-- Process a batch: the pointer after it, whether it moved, and the latest click. -/
def processEvents (tracker : MouseTracker) (screenW screenH : UInt32) (batch : List MouseEvent) :
    MouseTracker × Bool × Option MouseClick :=
  batch.foldl (processEvent screenW screenH) (tracker, false, none)

def x (tracker : MouseTracker) : UInt32 := tracker.cursorX.toUInt32

def y (tracker : MouseTracker) : UInt32 := tracker.cursorY.toUInt32

end MouseTracker

/-! ## The desktop -/

structure DesktopIcon where
  name : String
  appId : AppId
  x : UInt32
  y : UInt32

structure DesktopState where
  icons : List DesktopIcon
  selectedIcon : Option Nat
  startMenuOpen : Bool
  startMenuSelection : Nat

namespace DesktopState

def new : DesktopState where
  icons :=
    [⟨"System Info", .systemInfo, 20, 20⟩,
     ⟨"Task Manager", .taskManager, 20, 20 + 70⟩,
     ⟨"Notepad", .notepad, 20, 20 + 70 * 2⟩,
     ⟨"Calculator", .calculator, 20, 20 + 70 * 3⟩,
     ⟨"About", .about, 20, 20 + 70 * 4⟩,
     ⟨"Terminal", .terminal, 20, 20 + 70 * 5⟩,
     ⟨"Files", .fileBrowser, 20, 20 + 70 * 6⟩,
     ⟨"Paint", .paint, 20, 20 + 70 * 7⟩,
     ⟨"Minesweeper", .minesweeper, 20, 20 + 70 * 8⟩,
     ⟨"Snake", .snake, 20, 20 + 70 * 9⟩,
     ⟨"Settings", .settings, 20, 20 + 70 * 10⟩,
     ⟨"Clock", .clock, 20, 20 + 70 * 11⟩]
  selectedIcon := none
  startMenuOpen := false
  startMenuSelection := 0

end DesktopState

def menuSeparator : String := "  ─────────────"

def startMenuItems : List (String × Option AppId) :=
  [("  System Info", some .systemInfo),
   ("  Task Manager", some .taskManager),
   ("  Notepad", some .notepad),
   ("  Calculator", some .calculator),
   ("  About CantayaOS", some .about),
   ("  Terminal", some .terminal),
   ("  File Browser", some .fileBrowser),
   ("  Paint", some .paint),
   ("  Minesweeper", some .minesweeper),
   ("  Snake", some .snake),
   ("  Settings", some .settings),
   ("  Clock", some .clock),
   (menuSeparator, none),
   ("  Exit to Shell", none)]

/-- What handling an input gives: the result, the desktop and the window manager. -/
structure Handled (AppState : Type) where
  result : InputResult
  desktop : DesktopState
  wm : WindowManager AppState

section

variable (apps : Apps AppState World) (world : World) (desktop : DesktopState)
  (wm : WindowManager AppState)

def handleDesktopInput (event : KeyEvent) : Handled AppState :=
  match event.key with
  | .escape => ⟨.exitDesktop, desktop, wm⟩
  | .f1 => ⟨.redraw, { desktop with startMenuOpen := true, startMenuSelection := 0 }, wm⟩
  | .tab =>
    let n := desktop.icons.length
    let selected := match desktop.selectedIcon with
      | some i => (i + 1) % n
      | none => 0
    ⟨.redraw, if 0 < n then { desktop with selectedIcon := some selected } else desktop, wm⟩
  | .up =>
    let selected := match desktop.selectedIcon with
      | some i => if 0 < i then some (i - 1) else some i
      | none => if desktop.icons.isEmpty then none else some 0
    ⟨.redraw, { desktop with selectedIcon := selected }, wm⟩
  | .down =>
    let n := desktop.icons.length
    let selected := match desktop.selectedIcon with
      | some i => if i + 1 < n then some (i + 1) else some i
      | none => if 0 < n then some 0 else none
    ⟨.redraw, { desktop with selectedIcon := selected }, wm⟩
  | .enter =>
    match desktop.selectedIcon.bind (desktop.icons[·]?) with
    | some icon => ⟨.redraw, desktop, wm.openApp apps world icon.appId⟩
    | none => ⟨.redraw, desktop, wm⟩
  | _ => ⟨.continue, desktop, wm⟩

def handleStartMenuInput (event : KeyEvent) : Handled AppState :=
  let count := startMenuItems.length
  match event.key with
  | .escape | .f1 => ⟨.redraw, { desktop with startMenuOpen := false }, wm⟩
  | .up =>
    ⟨.redraw, { desktop with startMenuSelection := desktop.startMenuSelection - 1 }, wm⟩
  | .down =>
    ⟨.redraw,
      if desktop.startMenuSelection + 1 < count then
        { desktop with startMenuSelection := desktop.startMenuSelection + 1 }
      else desktop, wm⟩
  | .enter =>
    let closed := { desktop with startMenuOpen := false }
    match startMenuItems[desktop.startMenuSelection]? with
    | some (_, some id) => ⟨.redraw, closed, wm.openApp apps world id⟩
    | some (_, none) => ⟨.exitDesktop, closed, wm⟩
    | none => ⟨.redraw, closed, wm⟩
  | _ => ⟨.continue, desktop, wm⟩

/-- A click on the open start menu; absent when the point is outside it. -/
def clickStartMenu (mx my screenH : UInt32) : Option (Handled AppState) :=
  let itemH := charHeight + 4
  let menuW : UInt32 := 200
  let menuH := startMenuItems.length.toUInt32 * itemH + 4
  let menuX : UInt32 := 2
  let menuY := screenH - taskbarHeight - menuH
  if mx ≥ menuX ∧ mx < menuX + menuW ∧ my ≥ menuY ∧ my < menuY + menuH then
    let itemIdx := ((my - menuY - 2) / itemH).toNat
    match startMenuItems[itemIdx]? with
    | some (label, appId) =>
      if label ≠ menuSeparator then
        let closed := { desktop with startMenuOpen := false }
        match appId with
        | some id => some ⟨.redraw, closed, wm.openApp apps world id⟩
        | none => some ⟨.exitDesktop, closed, wm⟩
      else some ⟨.continue, desktop, wm⟩
    | none => some ⟨.continue, desktop, wm⟩
  else none

def clickTaskbar (mx my screenW tbY : UInt32) : Handled AppState :=
  let startX : UInt32 := 2
  let startW : UInt32 := 60
  if mx ≥ startX ∧ mx < startX + startW ∧ my ≥ tbY + 2 then
    ⟨.redraw, { desktop with startMenuOpen := !desktop.startMenuOpen, startMenuSelection := 0 }, wm⟩
  else
    let btnAreaX := startX + startW + 40
    let clockW : UInt32 := 80
    let btnAreaW := screenW - btnAreaX - clockW - 8
    let btnCount := wm.windows.length
    if 0 < btnCount ∧ mx ≥ btnAreaX then
      let btnW := min (btnAreaW / btnCount.toUInt32) 160
      let pressed := wm.windows.zipIdx.find? fun (_, i) =>
        let bx := btnAreaX + i.toUInt32 * (btnW + 2)
        mx ≥ bx && mx < bx + btnW
      match pressed with
      | some (win, _) => ⟨.redraw, desktop, wm.toggleMinimizeById win.id⟩
      | none => ⟨.redraw, desktop, wm⟩
    else ⟨.redraw, desktop, wm⟩

def DesktopIcon.takesClick (icon : DesktopIcon) (mx my : UInt32) : Bool :=
  let areaX := saturatingSub icon.x 2
  let areaY := saturatingSub icon.y 2
  let labelW := icon.name.utf8ByteSize.toUInt32 * charWidth + 8
  let areaW := max labelW 20
  let areaH := 20 + charHeight + 4
  mx ≥ areaX && mx < areaX + areaW && my ≥ areaY && my < areaY + areaH

def clickIcons (mx my : UInt32) : Handled AppState :=
  match desktop.icons.zipIdx.find? (·.1.takesClick mx my) with
  | some (icon, i) =>
    if desktop.selectedIcon = some i then ⟨.redraw, desktop, wm.openApp apps world icon.appId⟩
    else ⟨.redraw, { desktop with selectedIcon := some i }, wm⟩
  | none => ⟨.redraw, { desktop with selectedIcon := none }, wm.unfocusAll⟩

def clickBelowMenu (mx my screenW screenH : UInt32) : Handled AppState :=
  let tbY := screenH - taskbarHeight
  if my ≥ tbY then clickTaskbar desktop wm mx my screenW tbY
  else
    match wm.handleClick apps world mx my with
    | (some result, after) => ⟨result, desktop, after⟩
    | (none, after) => clickIcons apps world desktop after mx my

def handleMouseClick (mx my screenW screenH : UInt32) : Handled AppState :=
  if desktop.startMenuOpen then
    match clickStartMenu apps world desktop wm mx my screenH with
    | some handled => handled
    | none =>
      clickBelowMenu apps world { desktop with startMenuOpen := false } wm mx my screenW screenH
  else clickBelowMenu apps world desktop wm mx my screenW screenH

/-- A press of the right button: above the taskbar it is given to the windows, and the
desktop takes the focus when it hits none. -/
def handleRightClick (mx my screenH : UInt32) : Handled AppState :=
  if my < screenH - taskbarHeight then
    match wm.handleClick apps world mx my with
    | (some _, after) => ⟨.redraw, desktop, after⟩
    | (none, after) => ⟨.redraw, { desktop with selectedIcon := none }, after.unfocusAll⟩
  else ⟨.continue, desktop, wm⟩

end

/-- The variables of the loop, and whether it goes on. -/
structure DesktopLoop (AppState : Type) where
  desktop : DesktopState
  windowMgr : WindowManager AppState
  mouseTracker : MouseTracker
  sw : UInt32
  sh : UInt32
  running : Bool

/-- What an iteration finds: the packets that have come in, a key that was pressed, and
what the applications see of the system. -/
structure Turn (World : Type) where
  packets : List MouseEvent
  key : Option KeyEvent
  clickWorld : World
  keyWorld : World

namespace DesktopLoop

def new (sw sh : UInt32) : DesktopLoop AppState :=
  ⟨.new, .new sw sh, .new sw sh, sw, sh, true⟩

def handleClickEdge (apps : Apps AppState World) (world : World) (desktop : DesktopState)
    (wm : WindowManager AppState) (tracker : MouseTracker) (sw sh : UInt32) :
    Option MouseClick → Handled AppState
  | none => ⟨.continue, desktop, wm⟩
  | some .leftDown => handleMouseClick apps world desktop wm tracker.x tracker.y sw sh
  | some .leftUp =>
    if wm.isDragging then ⟨.redraw, desktop, wm.handleMouseUp⟩ else ⟨.continue, desktop, wm⟩
  | some .rightDown => handleRightClick apps world desktop wm tracker.x tracker.y sh
  | some .rightUp => ⟨.continue, desktop, wm⟩

def handleKey (apps : Apps AppState World) (world : World) (desktop : DesktopState)
    (wm : WindowManager AppState) : Option KeyEvent → Handled AppState
  | none => ⟨.continue, desktop, wm⟩
  | some event =>
    if desktop.startMenuOpen then handleStartMenuInput apps world desktop wm event
    else if wm.hasFocusedWindow then
      let (result, after) := wm.handleInput apps world event
      ⟨result, desktop, after⟩
    else handleDesktopInput apps world desktop wm event

def iterate (apps : Apps AppState World) (loop : DesktopLoop AppState) (turn : Turn World) :
    DesktopLoop AppState :=
  let (tracker, moved, click) := loop.mouseTracker.processEvents loop.sw loop.sh turn.packets
  let clicked := handleClickEdge apps turn.clickWorld loop.desktop loop.windowMgr tracker
    loop.sw loop.sh click
  let dragged :=
    if moved && clicked.wm.isDragging then (clicked.wm.handleMouseMove tracker.x tracker.y).2
    else clicked.wm
  let typed := handleKey apps turn.keyWorld clicked.desktop dragged turn.key
  { loop with
    desktop := typed.desktop
    windowMgr := typed.wm
    mouseTracker := tracker
    running := clicked.result ≠ .exitDesktop && typed.result ≠ .exitDesktop }

/-- The loop takes another turn until an input leaves the desktop. -/
def step (apps : Apps AppState World) (loop : DesktopLoop AppState) (turn : Turn World) :
    Option (DesktopLoop AppState) :=
  if loop.running then some (loop.iterate apps turn) else none

end DesktopLoop

end CantayaOS.Desktop
