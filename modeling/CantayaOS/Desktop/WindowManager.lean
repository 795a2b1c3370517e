import CantayaOS.Hal.Keyboard

/-!
# The window manager of the desktop

Windows in the order they overlap, the last one on top, with their geometry, the
focus and the drag that may be in progress (`desktop/wm.rs`).  What an
application does inside its window is a parameter: its handlers are given the
state of the application and what they find in the rest of the system, and they
touch no other field of the window.

Screen coordinates are machine words.  Where a build with overflow checks would
stop, the words wrap around here; such a build reaches no other states.
-/

namespace CantayaOS.Desktop

open Hal

inductive InputResult where
  | «continue»
  | redraw
  | exitDesktop
deriving DecidableEq, Repr

inductive AppId where
  | systemInfo | taskManager | notepad | calculator | about | terminal | fileBrowser
  | paint | minesweeper | snake | settings | clock
deriving DecidableEq, Repr

inductive ResizeEdge where
  | left | right | top | bottom | topLeft | topRight | bottomLeft | bottomRight
deriving DecidableEq, Repr

inductive DragState where
  | none
  | moving (winId : UInt32) (offsetX offsetY : Int32)
  | resizing (winId : UInt32) (edge : ResizeEdge) (startMx startMy origX origY origW origH : UInt32)
deriving DecidableEq

def DragState.winId : DragState → Option UInt32
  | .none => Option.none
  | .moving winId _ _ => some winId
  | .resizing winId _ _ _ _ _ _ _ => some winId

inductive WindowButton where
  | minimize | maximize | close
deriving DecidableEq, Repr

/-- The applications: their state when a window opens, and what a key and a click
do to it. -/
structure Apps (AppState World : Type) where
  init : World → AppId → AppState
  input : World → AppState → KeyEvent → AppState × InputResult
  click : World → AppState → UInt32 → UInt32 → AppState × InputResult

def maxWindows : Nat := 8
def resizeBorder : UInt32 := 5
def minWinWidth : UInt32 := 160
def minWinHeight : UInt32 := 100
def taskbarHeight : UInt32 := 28
def titlebarHeight : UInt32 := 20
def borderWidth : UInt32 := 3

def saturatingSub (a b : UInt32) : UInt32 := if b ≤ a then a - b else 0

structure Window (AppState : Type) where
  id : UInt32
  x : UInt32
  y : UInt32
  width : UInt32
  height : UInt32
  focused : Bool
  appId : AppId
  appState : AppState
  closeRequested : Bool
  minimized : Bool
  maximized : Bool
  restoreX : UInt32
  restoreY : UInt32
  restoreW : UInt32
  restoreH : UInt32

variable {AppState World : Type}

namespace Window

def sizeOf : AppId → UInt32 × UInt32
  | .systemInfo => (500, 400)
  | .taskManager => (560, 420)
  | .notepad => (520, 380)
  | .calculator => (260, 320)
  | .about => (400, 280)
  | .terminal => (600, 400)
  | .fileBrowser => (480, 400)
  | .paint => (500, 400)
  | .minesweeper => (320, 380)
  | .snake => (340, 380)
  | .settings => (400, 360)
  | .clock => (280, 240)

def new (apps : Apps AppState World) (world : World) (id : UInt32) (appId : AppId)
    (screenW screenH : UInt32) : Window AppState :=
  let (width, height) := sizeOf appId
  let cascade := (id % 5) * 30
  let x := saturatingSub screenW width / 2 + cascade
  let y := saturatingSub (saturatingSub screenH taskbarHeight) height / 2 + cascade
  { id, x, y, width, height, focused := true, appId, appState := apps.init world appId
    closeRequested := false, minimized := false, maximized := false
    restoreX := x, restoreY := y, restoreW := width, restoreH := height }

variable (win : Window AppState)

def clientX : UInt32 := win.x + borderWidth
def clientY : UInt32 := win.y + borderWidth + titlebarHeight
def clientWidth : UInt32 := saturatingSub win.width (borderWidth * 2)
def clientHeight : UInt32 := saturatingSub win.height (borderWidth * 2 + titlebarHeight)

def maximize (screenW screenH : UInt32) : Window AppState :=
  if win.maximized then win
  else
    { win with
      restoreX := win.x, restoreY := win.y, restoreW := win.width, restoreH := win.height
      x := 0, y := 0, width := screenW, height := screenH - taskbarHeight, maximized := true }

def restoreFromMaximize : Window AppState :=
  if win.maximized then
    { win with
      x := win.restoreX, y := win.restoreY, width := win.restoreW, height := win.restoreH
      maximized := false }
  else win

def toggleMaximize (screenW screenH : UInt32) : Window AppState :=
  if win.maximized then win.restoreFromMaximize else win.maximize screenW screenH

def hitTestButtons (mx my : UInt32) : Option WindowButton :=
  let btnY := win.y + borderWidth + 2
  let btnH : UInt32 := 14
  let btnW : UInt32 := 16
  if my < btnY ∨ my ≥ btnY + btnH then none
  else
    let closeX := win.x + win.width - borderWidth - btnW - 2
    if mx ≥ closeX ∧ mx < closeX + btnW then some .close
    else
      let maxX := closeX - btnW - 2
      if mx ≥ maxX ∧ mx < maxX + btnW then some .maximize
      else
        let minX := maxX - btnW - 2
        if mx ≥ minX ∧ mx < minX + btnW then some .minimize
        else none

/-- The point is in the title bar and not on a button. -/
def hitTestTitlebar (mx my : UInt32) : Bool :=
  let tbX := win.x + borderWidth
  let tbY := win.y + borderWidth
  let tbW := win.width - borderWidth * 2
  mx ≥ tbX && mx < tbX + tbW && my ≥ tbY && my < tbY + titlebarHeight &&
    (win.hitTestButtons mx my).isNone

def hitTestResizeEdge (mx my : UInt32) : Option ResizeEdge :=
  if win.maximized then none
  else
    let r := resizeBorder
    if mx + r < win.x ∨ mx > win.x + win.width + r ∨ my + r < win.y ∨
        my > win.y + win.height + r then none
    else
      let onLeft : Bool := mx < win.x + r
      let onRight : Bool := mx ≥ win.x + win.width - r
      let onTop : Bool := my < win.y + r
      let onBottom : Bool := my ≥ win.y + win.height - r
      match onLeft, onRight, onTop, onBottom with
      | true, _, true, _ => some .topLeft
      | true, _, _, true => some .bottomLeft
      | _, true, true, _ => some .topRight
      | _, true, _, true => some .bottomRight
      | true, _, _, _ => some .left
      | _, true, _, _ => some .right
      | _, _, true, _ => some .top
      | _, _, _, true => some .bottom
      | _, _, _, _ => none

def hitTestClient (mx my : UInt32) : Bool :=
  mx ≥ win.clientX && mx < win.clientX + win.clientWidth &&
    my ≥ win.clientY && my < win.clientY + win.clientHeight

/-- The window is shown and the point is on it or on the zone around it. -/
def takesClick (mx my : UInt32) : Bool :=
  !win.minimized && mx ≥ saturatingSub win.x resizeBorder &&
    mx < win.x + win.width + resizeBorder && my ≥ saturatingSub win.y resizeBorder &&
    my < win.y + win.height + resizeBorder

end Window

structure WindowManager (AppState : Type) where
  windows : List (Window AppState)
  nextId : UInt32
  screenW : UInt32
  screenH : UInt32
  drag : DragState

namespace WindowManager

def new (screenW screenH : UInt32) : WindowManager AppState := ⟨[], 1, screenW, screenH, .none⟩

def focusOnly (windows : List (Window AppState)) (idx : Nat) : List (Window AppState) :=
  windows.mapIdx fun i win => { win with focused := i == idx }

def focusFirstShown : List (Window AppState) → List (Window AppState)
  | [] => []
  | win :: rest =>
    if win.minimized then win :: focusFirstShown rest else { win with focused := true } :: rest

/-- Minimize a window and focus the topmost one that is still shown. -/
def minimizeAt (windows : List (Window AppState)) (idx : Nat) : List (Window AppState) :=
  let hidden := windows.modify idx fun win => { win with minimized := true, focused := false }
  (focusFirstShown hidden.reverse).reverse

variable (wm : WindowManager AppState)

def focusedIndex : Option Nat := wm.windows.findIdx? (·.focused)

def hasFocusedWindow : Bool := wm.windows.any (·.focused)

def position (id : UInt32) : Option Nat := wm.windows.findIdx? (·.id = id)

def setFocus (idx : Nat) : WindowManager AppState :=
  { wm with windows := focusOnly wm.windows idx }

def focusLast : WindowManager AppState :=
  if 0 < wm.windows.length then wm.setFocus (wm.windows.length - 1) else wm

def openApp (apps : Apps AppState World) (world : World) (appId : AppId) :
    WindowManager AppState :=
  if maxWindows ≤ wm.windows.length then wm
  else
    let win := Window.new apps world wm.nextId appId wm.screenW wm.screenH
    { wm with nextId := wm.nextId + 1, windows := wm.windows ++ [win] }.focusLast

/-- Remove the window at an index and focus the one that takes its place. -/
def removeAt (idx : Nat) : WindowManager AppState :=
  let rest := wm.windows.eraseIdx idx
  if rest = [] then { wm with windows := rest }
  else { wm with windows := rest }.setFocus (if idx < rest.length then idx else rest.length - 1)

def closeFocused : WindowManager AppState :=
  match wm.focusedIndex with
  | some idx => wm.removeAt idx
  | none => wm

def closeWindow (id : UInt32) : WindowManager AppState :=
  let after := match wm.position id with
    | some idx => wm.removeAt idx
    | none => wm
  if after.drag.winId = some id then { after with drag := .none } else after

def bringToFront (id : UInt32) : WindowManager AppState :=
  match wm.position id with
  | none => wm
  | some idx =>
    if idx = wm.windows.length - 1 then wm.setFocus idx
    else { wm with windows := wm.windows.eraseIdx idx ++ wm.windows[idx]?.toList }.focusLast

def cycleFocus : WindowManager AppState :=
  if wm.windows.length ≤ 1 then wm
  else
    match wm.focusedIndex with
    | some idx => wm.setFocus ((idx + 1) % wm.windows.length)
    | none => wm

def handleInput (apps : Apps AppState World) (world : World) (event : KeyEvent) :
    InputResult × WindowManager AppState :=
  if event.key = .f4 ∨ event.key = .escape then (.redraw, wm.closeFocused)
  else if event.key = .f2 then (.redraw, wm.cycleFocus)
  else
    match wm.windows.zipIdx.find? (·.1.focused) with
    | none => (.continue, wm)
    | some (win, idx) =>
      let (appState, result) := apps.input world win.appState event
      let after := { wm with windows := wm.windows.modify idx ({ · with appState }) }
      if win.closeRequested then (.redraw, after.closeWindow win.id) else (result, after)

def focusWindowById (id : UInt32) : WindowManager AppState :=
  match wm.position id with
  | none => wm
  | some idx =>
    { wm with windows := wm.windows.modify idx ({ · with minimized := false }) }.setFocus idx

def toggleMinimizeById (id : UInt32) : WindowManager AppState :=
  match wm.windows.zipIdx.find? (·.1.id = id) with
  | none => wm
  | some (win, idx) =>
    if win.minimized then
      { wm with windows := wm.windows.modify idx ({ · with minimized := false }) }.setFocus idx
    else if win.focused then { wm with windows := minimizeAt wm.windows idx }
    else wm.setFocus idx

def unfocusAll : WindowManager AppState :=
  { wm with windows := wm.windows.map ({ · with focused := false }) }

def hit (windows : List (Window AppState)) (mx my : UInt32) : Option (Window AppState) :=
  windows.reverse.find? (·.takesClick mx my)

/-- A click on the window in front, which has just been raised. -/
def clickFront (apps : Apps AppState World) (world : World) (winId : UInt32)
    (win : Window AppState) (mx my : UInt32) : InputResult × WindowManager AppState :=
  let idx := wm.windows.length - 1
  match win.hitTestButtons mx my with
  | some .close => (.redraw, wm.closeWindow winId)
  | some .maximize =>
    (.redraw, { wm with windows := wm.windows.modify idx (·.toggleMaximize wm.screenW wm.screenH) })
  | some .minimize => (.redraw, { wm with windows := minimizeAt wm.windows idx })
  | none =>
    match win.hitTestResizeEdge mx my with
    | some edge =>
      (.redraw, { wm with drag := .resizing winId edge mx my win.x win.y win.width win.height })
    | none =>
      if win.hitTestTitlebar mx my then
        -- a maximized window is restored under the pointer before it is dragged
        let grabbed :=
          if win.maximized then
            let restored := win.restoreFromMaximize
            { restored with x := saturatingSub mx (restored.width / 2) }
          else win
        (.redraw,
          { wm with
            windows := wm.windows.modify idx fun _ => grabbed
            drag := .moving winId (mx.toInt32 - grabbed.x.toInt32)
              (my.toInt32 - grabbed.y.toInt32) })
      else if win.hitTestClient mx my then
        let (appState, result) :=
          apps.click world win.appState (mx - win.clientX) (my - win.clientY)
        (result, { wm with windows := wm.windows.modify idx ({ · with appState }) })
      else (.redraw, wm)

/-- Handle a button press at a point; the result is absent when no window was hit. -/
def handleClick (apps : Apps AppState World) (world : World) (mx my : UInt32) :
    Option InputResult × WindowManager AppState :=
  match hit wm.windows mx my with
  | none => (none, wm)
  | some target =>
    let raised := wm.bringToFront target.id
    match raised.windows.getLast? with
    -- not reached: the list holds the window that was hit
    | none => (none, wm)
    | some win =>
      let (result, after) := raised.clickFront apps world target.id win mx my
      (some result, after)

/-- Move a window, keeping part of its title bar on the screen. -/
def moveTo (screenW screenH mx my : UInt32) (offsetX offsetY : Int32) (win : Window AppState) :
    Window AppState :=
  let newX := (max (mx.toInt32 - offsetX) 0).toUInt32
  let newY := (max (my.toInt32 - offsetY) 0).toUInt32
  { win with
    x := min newX (saturatingSub screenW 30)
    y := min newY (saturatingSub screenH (taskbarHeight + 10)) }

def resizeTo (edge : ResizeEdge) (mx my startMx startMy origX origY origW origH : UInt32)
    (win : Window AppState) : Window AppState :=
  let dx := mx.toInt32 - startMx.toInt32
  let dy := my.toInt32 - startMy.toInt32
  let sideways := match edge with
    | .right | .topRight | .bottomRight =>
      { win with width := (max (origW.toInt32 + dx) minWinWidth.toInt32).toUInt32 }
    | .left | .topLeft | .bottomLeft =>
      let newW := (max (origW.toInt32 - dx) minWinWidth.toInt32).toUInt32
      { win with x := origX + origW - newW, width := newW }
    | _ => win
  match edge with
  | .bottom | .bottomLeft | .bottomRight =>
    { sideways with height := (max (origH.toInt32 + dy) minWinHeight.toInt32).toUInt32 }
  | .top | .topLeft | .topRight =>
    let newH := (max (origH.toInt32 - dy) minWinHeight.toInt32).toUInt32
    { sideways with y := origY + origH - newH, height := newH }
  | _ => sideways

/-- Apply a change to the dragged window, or end the drag when it is gone. -/
def dragWindow (winId : UInt32) (change : Window AppState → Window AppState) :
    Bool × WindowManager AppState :=
  match wm.position winId with
  | some idx => (true, { wm with windows := wm.windows.modify idx change })
  | none => (false, { wm with drag := .none })

/-- Handle mouse movement during a drag; true when a redraw is needed. -/
def handleMouseMove (mx my : UInt32) : Bool × WindowManager AppState :=
  match wm.drag with
  | .none => (false, wm)
  | .moving winId offsetX offsetY =>
    wm.dragWindow winId (moveTo wm.screenW wm.screenH mx my offsetX offsetY)
  | .resizing winId edge startMx startMy origX origY origW origH =>
    wm.dragWindow winId (resizeTo edge mx my startMx startMy origX origY origW origH)

def handleMouseUp : WindowManager AppState := { wm with drag := .none }

def isDragging : Bool := wm.drag ≠ .none

end WindowManager

end CantayaOS.Desktop
