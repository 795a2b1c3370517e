import CantayaOS.Desktop.Focus
import CantayaOS.Desktop.Input

/-!
# Drags and the left button

A drag should be in progress only while the left button is held.  Of the button
edges of a batch the loop acts on the latest alone, and a press of the right
button can hide the release that should have ended a drag; it can also start one.
-/

namespace CantayaOS.Desktop

open Hal Lib DesktopLoop WindowManager List Option MouseTracker

variable {AppState World : Type}

/-! ## Batches -/

/-- The button edges of a batch, in order; a packet's left edge comes first. -/
def edges (left right : Bool) : List MouseEvent → List MouseClick
  | [] => []
  | event :: rest =>
    (if event.buttons.left && !left then [.leftDown]
      else if !event.buttons.left && left then [.leftUp] else []) ++
    (if event.buttons.right && !right then [.rightDown] else []) ++
    edges event.buttons.left event.buttons.right rest

def leftAfter (left : Bool) (batch : List MouseEvent) : Bool :=
  (batch.getLast?.map (·.buttons.left)).getD left

variable {winId mx my : UInt32} {win : Window AppState}

namespace MouseTracker

variable {screenW screenH : UInt32}

theorem clickOf_eq (tracker : MouseTracker) (event : MouseEvent) (click : Option MouseClick) :
    tracker.clickOf event click =
      ((edges tracker.prevLeft tracker.prevRight [event]).getLast?).or click := by
  unfold clickOf edges edges
  cases event.buttons.left <;> cases tracker.prevLeft <;> cases event.buttons.right <;>
    cases tracker.prevRight <;> rfl

theorem edges_cons (left right : Bool) (event : MouseEvent) (rest : List MouseEvent) :
    edges left right (event :: rest) =
      edges left right [event] ++ edges event.buttons.left event.buttons.right rest := by
  rw [edges, edges, edges, append_nil]

section

variable (batch : List MouseEvent) (tracker : MouseTracker)
include batch tracker

theorem foldl_click (moved : Bool) (click : Option MouseClick) :
    (batch.foldl (processEvent screenW screenH) (tracker, moved, click)).2.2 =
      ((edges tracker.prevLeft tracker.prevRight batch).getLast?).or click := by
  induction batch generalizing tracker moved click with
  | nil => rfl
  | cons event rest ih =>
    rw [foldl_cons, processEvent, ih, clickOf_eq,
      edges_cons tracker.prevLeft tracker.prevRight event rest, getLast?_append,
      Option.or_assoc]

/-- The click is the latest edge of the batch. -/
theorem processEvents_click :
    (tracker.processEvents screenW screenH batch).2.2 =
      (edges tracker.prevLeft tracker.prevRight batch).getLast? := by
  rw [processEvents, foldl_click, or_none]

theorem processEvents_left :
    (tracker.processEvents screenW screenH batch).1.prevLeft = leftAfter tracker.prevLeft batch := by
  unfold processEvents leftAfter
  induction batch using List.reverseRecOn with
  | nil => rfl
  | append_singleton front event _ =>
    rw [foldl_concat, getLast?_concat]
    rfl

end

theorem processEvents_moved (tracker : MouseTracker) {batch : List MouseEvent}
    (nonempty : batch ≠ []) : (tracker.processEvents screenW screenH batch).2.1 = true := by
  obtain ⟨front, event, rfl⟩ := eq_nil_or_concat batch |>.resolve_left nonempty
  rw [processEvents, concat_eq_append, foldl_concat]
  rfl

def EdgeTells (before : Bool) (after : Bool) : Option MouseClick → Prop
  | none => after = before
  | some .leftDown => after = true
  | some .leftUp => after = false
  | some .rightDown => True
  | some .rightUp => False

theorem edgeTells_edges (left right : Bool) (batch : List MouseEvent) :
    EdgeTells left (leftAfter left batch) (edges left right batch).getLast? := by
  induction batch generalizing left right with
  | nil => rfl
  | cons event rest ih =>
    have after : leftAfter left (event :: rest) = leftAfter event.buttons.left rest := by
      unfold leftAfter
      rw [getLast?_cons]
      cases rest.getLast? <;> rfl
    have later := ih event.buttons.left event.buttons.right
    rw [after, edges_cons, getLast?_append]
    -- an edge in the rest decides alone; without one the left button stays as in this packet
    cases click : (edges event.buttons.left event.buttons.right rest).getLast? with
    | some edge =>
      rw [click] at later
      cases edge <;> exact later
    | none =>
      rw [click] at later
      have stays := later
      rw [stays]
      unfold edges edges
      cases event.buttons.left <;> cases left <;> cases event.buttons.right <;>
        cases right <;> first | rfl | trivial

end MouseTracker

variable {id : UInt32} {turn : Turn World}

namespace WindowManager

variable {wm : WindowManager AppState}

/-- A drag is in progress and its window is there. -/
def LiveDrag (wm : WindowManager AppState) : Prop :=
  ∃ winId, wm.drag.winId = some winId ∧ winId ∈ wm.windows.map (·.id)

/-- The point is on an edge or on the title bar of the window, and not on a button. -/
def OnHandle (win : Window AppState) (mx my : UInt32) : Prop :=
  win.hitTestButtons mx my = none ∧
    (win.hitTestResizeEdge mx my ≠ none ∨ win.hitTestTitlebar mx my = true)

/-- The click takes hold of the window it raises. -/
def Grabs (windows : List (Window AppState)) (mx my : UInt32) : Prop :=
  ∃ target ∈ hit windows mx my, ∃ front ∈ (raise windows target.id).getLast?,
    OnHandle front mx my

def Closes (windows : List (Window AppState)) (mx my : UInt32) (id : UInt32) : Prop :=
  ∃ target ∈ hit windows mx my, ∃ front ∈ (raise windows target.id).getLast?,
    front.hitTestButtons mx my = some .close ∧ target.id = id

theorem mem_ids_eraseIdx {windows : List (Window AppState)} {idx : Nat}
    (found : windows[idx]? = some win) (differ : id ≠ win.id) :
    id ∈ (windows.eraseIdx idx).map (·.id) ↔ id ∈ windows.map (·.id) := by
  obtain ⟨inside, rfl⟩ := List.getElem?_eq_some_iff.mp found
  have perm := (getElem_cons_eraseIdx_perm inside).map (·.id)
  rw [← perm.mem_iff, map_cons, mem_cons]
  exact ⟨Or.inr, fun both => both.resolve_left differ⟩

theorem mem_ids_closeWindow {other : UInt32} (differ : other ≠ id) :
    other ∈ (wm.closeWindow id).windows.map (·.id) ↔ other ∈ wm.windows.map (·.id) := by
  rw [closeWindow_windows]
  cases found : wm.position id with
  | none => exact .rfl
  | some idx =>
    obtain ⟨inside, sameId, -⟩ := findIdx?_eq_some_iff_getElem.mp found
    have isId : wm.windows[idx].id = id := of_decide_eq_true sameId
    have kept := mem_ids_eraseIdx (getElem?_eq_getElem inside)
      (show other ≠ wm.windows[idx].id from isId ▸ differ)
    rw [← kept, ids_of_names (names_removeAt wm idx)]

theorem mem_ids_bringToFront (id other : UInt32) :
    other ∈ (wm.bringToFront id).windows.map (·.id) ↔ other ∈ wm.windows.map (·.id) := by
  have perm := (names_bringToFront wm id).map Prod.fst
  rw [names, names, List.map_map, List.map_map] at perm
  exact perm.mem_iff

/-! ### Clicks and drags -/

variable (wm)

theorem removeAt_drag (idx : Nat) : (wm.removeAt idx).drag = wm.drag := by
  dsimp only [removeAt]
  split <;> rfl

theorem closeWindow_drag (id : UInt32) :
    (wm.closeWindow id).drag = if wm.drag.winId = some id then .none else wm.drag := by
  unfold closeWindow
  cases wm.position id with
  | none =>
    dsimp only
    split <;> rfl
  | some idx =>
    dsimp only
    rw [removeAt_drag]
    split
    · rfl
    · exact removeAt_drag wm idx

theorem bringToFront_drag (id : UInt32) : (wm.bringToFront id).drag = wm.drag := by
  unfold bringToFront
  cases wm.position id with
  | none => rfl
  | some idx =>
    dsimp only
    split
    · rfl
    · unfold focusLast
      split <;> rfl

variable {wm}

/-- A live drag after a click on the front window: it has just been started, or it was
there before and its window has not been closed. -/
theorem clickFront_liveDrag {apps : Apps AppState World} {world : World}
    (isLast : wm.windows[wm.windows.length - 1]? = some win) (sameId : win.id = winId) :
    (wm.clickFront apps world winId win mx my).2.LiveDrag ↔
      OnHandle win mx my ∨
        ∃ id, wm.drag.winId = some id ∧ id ∈ wm.windows.map (·.id) ∧
          ¬ (win.hitTestButtons mx my = some .close ∧ winId = id) := by
  have there : winId ∈ wm.windows.map (·.id) :=
    List.mem_map.mpr ⟨win, mem_of_getElem? isLast, sameId⟩
  by_cases closes : win.hitTestButtons mx my = some .close
  · have closed : (wm.clickFront apps world winId win mx my).2 = wm.closeWindow winId := by
      rw [clickFront, closes]
    rw [closed, LiveDrag, closeWindow_drag, closes]
    constructor
    · rintro ⟨id, isDrag, inside⟩
      by_cases dragged : wm.drag.winId = some winId
      · rw [if_pos dragged] at isDrag
        cases isDrag
      · rw [if_neg dragged] at isDrag
        have differ : id ≠ winId := fun same => dragged (same ▸ isDrag)
        exact .inr ⟨id, isDrag, (mem_ids_closeWindow differ).mp inside,
          fun both => differ both.2.symm⟩
    · rintro (⟨isNone, -⟩ | ⟨id, isDrag, inside, spared⟩)
      · cases closes.symm.trans isNone
      · have differ : id ≠ winId := fun same => spared ⟨rfl, same.symm⟩
        have dragged : wm.drag.winId ≠ some winId := by
          rw [isDrag]
          exact fun same => differ (Option.some.inj same)
        rw [if_neg dragged]
        exact ⟨id, isDrag, (mem_ids_closeWindow differ).mpr inside⟩
  · have kept : (wm.clickFront apps world winId win mx my).2.drag = wm.drag →
        ¬ OnHandle win mx my →
        ((wm.clickFront apps world winId win mx my).2.LiveDrag ↔
          OnHandle win mx my ∨ ∃ id, wm.drag.winId = some id ∧ id ∈ wm.windows.map (·.id) ∧
            ¬ (win.hitTestButtons mx my = some .close ∧ winId = id)) := by
      intro sameDrag noGrab
      rw [LiveDrag, ids_of_names (clickFront_names isLast closes), sameDrag]
      constructor
      · rintro ⟨id, isDrag, inside⟩
        exact .inr ⟨id, isDrag, inside, fun both => closes both.1⟩
      · rintro (grab | ⟨id, isDrag, inside, -⟩)
        · exact absurd grab noGrab
        · exact ⟨id, isDrag, inside⟩
    have grabbed : (wm.clickFront apps world winId win mx my).2.drag.winId = some winId →
        (wm.clickFront apps world winId win mx my).2.LiveDrag := by
      intro isDrag
      refine ⟨winId, isDrag, ?_⟩
      rw [ids_of_names (clickFront_names isLast closes)]
      exact there
    cases button : win.hitTestButtons mx my with
    | some which =>
      rw [button] at kept
      refine kept ?_ (fun grab => by cases button.symm.trans grab.1)
      rw [clickFront, button]
      cases which with
      | close => exact absurd button closes
      | maximize => rfl
      | minimize => rfl
    | none =>
      cases edge : win.hitTestResizeEdge mx my with
      | some which =>
        refine iff_of_true (grabbed ?_) (.inl ⟨button, .inl (edge ▸ some_ne_none which)⟩)
        rw [clickFront, button]
        rw [edge]
        rfl
      | none =>
        by_cases title : win.hitTestTitlebar mx my = true
        · refine iff_of_true (grabbed ?_) (.inl ⟨button, .inr title⟩)
          rw [clickFront, button]
          rw [edge]
          rw [if_pos title]
          rfl
        rw [button] at kept
        refine kept ?_ (fun grab => grab.2.elim (fun unhit => unhit edge) title)
        rw [clickFront, button]
        rw [edge]
        dsimp only
        rw [if_neg title]
        split <;> rfl

/-- A live drag after a click: one that the click starts, or one that was live before and
whose window the click does not close. -/
theorem handleClick_liveDrag (apps : Apps AppState World) (world : World) (mx my : UInt32) :
    (wm.handleClick apps world mx my).2.LiveDrag ↔
      Grabs wm.windows mx my ∨
        ∃ id, wm.drag.winId = some id ∧ id ∈ wm.windows.map (·.id) ∧
          ¬ Closes wm.windows mx my id := by
  unfold Grabs Closes
  cases isHit : hit wm.windows mx my with
  | none =>
    rw [handleClick, isHit]
    constructor
    · rintro ⟨id, isDrag, inside⟩
      refine .inr ⟨id, isDrag, inside, ?_⟩
      rintro ⟨_, found, -⟩
      cases found
    · rintro (⟨_, isNone, -⟩ | ⟨id, isDrag, inside, -⟩)
      · cases isNone
      · exact ⟨id, isDrag, inside⟩
  | some target =>
    obtain ⟨rest, front, isRaise, sameId, raised⟩ :=
      exists_raise (mem_reverse.mp (mem_of_find?_eq_some isHit))
    have isLast : (wm.bringToFront target.id).windows[
        (wm.bringToFront target.id).windows.length - 1]? = some { front with focused := true } := by
      rw [raised, length_front, getElem?_front]
    rw [handleClick_of_hit isHit raised, clickFront_liveDrag isLast sameId, bringToFront_drag]
    simp only [mem_ids_bringToFront, mem_def, Option.some.injEq, exists_eq_left', isRaise,
      getLast?_concat]
    exact .rfl

theorem liveDrag_isDragging (live : wm.LiveDrag) : wm.isDragging = true := by
  obtain ⟨winId, isDrag, -⟩ := live
  refine decide_eq_true fun idle => ?_
  rw [idle] at isDrag
  exact nomatch isDrag

theorem dragWindow_isDragging (isDrag : wm.drag.winId = some winId)
    (change : Window AppState → Window AppState) :
    (wm.dragWindow winId change).2.isDragging = true ↔ wm.LiveDrag := by
  have dragging : wm.isDragging = true := by
    refine decide_eq_true fun idle => ?_
    rw [idle] at isDrag
    exact nomatch isDrag
  unfold dragWindow
  cases found : wm.position winId with
  | some idx =>
    obtain ⟨inside, sameId, -⟩ := findIdx?_eq_some_iff_getElem.mp found
    exact iff_of_true dragging ⟨winId, isDrag,
      List.mem_map.mpr ⟨_, getElem_mem inside, of_decide_eq_true sameId⟩⟩
  | none =>
    refine iff_of_false Bool.false_ne_true ?_
    rintro ⟨other, isOther, inside⟩
    have same : other = winId := Option.some.inj (isOther.symm.trans isDrag)
    obtain ⟨win, member, isId⟩ := List.mem_map.mp inside
    have differ := findIdx?_eq_none_iff.mp found win member
    exact of_decide_eq_false differ (isId.trans same)

/-- A movement of the mouse ends a drag whose window is gone, and starts none. -/
theorem handleMouseMove_isDragging (mx my : UInt32) :
    (wm.handleMouseMove mx my).2.isDragging = true ↔ wm.LiveDrag := by
  unfold handleMouseMove
  cases isDrag : wm.drag with
  | none =>
    refine iff_of_false ?_ ?_
    · dsimp only [isDragging]
      rw [isDrag]
      decide
    · rintro ⟨winId, isId, -⟩
      rw [isDrag] at isId
      exact nomatch isId
  | moving winId offsetX offsetY =>
    refine dragWindow_isDragging ?_ _
    rw [isDrag]
    rfl
  | resizing winId edge startMx startMy origX origY origW origH =>
    refine dragWindow_isDragging ?_ _
    rw [isDrag]
    rfl

theorem openApp_drag (apps : Apps AppState World) (world : World) (appId : AppId) :
    (wm.openApp apps world appId).drag = wm.drag := by
  unfold openApp focusLast
  split
  · rfl
  · dsimp only
    split <;> rfl

theorem handleInput_drag (apps : Apps AppState World) (world : World) (event : KeyEvent)
    (unrequested : Unrequested wm.windows) :
    (wm.handleInput apps world event).2.drag = wm.drag := by
  unfold handleInput
  split
  · unfold closeFocused
    cases wm.focusedIndex with
    | none => rfl
    | some idx => exact removeAt_drag wm idx
  split
  · unfold cycleFocus
    split
    · rfl
    · cases wm.focusedIndex <;> rfl
  · cases search : wm.windows.zipIdx.find? (·.1.focused) with
    | none => rfl
    | some pair =>
      have found : wm.windows[pair.2]? = some pair.1 :=
        mk_mem_zipIdx_iff_getElem?.mp (mem_of_find?_eq_some search)
      have stays := unrequested pair.1 (mem_of_getElem? found)
      dsimp only
      rw [if_neg (by rw [stays]; exact Bool.false_ne_true)]

end WindowManager

/-! ## The windows along the loop -/

section Handlers

variable {apps : Apps AppState World} {world : World} {desktop : DesktopState}
  {wm : WindowManager AppState}

theorem handleRightClick_liveDrag (apps : Apps AppState World) (world : World)
    (desktop : DesktopState) (wm : WindowManager AppState) (mx my screenH : UInt32) :
    (handleRightClick apps world desktop wm mx my screenH).wm.LiveDrag ↔
      (my < screenH - taskbarHeight ∧ Grabs wm.windows mx my) ∨
        ∃ id, wm.drag.winId = some id ∧ id ∈ wm.windows.map (·.id) ∧
          ¬ (my < screenH - taskbarHeight ∧ Closes wm.windows mx my id) := by
  unfold handleRightClick
  by_cases above : my < screenH - taskbarHeight
  · have clicked := @handleClick_liveDrag _ _ wm apps world mx my
    simp only [above, true_and]
    rw [← clicked, if_pos trivial]
    split
    · rename_i result
      rw [result]
    rename_i result
    rw [result]
    dsimp only [LiveDrag, unfocusAll]
    rw [List.map_map]
    rfl
  · simp only [above, false_and, false_or, not_false_eq_true, and_true, if_false]
    rfl

/-- A key opens a window, is given to the focused one, or leaves the windows alone. -/
theorem handleKey_wm (apps : Apps AppState World) (world : World) (desktop : DesktopState)
    (wm : WindowManager AppState) (key : Option KeyEvent) :
    (handleKey apps world desktop wm key).wm = wm ∨
      (∃ appId, (handleKey apps world desktop wm key).wm = wm.openApp apps world appId) ∨
      ∃ event, (handleKey apps world desktop wm key).wm =
        (wm.handleInput apps world event).2 := by
  cases key with
  | none => exact .inl rfl
  | some event =>
    unfold handleKey
    dsimp only
    split
    · unfold handleStartMenuInput
      split
      all_goals first | exact .inl rfl | skip
      split
      · exact .inr (.inl ⟨_, rfl⟩)
      · exact .inl rfl
      · exact .inl rfl
    · split
      · exact .inr (.inr ⟨event, rfl⟩)
      · unfold handleDesktopInput
        split
        all_goals first | exact .inl rfl | skip
        split
        · exact .inr (.inl ⟨_, rfl⟩)
        · exact .inl rfl

section

variable (unrequested : Unrequested wm.windows)
include unrequested

theorem clickStartMenu_unrequested {screenH : UInt32} {handled : Handled AppState}
    (inside : clickStartMenu apps world desktop wm mx my screenH = some handled) :
    Unrequested handled.wm.windows := by
  unfold clickStartMenu at inside
  dsimp only at inside
  split at inside
  · split at inside
    · split at inside
      · split at inside
        · cases inside
          exact unrequested_openApp unrequested apps world _
        · cases inside
          exact unrequested
      · cases inside
        exact unrequested
    · cases inside
      exact unrequested
  · exact nomatch inside

theorem clickTaskbar_unrequested (mx my screenW tbY : UInt32) :
    Unrequested (clickTaskbar desktop wm mx my screenW tbY).wm.windows := by
  unfold clickTaskbar
  dsimp only
  split
  · exact unrequested
  split
  · split
    · exact unrequested_toggleMinimizeById unrequested _
    · exact unrequested
  · exact unrequested

theorem clickIcons_unrequested (mx my : UInt32) :
    Unrequested (clickIcons apps world desktop wm mx my).wm.windows := by
  unfold clickIcons
  split
  · split
    · exact unrequested_openApp unrequested apps world _
    · exact unrequested
  · exact unrequested_unfocusAll unrequested

theorem clickBelowMenu_unrequested (mx my screenW screenH : UInt32) :
    Unrequested (clickBelowMenu apps world desktop wm mx my screenW screenH).wm.windows := by
  have after := unrequested_handleClick unrequested apps world mx my
  unfold clickBelowMenu
  dsimp only
  split
  · exact clickTaskbar_unrequested unrequested mx my _ _
  split
  · rename_i clicked
    rw [clicked] at after
    exact after
  · rename_i clicked
    rw [clicked] at after
    exact clickIcons_unrequested after mx my

theorem handleMouseClick_unrequested (mx my screenW screenH : UInt32) :
    Unrequested (handleMouseClick apps world desktop wm mx my screenW screenH).wm.windows := by
  unfold handleMouseClick
  split
  · split
    · rename_i inside
      exact clickStartMenu_unrequested unrequested inside
    · exact clickBelowMenu_unrequested unrequested mx my _ _
  · exact clickBelowMenu_unrequested unrequested mx my _ _

theorem handleRightClick_unrequested (mx my screenH : UInt32) :
    Unrequested (handleRightClick apps world desktop wm mx my screenH).wm.windows := by
  have after := unrequested_handleClick unrequested apps world mx my
  unfold handleRightClick
  split
  · split
    · rename_i clicked
      rw [clicked] at after
      exact after
    · rename_i clicked
      rw [clicked] at after
      exact unrequested_unfocusAll after
  · exact unrequested

theorem handleClickEdge_unrequested (tracker : MouseTracker) (sw sh : UInt32)
    (click : Option MouseClick) :
    Unrequested (handleClickEdge apps world desktop wm tracker sw sh click).wm.windows := by
  cases click with
  | none => exact unrequested
  | some edge =>
    cases edge with
    | leftDown => exact handleMouseClick_unrequested unrequested _ _ _ _
    | leftUp =>
      unfold handleClickEdge
      dsimp only
      split <;> exact unrequested
    | rightDown => exact handleRightClick_unrequested unrequested _ _ _
    | rightUp => exact unrequested

theorem handleKey_unrequested (key : Option KeyEvent) :
    Unrequested (handleKey apps world desktop wm key).wm.windows := by
  rcases handleKey_wm apps world desktop wm key with same | ⟨appId, opened⟩ | ⟨event, handled⟩
  · rw [same]
    exact unrequested
  · rw [opened]
    exact unrequested_openApp unrequested apps world appId
  · rw [handled]
    exact unrequested_handleInput unrequested apps world event

theorem handleKey_drag (key : Option KeyEvent) :
    (handleKey apps world desktop wm key).wm.drag = wm.drag := by
  rcases handleKey_wm apps world desktop wm key with same | ⟨appId, opened⟩ | ⟨event, handled⟩
  · rw [same]
  · rw [opened, openApp_drag]
  · rw [handled, handleInput_drag apps world event unrequested]

end

end Handlers

/-! ## The loop -/

namespace DesktopLoop

variable {loop : DesktopLoop AppState} {apps : Apps AppState World}

/-- A drag is in progress only while the left button is held. -/
def DragsHeld (loop : DesktopLoop AppState) : Prop :=
  loop.windowMgr.isDragging = true → loop.mouseTracker.prevLeft = true

def pointer (loop : DesktopLoop AppState) (turn : Turn World) : MouseTracker :=
  (loop.mouseTracker.processEvents loop.sw loop.sh turn.packets).1

/-- The latest button edge of the turn is a press of the right button while the left one is
up, and it takes hold of a window, or leaves a drag alone whose window is there. -/
def StrayDrag (loop : DesktopLoop AppState) (turn : Turn World) : Prop :=
  let windows := loop.windowMgr.windows
  let mx := (loop.pointer turn).x
  let my := (loop.pointer turn).y
  let aboveTaskbar := my < loop.sh - taskbarHeight
  loop.running = true ∧
    (edges loop.mouseTracker.prevLeft loop.mouseTracker.prevRight turn.packets).getLast? =
      some .rightDown ∧
    leftAfter loop.mouseTracker.prevLeft turn.packets = false ∧
    ((aboveTaskbar ∧ WindowManager.Grabs windows mx my) ∨
      ∃ id, loop.windowMgr.drag.winId = some id ∧ id ∈ windows.map (·.id) ∧
        ¬ (aboveTaskbar ∧ WindowManager.Closes windows mx my id))

theorem iterate_prevLeft (loop : DesktopLoop AppState) (turn : Turn World) :
    (loop.iterate apps turn).mouseTracker.prevLeft =
      leftAfter loop.mouseTracker.prevLeft turn.packets :=
  loop.mouseTracker.processEvents_left turn.packets

def clicked (apps : Apps AppState World) (loop : DesktopLoop AppState) (turn : Turn World) :
    Handled AppState :=
  handleClickEdge apps turn.clickWorld loop.desktop loop.windowMgr (loop.pointer turn) loop.sw
    loop.sh (edges loop.mouseTracker.prevLeft loop.mouseTracker.prevRight turn.packets).getLast?

/-- The windows once the pointer has dragged along what it holds. -/
def dragged (apps : Apps AppState World) (loop : DesktopLoop AppState) (turn : Turn World) :
    WindowManager AppState :=
  if (loop.mouseTracker.processEvents loop.sw loop.sh turn.packets).2.1 &&
      (loop.clicked apps turn).wm.isDragging then
    ((loop.clicked apps turn).wm.handleMouseMove (loop.pointer turn).x (loop.pointer turn).y).2
  else (loop.clicked apps turn).wm

theorem iterate_windowMgr (loop : DesktopLoop AppState) (turn : Turn World) :
    (loop.iterate apps turn).windowMgr =
      (handleKey apps turn.keyWorld (loop.clicked apps turn).desktop (loop.dragged apps turn)
        turn.key).wm := by
  unfold iterate dragged clicked
  rw [← processEvents_click]
  rfl

section

variable (unrequested : Unrequested loop.windowMgr.windows)
include unrequested

theorem dragged_unrequested (turn : Turn World) : Unrequested (loop.dragged apps turn).windows := by
  have after : Unrequested (loop.clicked apps turn).wm.windows :=
    handleClickEdge_unrequested unrequested _ _ _ _
  unfold dragged
  split
  · exact unrequested_of_names (names_of_tags (handleMouseMove_tags _ _)) after
  · exact after

theorem iterate_unrequested
    (turn : Turn World) : Unrequested (loop.iterate apps turn).windowMgr.windows := by
  rw [iterate_windowMgr]
  exact handleKey_unrequested (dragged_unrequested unrequested turn) _

theorem iterate_isDragging (turn : Turn World) :
    (loop.iterate apps turn).windowMgr.isDragging = (loop.dragged apps turn).isDragging := by
  unfold isDragging
  rw [iterate_windowMgr, handleKey_drag (dragged_unrequested unrequested turn) _]

end

theorem dragged_isDragging_imp (dragging : (loop.dragged apps turn).isDragging = true) :
    (loop.clicked apps turn).wm.isDragging = true := by
  unfold dragged at dragging
  split at dragging
  · exact liveDrag_isDragging
      ((handleMouseMove_isDragging _ _).mp dragging)
  · exact dragging

theorem dragged_isDragging (nonempty : turn.packets ≠ []) :
    (loop.dragged apps turn).isDragging = true ↔ (loop.clicked apps turn).wm.LiveDrag := by
  unfold dragged
  rw [processEvents_moved _ nonempty]
  split
  · exact handleMouseMove_isDragging _ _
  · rename_i still
    exact ⟨fun dragging => absurd dragging still, fun live => liveDrag_isDragging live⟩

/-- One turn keeps drags to the held button exactly when it leaves no stray drag. -/
theorem iterate_dragsHeld (unrequested : Unrequested loop.windowMgr.windows)
    (running : loop.running = true) (held : loop.DragsHeld) (turn : Turn World) :
    (loop.iterate apps turn).DragsHeld ↔ ¬ loop.StrayDrag turn := by
  unfold DragsHeld
  rw [iterate_isDragging unrequested, iterate_prevLeft]
  have tells := edgeTells_edges loop.mouseTracker.prevLeft
    loop.mouseTracker.prevRight turn.packets
  have starts : (loop.dragged apps turn).isDragging = true →
      (loop.clicked apps turn).wm.isDragging = true := dragged_isDragging_imp
  unfold StrayDrag
  cases click : (edges loop.mouseTracker.prevLeft loop.mouseTracker.prevRight
      turn.packets).getLast? with
  | none =>
    rw [click] at tells
    rw [clicked, click] at starts
    refine iff_of_true (fun dragging => ?_) (fun stray => nomatch stray.2.1)
    exact tells.trans (held (starts dragging))
  | some edge =>
    rw [click] at tells
    rw [clicked, click] at starts
    cases edge with
    | leftDown => exact iff_of_true (fun _ => tells) (fun stray => nomatch stray.2.1)
    | leftUp =>
      refine iff_of_true (fun dragging => ?_) (fun stray => nomatch stray.2.1)
      have dragging := starts dragging
      unfold handleClickEdge at dragging
      dsimp only at dragging
      split at dragging
      · exact absurd dragging Bool.false_ne_true
      · rename_i still
        exact absurd dragging still
    | rightUp => exact absurd tells id
    | rightDown =>
      have nonempty : turn.packets ≠ [] := by
        rintro isEmpty
        rw [isEmpty] at click
        exact nomatch click
      have pressed : loop.clicked apps turn = handleRightClick apps turn.clickWorld loop.desktop
          loop.windowMgr (loop.pointer turn).x (loop.pointer turn).y loop.sh := by
        rw [clicked, click]
        rfl
      rw [dragged_isDragging nonempty, pressed, handleRightClick_liveDrag]
      cases leftAfter loop.mouseTracker.prevLeft turn.packets with
      | true => exact iff_of_true (fun _ => rfl) (fun stray => nomatch stray.2.2.1)
      | false =>
        constructor
        · rintro released ⟨-, -, -, grabs⟩
          exact Bool.false_ne_true (released grabs)
        · intro refuses grabs
          exact absurd ⟨running, rfl, rfl, grabs⟩ refuses

/-- Along every session, whatever the batches, a drag is in progress after a turn only while
the left button is held exactly when no turn leaves a stray drag. -/
theorem drags_held_iff_no_stray_drag (apps : Apps AppState World) (sw sh : UInt32)
    (turns : List (Turn World)) :
    Transition.Throughout (step apps) DragsHeld (.new sw sh) turns ↔
      Transition.Meets (step apps) (fun loop turn => ¬ loop.StrayDrag turn) (.new sw sh) turns := by
  refine @Transition.throughout_iff_meets _ _ (step apps) _
    (fun loop => Unrequested loop.windowMgr.windows) _ _ _ ?_ ?_
    (forall_mem_nil _) fun dragging => nomatch dragging
  · intro loop turn next unrequested stepped
    unfold step at stepped
    split at stepped
    · cases stepped
      exact iterate_unrequested unrequested turn
    · exact nomatch stepped
  · intro loop turn unrequested held
    unfold step
    by_cases running : loop.running = true
    · have kept : (loop.iterate apps turn).DragsHeld ↔ ¬ loop.StrayDrag turn :=
        iterate_dragsHeld unrequested running held turn
      rw [if_pos running, ← kept]
      exact ⟨fun holds next same => Option.some.inj same ▸ holds, fun all => all _ rfl⟩
    · rw [if_neg running]
      exact iff_of_true (fun stray => running stray.1) fun _ absent => nomatch absent

/-- A window is opened by keys and dragged by its title bar; then one packet releases the
left button and presses the right one, and the drag goes on. -/
theorem right_press_hides_release :
    ¬ Transition.Throughout (step WmCall.idleApps) DragsHeld (.new 800 600)
      [⟨[], some ⟨0, .tab, true⟩, (), ()⟩,
       ⟨[], some ⟨0, .enter, true⟩, (), ()⟩,
       ⟨[⟨0, -170, ⟨false, false, false⟩⟩, ⟨0, 0, ⟨true, false, false⟩⟩], none, (), ()⟩,
       ⟨[⟨0, 0, ⟨false, true, false⟩⟩], none, (), ()⟩] := by
  intro all
  have held := all.last rfl
  exact absurd (held (by decide +kernel)) (by decide +kernel)

end DesktopLoop

end CantayaOS.Desktop
