import CantayaOS.Lib.Transition
import CantayaOS.Desktop.WindowManager

/-!
# The focus along a session

At most one window should be focused, and a focused window should be shown.
Closing a window and cycling pass the focus on by position in the list and do not
look whether the window that gets it is minimized.  A session keeps both facts
exactly when each time the focus is passed on so, the window is a shown one.
-/

namespace CantayaOS.Desktop

open Hal Lib WindowManager List Option Window Bool

variable {AppState World : Type}

/-! ## Lists of windows -/

/-- At most one window is focused, and it is shown. -/
structure FocusSound (windows : List (Window AppState)) : Prop where
  one : windows.Pairwise fun win other => (win.focused && other.focused) = false
  shown : ∀ win ∈ windows, win.focused = true → win.minimized = false

/-- No application has asked for its window to be closed. -/
def Unrequested (windows : List (Window AppState)) : Prop :=
  ∀ win ∈ windows, win.closeRequested = false

def Shown (win : Option (Window AppState)) : Prop := ∀ found ∈ win, found.minimized = false

variable {win : Window AppState} {idx : Nat} {id mx my : UInt32} {world : World}

theorem shown_some : Shown (some win) ↔ win.minimized = false :=
  ⟨fun shown => shown win rfl, fun shown _ same => Option.some.inj same ▸ shown⟩

theorem shown_none : Shown (none : Option (Window AppState)) := fun _ absent =>
  absurd absent (not_mem_none _)

/-- The window that inherits the focus when the one at the index is closed: the one
above it, or else the one below. -/
def heir (windows : List (Window AppState)) (idx : Nat) : Option (Window AppState) :=
  if idx + 1 < windows.length then windows[idx + 1]?
  else if 0 < idx then windows[idx - 1]? else none

/-- The windows with the first one of an ID moved to the front. -/
def raise (windows : List (Window AppState)) (id : UInt32) : List (Window AppState) :=
  match windows.findIdx? (·.id = id) with
  | none => windows
  | some idx => windows.eraseIdx idx ++ windows[idx]?.toList

variable {windows : List (Window AppState)}

def flags (windows : List (Window AppState)) : List (Bool × Bool) :=
  windows.map fun win => (win.focused, win.minimized)

theorem focusSound_congr {others : List (Window AppState)} (same : flags others = flags windows) :
    FocusSound others ↔ FocusSound windows := by
  have reads : ∀ list : List (Window AppState), FocusSound list ↔
      (flags list).Pairwise (fun a b => (a.1 && b.1) = false) ∧
        ∀ pair ∈ flags list, pair.1 = true → pair.2 = false := by
    intro list
    rw [flags, pairwise_map, List.forall_mem_map]
    exact ⟨fun sound => ⟨sound.one, sound.shown⟩, fun both => ⟨both.1, both.2⟩⟩
  rw [reads, reads, same]

theorem map_modify {β : Type} {read : Window AppState → β}
    {change : Window AppState → Window AppState}
    (keeps : ∀ win, windows[idx]? = some win → read (change win) = read win) :
    (windows.modify idx change).map read = windows.map read := by
  refine ext_getElem? fun i => ?_
  rw [getElem?_map, getElem?_map, getElem?_modify]
  cases found : windows[i]? with
  | none => rfl
  | some win =>
    by_cases same : idx = i
    · simp only [map_some, Option.map_eq_map, if_pos same, keeps win (same ▸ found)]
    · simp only [map_some, Option.map_eq_map, if_neg same]

/-- The IDs of the windows, with the requests to close them. -/
def names (windows : List (Window AppState)) : List (UInt32 × Bool) :=
  windows.map fun win => (win.id, win.closeRequested)

/-- What of a window does not depend on its place, its size and its application. -/
def Window.tag (win : Window AppState) : (UInt32 × Bool) × Bool × Bool :=
  ((win.id, win.closeRequested), win.focused, win.minimized)

theorem flags_of_tags {others : List (Window AppState)}
    (same : others.map tag = windows.map tag) : flags others = flags windows := by
  have pairs := congrArg (map Prod.snd) same
  rwa [List.map_map, List.map_map] at pairs

theorem names_of_tags {others : List (Window AppState)}
    (same : others.map tag = windows.map tag) : names others = names windows := by
  have pairs := congrArg (map Prod.fst) same
  rwa [List.map_map, List.map_map] at pairs

theorem ids_of_names {others : List (Window AppState)} (same : names others = names windows) :
    others.map (·.id) = windows.map (·.id) := by
  have ids := congrArg (map Prod.fst) same
  rwa [names, names, List.map_map, List.map_map] at ids

theorem unrequested_of_subset {others : List (Window AppState)}
    (within : names others ⊆ names windows) (unrequested : Unrequested windows) :
    Unrequested others := by
  intro win member
  obtain ⟨before, isBefore, same⟩ := List.mem_map.mp (within (mem_map_of_mem member))
  exact (congrArg Prod.snd same).symm.trans (unrequested before isBefore)

theorem unrequested_of_names {others : List (Window AppState)}
    (same : names others = names windows) (unrequested : Unrequested windows) :
    Unrequested others :=
  unrequested_of_subset (same ▸ List.Subset.refl _) unrequested

variable (windows)

theorem getElem?_focusOnly (idx i : Nat) :
    (focusOnly windows idx)[i]? =
      windows[i]?.map fun win => { win with focused := i == idx } :=
  getElem?_mapIdx

@[simp] theorem length_focusOnly (idx : Nat) : (focusOnly windows idx).length = windows.length :=
  length_mapIdx

/-- With one window focused by index, all depends on whether it is shown. -/
theorem focusSound_focusOnly (idx : Nat) :
    FocusSound (focusOnly windows idx) ↔ Shown windows[idx]? := by
  constructor
  · intro sound win found
    have focused : (focusOnly windows idx)[idx]? =
        some { win with focused := true } := by
      rw [getElem?_focusOnly, mem_def.mp found, map_some, beq_self_eq_true]
    exact sound.shown { win with focused := true } (mem_of_getElem? focused) rfl
  · intro shown
    refine ⟨?_, ?_⟩
    · rw [pairwise_iff_getElem]
      intro i j hi hj before
      simp only [focusOnly]
      have differ : ¬ (i = idx ∧ j = idx) := by omega
      simpa using differ
    · intro win member focused
      obtain ⟨i, found⟩ := mem_iff_getElem?.mp member
      rw [getElem?_focusOnly] at found
      obtain ⟨before, isBefore, rfl⟩ := map_eq_some_iff.mp found
      have same : i = idx := beq_iff_eq.mp focused
      rw [same] at isBefore
      exact shown before isBefore

variable {windows}

theorem focusSound_nil : FocusSound ([] : List (Window AppState)) :=
  ⟨List.Pairwise.nil, forall_mem_nil _⟩

theorem focusSound_of_unfocused (blurred : ∀ win ∈ windows, win.focused = false) :
    FocusSound windows := by
  refine ⟨pairwise_iff_forall_sublist.mpr fun sub => ?_, fun win member focused => ?_⟩
  · rw [blurred _ (sub.subset (.head _)), Bool.false_and]
  · rw [blurred win member] at focused
    exact absurd focused false_ne_true

theorem focusSound_reverse (sound : FocusSound windows) : FocusSound windows.reverse := by
  refine ⟨pairwise_reverse.mpr (sound.one.imp fun apart => ?_), fun win member => ?_⟩
  · rw [Bool.and_comm]
    exact apart
  · exact sound.shown win (mem_reverse.mp member)

theorem focusFirstShown_sound (blurred : ∀ win ∈ windows, win.focused = false) :
    FocusSound (focusFirstShown windows) := by
  induction windows with
  | nil => exact focusSound_nil
  | cons win rest ih =>
    have others : ∀ other ∈ rest, other.focused = false := fun other member =>
      blurred other (mem_cons_of_mem _ member)
    rw [focusFirstShown]
    by_cases hidden : win.minimized = true
    · rw [if_pos hidden]
      have sound := ih others
      have unfocused := blurred win (.head _)
      refine ⟨pairwise_cons.mpr ⟨fun other _ => ?_, sound.one⟩, ?_⟩
      · rw [unfocused, Bool.false_and]
      · refine forall_mem_cons.mpr ⟨fun focused => ?_, sound.shown⟩
        rw [unfocused] at focused
        exact absurd focused false_ne_true
    · rw [if_neg hidden]
      have sound := focusSound_of_unfocused others
      refine ⟨pairwise_cons.mpr ⟨fun other member => ?_, sound.one⟩, ?_⟩
      · rw [others other member, Bool.and_false]
      · exact forall_mem_cons.mpr ⟨fun _ => Bool.eq_false_iff.mpr hidden, sound.shown⟩

theorem minimizeAt_sound
    (others : ∀ i win, windows[i]? = some win → i ≠ idx → win.focused = false) :
    FocusSound (minimizeAt windows idx) := by
  refine focusSound_reverse (focusFirstShown_sound fun win member => ?_)
  obtain ⟨i, found⟩ := mem_iff_getElem?.mp (mem_reverse.mp member)
  rw [getElem?_modify] at found
  obtain ⟨before, isBefore, rfl⟩ := map_eq_some_iff.mp found
  by_cases same : idx = i
  · rw [if_pos same]
  · rw [if_neg same]
    exact others i before isBefore (Ne.symm same)

theorem FocusSound.others (sound : FocusSound windows)
    (found : windows[idx]? = some win) (focused : win.focused = true) :
    ∀ i other, windows[i]? = some other → i ≠ idx → other.focused = false := by
  intro i other isOther differ
  have apart := pairwise_iff_getElem.mp sound.one
  obtain ⟨idxLt, rfl⟩ := List.getElem?_eq_some_iff.mp found
  obtain ⟨iLt, rfl⟩ := List.getElem?_eq_some_iff.mp isOther
  rcases lt_or_gt_of_ne differ with before | behind
  · have both := apart i idx iLt idxLt before
    rwa [focused, Bool.and_true] at both
  · have both := apart idx i idxLt iLt behind
    rwa [focused] at both

/-! ## The operations -/

namespace WindowManager

variable {wm : WindowManager AppState}

theorem getElem?_eraseIdx_heir (inside : idx < windows.length)
    (others : windows.eraseIdx idx ≠ []) :
    (windows.eraseIdx idx)[if idx < (windows.eraseIdx idx).length then idx
      else (windows.eraseIdx idx).length - 1]? = heir windows idx := by
  have shorter := length_eraseIdx_of_lt inside
  have remain : (windows.eraseIdx idx).length ≠ 0 := fun zero =>
    others (length_eq_zero_iff.mp zero)
  unfold heir
  by_cases above : idx + 1 < windows.length
  · rw [if_pos above, if_pos (by omega), getElem?_eraseIdx, if_neg (lt_irrefl _)]
  · rw [if_neg above, if_neg (by omega), if_pos (by omega), getElem?_eraseIdx, if_pos (by omega)]
    congr 1
    omega

theorem removeAt_sound (inside : idx < wm.windows.length) :
    FocusSound (wm.removeAt idx).windows ↔ Shown (heir wm.windows idx) := by
  unfold removeAt
  by_cases last : wm.windows.eraseIdx idx = []
  · have noHeir : heir wm.windows idx = none := by
      have shorter := congrArg length last
      rw [length_eraseIdx_of_lt inside, length_nil] at shorter
      rw [heir, if_neg (by omega), if_neg (by omega)]
    rw [noHeir, last]
    exact iff_of_true focusSound_nil shown_none
  · rw [if_neg last, setFocus, focusSound_focusOnly]
    rw [getElem?_eraseIdx_heir inside last]

theorem focusLast_windows (wm : WindowManager AppState) :
    wm.focusLast.windows = focusOnly wm.windows (wm.windows.length - 1) := by
  rw [focusLast]
  by_cases nonempty : 0 < wm.windows.length
  · rw [if_pos nonempty, setFocus]
  · have nothing : wm.windows = [] := length_eq_zero_iff.mp (by omega)
    rw [if_neg nonempty, nothing]
    rfl

section

variable (found : wm.position id = some idx)
include found

theorem position_lt : idx < wm.windows.length :=
  (findIdx?_eq_some_iff_getElem.mp found).1

theorem raise_eq (isWindow : wm.windows[idx]? = some win) :
    raise wm.windows id = wm.windows.eraseIdx idx ++ [win] := by
  rw [position] at found
  rw [raise, found]
  dsimp only
  rw [isWindow, toList_some]

theorem bringToFront_windows :
    (wm.bringToFront id).windows =
      focusOnly (raise wm.windows id) ((raise wm.windows id).length - 1) := by
  have inside := position_lt found
  rw [raise_eq found (getElem?_eq_getElem inside), bringToFront, found]
  dsimp only
  by_cases top : idx = wm.windows.length - 1
  · have same : wm.windows.eraseIdx idx ++ [wm.windows[idx]] = wm.windows := by
      subst top
      rw [eraseIdx_length_sub_one, ← getLast_eq_getElem (ne_nil_of_length_pos (by omega))]
      exact dropLast_concat_getLast _
    rw [if_pos top, same, setFocus, ← top]
  · rw [if_neg top, focusLast_windows, getElem?_eq_getElem inside, toList_some]

end

theorem closeFocused_sound (sound : FocusSound wm.windows) :
    FocusSound wm.closeFocused.windows ↔
      ∀ idx, wm.focusedIndex = some idx → Shown (heir wm.windows idx) := by
  unfold closeFocused
  cases found : wm.focusedIndex with
  | none => exact iff_of_true sound fun _ absent => absurd absent (some_ne_none _).symm
  | some idx =>
    have inside := (findIdx?_eq_some_iff_getElem.mp found).1
    rw [removeAt_sound inside]
    simp

theorem closeWindow_windows (wm : WindowManager AppState) (id : UInt32) :
    (wm.closeWindow id).windows =
      match wm.position id with
      | some idx => (wm.removeAt idx).windows
      | none => wm.windows := by
  unfold closeWindow
  cases wm.position id with
  | none =>
    dsimp only
    split <;> rfl
  | some idx =>
    dsimp only
    split <;> rfl

/-- Closing by ID passes the focus on whenever there is such a window. -/
theorem closeWindow_sound_of_found (found : wm.position id = some idx) :
    FocusSound (wm.closeWindow id).windows ↔ Shown (heir wm.windows idx) := by
  rw [closeWindow_windows, found]
  exact removeAt_sound (position_lt found)

theorem closeWindow_sound (sound : FocusSound wm.windows) (id : UInt32) :
    FocusSound (wm.closeWindow id).windows ↔
      ∀ idx, wm.position id = some idx → Shown (heir wm.windows idx) := by
  cases found : wm.position id with
  | none =>
    rw [closeWindow_windows, found]
    exact iff_of_true sound fun _ absent => nomatch absent
  | some idx =>
    rw [closeWindow_sound_of_found found]
    simp

theorem cycleFocus_sound (sound : FocusSound wm.windows) :
    FocusSound wm.cycleFocus.windows ↔
      ∀ idx, wm.focusedIndex = some idx → Shown wm.windows[(idx + 1) % wm.windows.length]? := by
  unfold cycleFocus
  by_cases few : wm.windows.length ≤ 1
  · rw [if_pos few]
    refine iff_of_true sound fun idx found win isNext => ?_
    obtain ⟨inside, focused, -⟩ := findIdx?_eq_some_iff_getElem.mp found
    have same : (idx + 1) % wm.windows.length = idx := by
      have isOne : wm.windows.length = 1 := by omega
      rw [isOne]
      omega
    rw [same, getElem?_eq_getElem inside] at isNext
    have isWin := Option.some.inj isNext
    rw [← isWin]
    exact sound.shown _ (getElem_mem inside) focused
  · rw [if_neg few]
    cases found : wm.focusedIndex with
    | none => exact iff_of_true sound fun _ absent => nomatch absent
    | some idx =>
      dsimp only [setFocus]
      rw [focusSound_focusOnly]
      simp

theorem openApp_sound (apps : Apps AppState World) (world : World) (appId : AppId)
    (sound : FocusSound wm.windows) : FocusSound (wm.openApp apps world appId).windows := by
  unfold openApp
  by_cases full : maxWindows ≤ wm.windows.length
  · rw [if_pos full]
    exact sound
  · rw [if_neg full, focusLast_windows, focusSound_focusOnly]
    rw [length_append, length_singleton, Nat.add_sub_cancel, getElem?_concat_length]
    rintro win ⟨⟩
    rfl

theorem shown_modify_unminimized (windows : List (Window AppState)) (idx : Nat) :
    Shown (windows.modify idx ({ · with minimized := false }))[idx]? := by
  intro win found
  rw [getElem?_modify_eq] at found
  obtain ⟨before, -, rfl⟩ := map_eq_some_iff.mp found
  rfl

theorem focusWindowById_sound (sound : FocusSound wm.windows) (id : UInt32) :
    FocusSound (wm.focusWindowById id).windows := by
  unfold focusWindowById
  cases wm.position id with
  | none => exact sound
  | some idx => exact (focusSound_focusOnly _ _).mpr (shown_modify_unminimized _ _)

theorem toggleMinimizeById_sound (sound : FocusSound wm.windows) (id : UInt32) :
    FocusSound (wm.toggleMinimizeById id).windows := by
  unfold toggleMinimizeById
  cases search : wm.windows.zipIdx.find? (·.1.id = id) with
  | none => exact sound
  | some pair =>
    obtain ⟨win, idx⟩ := pair
    have found : wm.windows[idx]? = some win :=
      mk_mem_zipIdx_iff_getElem?.mp (mem_of_find?_eq_some search)
    dsimp only
    by_cases hidden : win.minimized = true
    · rw [if_pos hidden]
      exact (focusSound_focusOnly _ _).mpr (shown_modify_unminimized _ _)
    rw [if_neg hidden]
    by_cases focused : win.focused = true
    · rw [if_pos focused]
      exact minimizeAt_sound (sound.others found focused)
    · rw [if_neg focused, setFocus, focusSound_focusOnly, found]
      rintro other ⟨⟩
      exact Bool.eq_false_iff.mpr hidden

theorem unfocusAll_sound (wm : WindowManager AppState) : FocusSound wm.unfocusAll.windows := by
  refine focusSound_of_unfocused fun win member => ?_
  obtain ⟨before, -, rfl⟩ := List.mem_map.mp member
  rfl

theorem bringToFront_sound (sound : FocusSound wm.windows) (id : UInt32) :
    FocusSound (wm.bringToFront id).windows ↔ Shown (wm.windows.find? (·.id = id)) := by
  cases found : wm.position id with
  | none =>
    have noWindow : wm.windows.find? (·.id = id) = none :=
      List.find?_eq_none.mpr fun win member =>
        Bool.eq_false_iff.mp (List.findIdx?_eq_none_iff.mp found win member)
    rw [bringToFront, found, noWindow]
    exact iff_of_true sound shown_none
  | some idx =>
    have inside := position_lt found
    have isWindow : wm.windows.find? (·.id = id) = wm.windows[idx]? := by
      rw [position, findIdx?_eq_some_iff_findIdx_eq] at found
      rw [find?_eq_getElem?_findIdx, found.2]
    rw [bringToFront_windows found, focusSound_focusOnly, isWindow,
      raise_eq found (getElem?_eq_getElem inside), length_append, length_singleton,
      Nat.add_sub_cancel, getElem?_concat_length, getElem?_eq_getElem inside]

theorem handleInput_sound (apps : Apps AppState World) (world : World) (event : KeyEvent)
    (unrequested : Unrequested wm.windows) (sound : FocusSound wm.windows) :
    FocusSound (wm.handleInput apps world event).2.windows ↔
      ((event.key = .f4 ∨ event.key = .escape) →
        ∀ idx, wm.focusedIndex = some idx → Shown (heir wm.windows idx)) ∧
      (event.key = .f2 →
        ∀ idx, wm.focusedIndex = some idx → Shown wm.windows[(idx + 1) % wm.windows.length]?) := by
  unfold handleInput
  by_cases closes : event.key = .f4 ∨ event.key = .escape
  · have noCycle : event.key ≠ .f2 := by
      rintro isCycle
      rw [isCycle] at closes
      exact absurd closes (by decide)
    rw [if_pos closes, closeFocused_sound sound]
    exact ⟨fun shown => ⟨fun _ => shown, fun cycles => absurd cycles noCycle⟩,
      fun both => both.1 closes⟩
  · rw [if_neg closes]
    by_cases cycles : event.key = .f2
    · rw [if_pos cycles, cycleFocus_sound sound]
      exact ⟨fun shown => ⟨fun close => absurd close closes, fun _ => shown⟩,
        fun both => both.2 cycles⟩
    rw [if_neg cycles]
    refine iff_of_true ?_ ⟨fun close => absurd close closes, fun cycle => absurd cycle cycles⟩
    cases search : wm.windows.zipIdx.find? (·.1.focused) with
    | none => exact sound
    | some pair =>
      obtain ⟨win, idx⟩ := pair
      have found : wm.windows[idx]? = some win :=
        mk_mem_zipIdx_iff_getElem?.mp (mem_of_find?_eq_some search)
      have stays : win.closeRequested = false := unrequested win (mem_of_getElem? found)
      dsimp only
      rw [if_neg (by rw [stays]; exact false_ne_true)]
      refine (focusSound_congr (map_modify fun _ _ => ?_)).mpr sound
      dsimp only

theorem handleMouseMove_tags (mx my : UInt32) :
    (wm.handleMouseMove mx my).2.windows.map tag = wm.windows.map tag := by
  have dragged : ∀ winId change, (∀ win : Window AppState, (change win).tag = win.tag) →
      (wm.dragWindow winId change).2.windows.map tag = wm.windows.map tag := by
    intro winId change keeps
    unfold dragWindow
    cases wm.position winId with
    | none => rfl
    | some idx => exact map_modify fun win _ => keeps win
  unfold handleMouseMove
  cases wm.drag with
  | none => rfl
  | moving winId offsetX offsetY => exact dragged _ _ fun _ => rfl
  | resizing winId edge startMx startMy origX origY origW origH =>
    refine dragged _ _ fun win => ?_
    cases edge <;> rfl

/-! ### Clicks -/

theorem restoreFromMaximize_tag (win : Window AppState) :
    win.restoreFromMaximize.tag = win.tag := by
  unfold restoreFromMaximize
  cases win.maximized <;> rfl

theorem toggleMaximize_tag (win : Window AppState) (screenW screenH : UInt32) :
    (win.toggleMaximize screenW screenH).tag = win.tag := by
  unfold toggleMaximize
  split
  · exact restoreFromMaximize_tag win
  next shown =>
    unfold maximize
    rw [if_neg shown]
    rfl

variable (windows)

theorem names_focusOnly (idx : Nat) : names (focusOnly windows idx) = names windows := by
  refine ext_getElem? fun i => ?_
  rw [names, names, getElem?_map, getElem?_map, getElem?_focusOnly, Option.map_map]
  rfl

theorem findIdx?_focusOnly (idx : Nat) (id : UInt32) :
    (focusOnly windows idx).findIdx? (·.id = id) = windows.findIdx? (·.id = id) := by
  have sameIds := ids_of_names (names_focusOnly windows idx)
  have byIds : ∀ list : List (Window AppState),
      list.findIdx? (·.id = id) = (list.map (·.id)).findIdx? (· = id) := by
    intro list
    rw [findIdx?_map]
    rfl
  rw [byIds, byIds, sameIds]

theorem shown_heir_focusOnly (idx i : Nat) :
    Shown (heir (focusOnly windows idx) i) ↔ Shown (heir windows i) := by
  have same : ∀ j : Nat, Shown (focusOnly windows idx)[j]? ↔ Shown windows[j]? := by
    intro j
    rw [getElem?_focusOnly]
    cases windows[j]? with
    | none => exact .rfl
    | some win => rw [map_some, shown_some, shown_some]
  unfold heir
  rw [length_focusOnly]
  split
  · exact same _
  · split
    · exact same _
    · exact .rfl

variable {windows}

variable {apps : Apps AppState World}

/-- A click on the front window changes only its place, its size and its application unless it
is on the close or on the minimize button. -/
theorem clickFront_tags {winId : UInt32} (isLast : wm.windows[wm.windows.length - 1]? = some win)
    (notClose : win.hitTestButtons mx my ≠ some .close)
    (notMinimize : win.hitTestButtons mx my ≠ some .minimize) :
    (wm.clickFront apps world winId win mx my).2.windows.map tag =
      wm.windows.map tag := by
  unfold clickFront
  cases button : win.hitTestButtons mx my with
  | some button' =>
    cases button' with
    | close => exact absurd button notClose
    | minimize => exact absurd button notMinimize
    | maximize => exact map_modify fun _ _ => toggleMaximize_tag _ _ _
  | none =>
    cases win.hitTestResizeEdge mx my with
    | some edge => rfl
    | none =>
      dsimp only
      by_cases title : win.hitTestTitlebar mx my = true
      · rw [if_pos title]
        refine map_modify fun other isOther => ?_
        have same : other = win := Option.some.inj (isOther.symm.trans isLast)
        rw [same]
        by_cases big : win.maximized = true
        · rw [if_pos big]
          exact restoreFromMaximize_tag win
        · rw [if_neg big]
      · rw [if_neg title]
        by_cases client : win.hitTestClient mx my = true
        · rw [if_pos client]
          refine map_modify fun _ _ => ?_
          dsimp only [tag]
        · rw [if_neg client]

/-- What a click must find, once the window that takes it is in front: a shown window,
or a shown one to inherit from the window that the click closes. -/
def FrontKeeps (windows : List (Window AppState)) (id : UInt32) (front : Window AppState)
    (mx my : UInt32) : Prop :=
  match front.hitTestButtons mx my with
  | some .close => ∀ idx, windows.findIdx? (·.id = id) = some idx → Shown (heir windows idx)
  | some .minimize => True
  | some .maximize => front.minimized = false
  | none => front.minimized = false

def ClickKeeps (windows : List (Window AppState)) (mx my : UInt32) : Prop :=
  ∀ target ∈ hit windows mx my, ∀ front ∈ (raise windows target.id).getLast?,
    FrontKeeps (raise windows target.id) target.id front mx my

/-- The window that is brought to the front is focused there and nowhere else. -/
theorem exists_raise {target : Window AppState} (member : target ∈ wm.windows) :
    ∃ rest front, raise wm.windows target.id = rest ++ [front] ∧ front.id = target.id ∧
      (wm.bringToFront target.id).windows = focusOnly (rest ++ [front]) rest.length := by
  obtain ⟨idx, found⟩ : ∃ idx, wm.position target.id = some idx := by
    rw [← isSome_iff_exists, position, findIdx?_isSome, List.any_eq_true]
    exact ⟨target, member, decide_eq_true rfl⟩
  obtain ⟨inside, sameId, -⟩ := List.findIdx?_eq_some_iff_getElem.mp found
  have isRaise := raise_eq found (getElem?_eq_getElem inside)
  refine ⟨_, _, isRaise, of_decide_eq_true sameId, ?_⟩
  rw [bringToFront_windows found, isRaise, length_append, List.length_singleton,
    Nat.add_sub_cancel]

theorem getElem?_front (rest : List (Window AppState)) (front : Window AppState) :
    (focusOnly (rest ++ [front]) rest.length)[rest.length]? = some { front with focused := true } := by
  rw [getElem?_focusOnly, getElem?_concat_length, map_some, beq_self_eq_true]

theorem length_front (rest : List (Window AppState)) (front : Window AppState) :
    (focusOnly (rest ++ [front]) rest.length).length - 1 = rest.length := by
  rw [length_focusOnly, length_append, length_singleton, Nat.add_sub_cancel]

theorem clickFront_sound {winId : UInt32} {rest : List (Window AppState)} {front : Window AppState}
    (isRaised : wm.windows = focusOnly (rest ++ [front]) rest.length)
    (present : ∃ idx, (rest ++ [front]).findIdx? (·.id = winId) = some idx) :
    FocusSound (wm.clickFront apps world winId { front with focused := true } mx my).2.windows ↔
      FrontKeeps (rest ++ [front]) winId front mx my := by
  have isLast : wm.windows[wm.windows.length - 1]? = some { front with focused := true } := by
    rw [isRaised, length_front, getElem?_front]
  have buttons : ({ front with focused := true } : Window AppState).hitTestButtons mx my =
      front.hitTestButtons mx my := rfl
  have raisedSound : FocusSound wm.windows ↔ front.minimized = false := by
    rw [isRaised, focusSound_focusOnly, getElem?_concat_length, shown_some]
  have kept : front.hitTestButtons mx my ≠ some .close →
      front.hitTestButtons mx my ≠ some .minimize →
      (FocusSound (wm.clickFront apps world winId { front with focused := true } mx my).2.windows ↔
        front.minimized = false) := by
    intro notClose notMinimize
    rw [focusSound_congr (flags_of_tags (clickFront_tags isLast notClose notMinimize))]
    exact raisedSound
  unfold FrontKeeps
  cases button : front.hitTestButtons mx my with
  | none => exact kept (by rw [button]; decide) (by rw [button]; decide)
  | some which =>
    cases which with
    | maximize => exact kept (by rw [button]; decide) (by rw [button]; decide)
    | minimize =>
      rw [clickFront, buttons, button, isRaised, length_front]
      refine iff_of_true (minimizeAt_sound fun i win found differ => ?_) trivial
      rw [getElem?_focusOnly] at found
      obtain ⟨before, -, rfl⟩ := map_eq_some_iff.mp found
      exact beq_false_of_ne differ
    | close =>
      obtain ⟨idx, found⟩ := present
      have position : wm.position winId = some idx := by
        rw [WindowManager.position, isRaised, findIdx?_focusOnly, found]
      rw [clickFront, buttons, button]
      rw [closeWindow_sound_of_found position, isRaised, shown_heir_focusOnly, found]
      simp

theorem handleClick_of_hit {target front : Window AppState}
    {rest : List (Window AppState)} (isHit : hit wm.windows mx my = some target)
    (raised : (wm.bringToFront target.id).windows = focusOnly (rest ++ [front]) rest.length) :
    (wm.handleClick apps world mx my).2 =
      ((wm.bringToFront target.id).clickFront apps world target.id
        { front with focused := true } mx my).2 := by
  have isLast : (wm.bringToFront target.id).windows.getLast? =
      some { front with focused := true } := by
    rw [getLast?_eq_getElem?, raised, length_front, getElem?_front]
  rw [handleClick, isHit]
  dsimp only
  rw [isLast]

theorem handleClick_sound (apps : Apps AppState World) (world : World) (mx my : UInt32)
    (sound : FocusSound wm.windows) :
    FocusSound (wm.handleClick apps world mx my).2.windows ↔ ClickKeeps wm.windows mx my := by
  unfold ClickKeeps
  cases isHit : hit wm.windows mx my with
  | none =>
    rw [handleClick, isHit]
    exact iff_of_true sound fun _ absent => absurd absent (not_mem_none _)
  | some target =>
    have member : target ∈ wm.windows :=
      mem_reverse.mp (mem_of_find?_eq_some isHit)
    obtain ⟨rest, front, isRaise, sameId, raised⟩ := exists_raise member
    have present : ∃ idx, (rest ++ [front]).findIdx? (·.id = target.id) = some idx := by
      rw [← isSome_iff_exists, findIdx?_isSome, List.any_eq_true]
      exact ⟨front, mem_concat_self, decide_eq_true sameId⟩
    rw [handleClick_of_hit isHit raised, clickFront_sound raised present]
    constructor
    · rintro keeps _ ⟨⟩ top isTop
      rw [isRaise, getLast?_concat] at isTop
      cases isTop
      rw [isRaise]
      exact keeps
    · intro all
      have keeps := all target rfl
      rw [isRaise, getLast?_concat] at keeps
      exact keeps front rfl

/-! ### Requests to close -/

theorem unrequested_focusOnly (unrequested : Unrequested windows) (idx : Nat) :
    Unrequested (focusOnly windows idx) :=
  unrequested_of_names (names_focusOnly windows idx) unrequested

variable (windows)

theorem names_focusFirstShown : names (focusFirstShown windows) = names windows := by
  induction windows with
  | nil => rfl
  | cons win rest ih =>
    rw [focusFirstShown]
    split
    · exact congrArg (cons _) ih
    · rfl

theorem names_minimizeAt (idx : Nat) : names (minimizeAt windows idx) = names windows := by
  have shown := names_focusFirstShown (windows.modify idx fun win =>
    { win with minimized := true, focused := false }).reverse
  unfold minimizeAt names at *
  rw [map_reverse, shown, map_reverse, reverse_reverse]
  refine map_modify fun _ _ => ?_
  dsimp only

variable {windows}

theorem names_removeAt (wm : WindowManager AppState) (idx : Nat) :
    names (wm.removeAt idx).windows = names (wm.windows.eraseIdx idx) := by
  unfold removeAt
  dsimp only
  split
  · rfl
  · exact names_focusOnly _ _

theorem names_bringToFront (wm : WindowManager AppState) (id : UInt32) :
    (names (wm.bringToFront id).windows).Perm (names wm.windows) := by
  cases found : wm.position id with
  | none => rw [bringToFront, found]
  | some idx =>
    have inside := position_lt found
    rw [bringToFront_windows found, names_focusOnly, raise_eq found (getElem?_eq_getElem inside)]
    exact (perm_append_singleton .. |>.trans
      (getElem_cons_eraseIdx_perm inside)).map _

theorem clickFront_names {winId : UInt32} (isLast : wm.windows[wm.windows.length - 1]? = some win)
    (notClose : win.hitTestButtons mx my ≠ some .close) :
    names (wm.clickFront apps world winId win mx my).2.windows = names wm.windows := by
  by_cases minimizes : win.hitTestButtons mx my = some .minimize
  · rw [clickFront, minimizes]
    exact names_minimizeAt _ _
  · exact names_of_tags (clickFront_tags isLast notClose minimizes)

theorem unrequested_restore (unrequested : Unrequested windows) (idx : Nat) :
    Unrequested (focusOnly (windows.modify idx ({ · with minimized := false })) idx) := by
  refine unrequested_focusOnly (unrequested_of_names (map_modify fun _ _ => ?_) unrequested) idx
  dsimp only

section

variable (unrequested : Unrequested wm.windows)
include unrequested

theorem unrequested_removeAt (idx : Nat) : Unrequested (wm.removeAt idx).windows := by
  refine unrequested_of_subset ?_ unrequested
  rw [names_removeAt]
  exact map_subset _ (eraseIdx_subset ..)

theorem unrequested_closeWindow (id : UInt32) : Unrequested (wm.closeWindow id).windows := by
  rw [closeWindow_windows]
  cases wm.position id with
  | none => exact unrequested
  | some idx => exact unrequested_removeAt unrequested idx

/-- A click closes the window in front, or it moves no window in or out. -/
theorem unrequested_handleClick (apps : Apps AppState World) (world : World) (mx my : UInt32) :
    Unrequested (wm.handleClick apps world mx my).2.windows := by
  cases isHit : hit wm.windows mx my with
  | none =>
    rw [handleClick, isHit]
    exact unrequested
  | some target =>
    obtain ⟨rest, front, -, -, raised⟩ :=
      exists_raise (mem_reverse.mp (mem_of_find?_eq_some isHit))
    have kept := unrequested_of_subset (names_bringToFront wm target.id).subset unrequested
    have isFront : (wm.bringToFront target.id).windows[
        (wm.bringToFront target.id).windows.length - 1]? = some { front with focused := true } := by
      rw [raised, length_front, getElem?_front]
    rw [handleClick_of_hit isHit raised]
    by_cases closes : ({ front with focused := true } : Window AppState).hitTestButtons mx my =
        some .close
    · rw [clickFront, closes]
      exact unrequested_closeWindow kept target.id
    · exact unrequested_of_names (clickFront_names isFront closes) kept

theorem unrequested_closeFocused : Unrequested wm.closeFocused.windows := by
  unfold closeFocused
  cases wm.focusedIndex with
  | none => exact unrequested
  | some idx => exact unrequested_removeAt unrequested idx

theorem unrequested_cycleFocus : Unrequested wm.cycleFocus.windows := by
  unfold cycleFocus
  split
  · exact unrequested
  · cases wm.focusedIndex with
    | none => exact unrequested
    | some idx => exact unrequested_focusOnly unrequested _

theorem unrequested_handleInput (apps : Apps AppState World) (world : World) (event : KeyEvent) :
    Unrequested (wm.handleInput apps world event).2.windows := by
  unfold handleInput
  split
  · exact unrequested_closeFocused unrequested
  split
  · exact unrequested_cycleFocus unrequested
  cases wm.windows.zipIdx.find? (·.1.focused) with
  | none => exact unrequested
  | some pair =>
    have after : Unrequested (wm.windows.modify pair.2
        ({ · with appState := (apps.input world pair.1.appState event).1 })) := by
      refine unrequested_of_names (map_modify fun _ _ => ?_) unrequested
      dsimp only
    dsimp only
    split
    · refine unrequested_closeWindow ?_ _
      exact after
    · exact after

theorem unrequested_openApp (apps : Apps AppState World) (world : World) (appId : AppId) :
    Unrequested (wm.openApp apps world appId).windows := by
  unfold openApp
  split
  · exact unrequested
  · rw [focusLast_windows]
    refine unrequested_focusOnly (forall_mem_append.mpr ⟨unrequested, ?_⟩) _
    exact forall_mem_singleton.mpr rfl

theorem unrequested_focusWindowById (id : UInt32) :
    Unrequested (wm.focusWindowById id).windows := by
  unfold focusWindowById
  cases wm.position id with
  | none => exact unrequested
  | some idx => exact unrequested_restore unrequested idx

theorem unrequested_toggleMinimizeById (id : UInt32) :
    Unrequested (wm.toggleMinimizeById id).windows := by
  unfold toggleMinimizeById
  cases wm.windows.zipIdx.find? (·.1.id = id) with
  | none => exact unrequested
  | some pair =>
    dsimp only
    split
    · exact unrequested_restore unrequested _
    · split
      · exact unrequested_of_names (names_minimizeAt ..) unrequested
      · exact unrequested_focusOnly unrequested _

theorem unrequested_unfocusAll : Unrequested wm.unfocusAll.windows := by
  intro win member
  obtain ⟨before, isBefore, rfl⟩ := List.mem_map.mp member
  exact unrequested before isBefore

end

end WindowManager

/-! ## Sessions -/

inductive WmCall (World : Type) where
  | openApp (world : World) (appId : AppId)
  | closeFocused
  | closeWindow (id : UInt32)
  | bringToFront (id : UInt32)
  | cycleFocus
  | handleInput (world : World) (event : KeyEvent)
  | focusWindowById (id : UInt32)
  | toggleMinimizeById (id : UInt32)
  | unfocusAll
  | handleClick (world : World) (mx my : UInt32)
  | handleMouseMove (mx my : UInt32)
  | handleMouseUp

namespace WmCall

def apply (apps : Apps AppState World) (wm : WindowManager AppState) :
    WmCall World → WindowManager AppState
  | .openApp world appId => wm.openApp apps world appId
  | .closeFocused => wm.closeFocused
  | .closeWindow id => wm.closeWindow id
  | .bringToFront id => wm.bringToFront id
  | .cycleFocus => wm.cycleFocus
  | .handleInput world event => (wm.handleInput apps world event).2
  | .focusWindowById id => wm.focusWindowById id
  | .toggleMinimizeById id => wm.toggleMinimizeById id
  | .unfocusAll => wm.unfocusAll
  | .handleClick world mx my => (wm.handleClick apps world mx my).2
  | .handleMouseMove mx my => (wm.handleMouseMove mx my).2
  | .handleMouseUp => wm.handleMouseUp

def step (apps : Apps AppState World) (wm : WindowManager AppState) (call : WmCall World) :
    Option (WindowManager AppState) := some (call.apply apps wm)

/-- The window that the call passes the focus to is a shown one. -/
def PassesToShown (wm : WindowManager AppState) : WmCall World → Prop
  | .closeFocused => ∀ idx, wm.focusedIndex = some idx → Shown (heir wm.windows idx)
  | .closeWindow id => ∀ idx, wm.position id = some idx → Shown (heir wm.windows idx)
  | .bringToFront id => Shown (wm.windows.find? (·.id = id))
  | .cycleFocus => ∀ idx, wm.focusedIndex = some idx →
      Shown wm.windows[(idx + 1) % wm.windows.length]?
  | .handleInput _ event =>
    ((event.key = .f4 ∨ event.key = .escape) →
      ∀ idx, wm.focusedIndex = some idx → Shown (heir wm.windows idx)) ∧
    (event.key = .f2 → ∀ idx, wm.focusedIndex = some idx →
      Shown wm.windows[(idx + 1) % wm.windows.length]?)
  | .handleClick _ mx my => WindowManager.ClickKeeps wm.windows mx my
  | _ => True

variable {apps : Apps AppState World} {wm : WindowManager AppState}

theorem apply_sound (call : WmCall World) (unrequested : Unrequested wm.windows)
    (sound : FocusSound wm.windows) :
    FocusSound (call.apply apps wm).windows ↔ call.PassesToShown wm := by
  cases call with
  | openApp world appId => exact iff_of_true (openApp_sound apps world appId sound) trivial
  | closeFocused => exact closeFocused_sound sound
  | closeWindow id => exact closeWindow_sound sound id
  | bringToFront id => exact bringToFront_sound sound id
  | cycleFocus => exact cycleFocus_sound sound
  | handleInput world event =>
    exact handleInput_sound apps world event unrequested sound
  | focusWindowById id => exact iff_of_true (focusWindowById_sound sound id) trivial
  | toggleMinimizeById id =>
    exact iff_of_true (toggleMinimizeById_sound sound id) trivial
  | unfocusAll => exact iff_of_true wm.unfocusAll_sound trivial
  | handleClick world mx my => exact handleClick_sound apps world mx my sound
  | handleMouseMove mx my =>
    exact iff_of_true ((focusSound_congr
      (flags_of_tags (handleMouseMove_tags mx my))).mpr sound) trivial
  | handleMouseUp => exact iff_of_true sound trivial

theorem apply_unrequested (call : WmCall World) (unrequested : Unrequested wm.windows) :
    Unrequested (call.apply apps wm).windows := by
  cases call with
  | openApp world appId => exact unrequested_openApp unrequested apps world appId
  | closeFocused => exact unrequested_closeFocused unrequested
  | closeWindow id => exact unrequested_closeWindow unrequested id
  | bringToFront id =>
    exact unrequested_of_subset (names_bringToFront wm id).subset unrequested
  | cycleFocus => exact unrequested_cycleFocus unrequested
  | handleInput world event =>
    exact unrequested_handleInput unrequested apps world event
  | focusWindowById id => exact unrequested_focusWindowById unrequested id
  | toggleMinimizeById id => exact unrequested_toggleMinimizeById unrequested id
  | unfocusAll => exact unrequested_unfocusAll unrequested
  | handleClick world mx my =>
    exact unrequested_handleClick unrequested apps world mx my
  | handleMouseMove mx my =>
    exact unrequested_of_names (names_of_tags (handleMouseMove_tags mx my)) unrequested
  | handleMouseUp => exact unrequested

/-- Along every session from the empty desktop, at most one window is focused and the
focused window is shown, exactly when each call that passes the focus on passes it to a
shown window. -/
theorem focus_sound_iff_passes_to_shown (apps : Apps AppState World) (screenW screenH : UInt32)
    (calls : List (WmCall World)) :
    Transition.Throughout (step apps) (fun wm => FocusSound wm.windows)
        (.new screenW screenH) calls ↔
      Transition.Meets (step apps) (fun wm call => call.PassesToShown wm)
        (.new screenW screenH) calls := by
  refine @Transition.throughout_iff_meets _ _ (step apps) _ (fun wm => Unrequested wm.windows) _
    _ _ ?_ ?_ (forall_mem_nil _) focusSound_nil
  · rintro wm call next unrequested ⟨⟩
    exact apply_unrequested call unrequested
  · intro wm call unrequested sound
    have kept : FocusSound (call.apply apps wm).windows ↔ call.PassesToShown wm :=
      apply_sound call unrequested sound
    rw [← kept]
    exact ⟨fun holds next same => Option.some.inj same ▸ holds, fun all => all _ rfl⟩

def idleApps : Apps Unit Unit where
  init _ _ := ()
  input _ state _ := (state, .continue)
  click _ state _ _ := (state, .continue)

/-- Two windows are opened, the taskbar minimizes the focused one, and cycling gives it
the focus. -/
theorem cycle_focuses_minimized :
    ¬ Transition.Throughout (step idleApps) (fun wm => FocusSound wm.windows) (.new 800 600)
      [.openApp () .clock, .openApp () .about, .toggleMinimizeById 2, .cycleFocus] := by
  intro all
  have sound := all.last rfl
  exact absurd sound.shown (by decide +kernel)

end WmCall

end CantayaOS.Desktop
