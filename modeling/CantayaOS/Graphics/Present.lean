import CantayaOS.Lib.Transition
import CantayaOS.Graphics.Console
import CantayaOS.Graphics.Sync

/-!
# What the screen shows

Drawing and console output keep the hardware in sync with the back buffer
outside the dirty rectangle, with one exception: scrolling moves the rows of
the back buffer without marking them, so that only the last text row is
presented.
-/

namespace CantayaOS.Graphics

open Lib Framebuffer List Option Raster Screen

variable {x y w h : UInt32} {buf : List UInt32}

namespace Framebuffer

variable {fb : Framebuffer} {px py : Nat} {pending : Nat → Nat → Prop} {color : Color}

instance (fb : Framebuffer) (x y : Nat) : Decidable (fb.Dirty x y) :=
  inferInstanceAs (Decidable (_ ∧ _))

/-- Marking for the last text row, as scrolling does. -/
def markLastRow (fb : Framebuffer) (console : Console) : Framebuffer :=
  fb.markDirtyRect 0 ((console.rows - 1).toUInt32 * charHeight) fb.width charHeight

/--
The screen has a text row, and scrolling moves no visible pixel outside the
rectangle that is presented to one of another color.
-/
def Settled (fb : Framebuffer) (console : Console) : Prop :=
  16 ≤ fb.height.toNat ∧
    ∀ py < fb.height.toNat - 16, ∀ px < fb.width.toNat,
      (fb.markLastRow console).Dirty px py ∨
        fb.backBuffer (Raster.index fb.stride.toNat px (py + 16)) =
          fb.backBuffer (Raster.index fb.stride.toNat px py)

instance (fb : Framebuffer) (console : Console) : Decidable (fb.Settled console) :=
  inferInstanceAs (Decidable (_ ∧ _))

/-- The rows of the back buffer that copying up leaves behind. -/
theorem copyUp_index (narrow : fb.width.toNat ≤ fb.stride.toNat) (tall : 16 ≤ fb.height.toNat)
    (visible : fb.Visible px py) (pixels : Pixels) :
    (span 0 (fb.height - charHeight)).foldl (fun pixels y =>
        paint (y.toNat * fb.stride.toNat) fb.width.toNat
          (fun i => pixels ((y + charHeight).toNat * fb.stride.toNat + i)) pixels) pixels
        (fb.cell px py) =
      if py < fb.height.toNat - 16 then pixels (fb.cell px (py + 16))
      else pixels (fb.cell px py) := by
  have char : charHeight.toNat = 16 := rfl
  have count : (fb.height - charHeight).toNat = fb.height.toNat - 16 :=
    UInt32.toNat_sub_of_le _ _ (UInt32.le_iff_toNat_le.mpr tall)
  rw [← Raster.moveUp_index visible.1 narrow]
  unfold span Raster.moveUp
  rw [count, UInt32.toNat_zero, ← range_eq_range', foldl_map]
  refine congrFun (foldl_ext _ _ _ fun pixels row member => ?_) _
  have bound := fb.height.toNat_lt
  rw [mem_range] at member
  rw [UInt32.toNat_add, UInt32.toNat_ofNat', char, Nat.mod_eq_of_lt (by omega),
    Nat.mod_eq_of_lt (by omega)]

theorem draw_mark_dirty {change : Pixels → Pixels}
    (dirty : (fb.markDirtyRect x y w h).Dirty px py) :
    ((fb.draw change).markDirtyRect x y w h).Dirty px py := by
  unfold draw
  split
  · unfold markDirtyRect at dirty ⊢
    dsimp only at dirty ⊢
    split_ifs at dirty ⊢ <;> exact dirty
  · unfold markDirtyRect at dirty ⊢
    dsimp only at dirty ⊢
    split_ifs at dirty ⊢ <;> exact dirty

theorem fillRect_dirty (ready : fb.initialized = true)
    (dirty : (fb.markDirtyRect x y w h).Dirty px py) : (fb.fillRect x y w h color).Dirty px py := by
  unfold fillRect
  rw [if_neg (by rw [ready]; nofun)]
  dsimp only
  split_ifs with skipped
  · have unmarked : fb.markDirtyRect x y w h = fb := by
      unfold markDirtyRect
      by_cases empty : w = 0 ∨ h = 0
      · rw [if_pos empty]
      · rw [if_neg empty]
        refine if_pos (skipped.imp_left fun narrow => ?_)
        rw [ge_iff_le, UInt32.le_iff_toNat_le]
        omega
    rwa [unmarked] at dirty
  · exact draw_mark_dirty dirty

theorem SyncedExcept.scrollUp (synced : fb.Synced) {console : Console} (settled : fb.Settled console) :
    (fb.scrollUp console).Synced := by
  obtain ⟨tall, still⟩ := settled
  have copied : fb.copyUp.SyncedExcept fun px py =>
      (py < fb.height.toNat - 16 ∧ px < fb.width.toNat ∧
        fb.backBuffer (fb.cell px (py + 16)) ≠ fb.backBuffer (fb.cell px py)) ∨ False := by
    unfold copyUp
    refine synced.draw fun _ px py visible same => ?_
    refine (copyUp_index synced.fits.width_le tall visible _).trans ?_
    split_ifs with moved
    · exact not_not.mp fun differ => same ⟨moved, visible.1, differ⟩
    · rfl
  have filled : (fb.copyUp.fillRect 0 ((console.rows - 1).toUInt32 * charHeight) fb.width charHeight
      console.bgColor).SyncedExcept _ := copied.fillRect
  refine SyncedExcept.present ⟨filled.fits, fun double px py visible clean _ => ?_⟩
  refine filled.shown double px py visible clean ?_
  rintro (⟨moved, inWidth, differ⟩ | impossible)
  · refine clean (fillRect_dirty copied.fits.ready (draw_mark_dirty ?_))
    exact (still py moved px inWidth).resolve_right differ
  · exact impossible

theorem SyncedExcept.drawChar (synced : fb.SyncedExcept pending) (font : Font) (col row : UInt64)
    (c : Char) (fg bg : Color) : (fb.drawChar font col row c fg bg).SyncedExcept pending := by
  refine List.foldlRecOn (motive := fun fb : Framebuffer => fb.SyncedExcept pending) _ _ synced
    fun fb synced rowBits _ => ?_
  exact List.foldlRecOn (motive := fun fb : Framebuffer => fb.SyncedExcept pending) _ _ synced
    fun fb synced dx _ => synced.putPixel

end Framebuffer

/-! ## Sessions -/

inductive ScreenCall where
  | putPixel (x y : UInt32) (color : Color)
  | fillRect (x y width height : UInt32) (color : Color)
  | clear (color : Color)
  | blitBuffer (x y w h : UInt32) (source : Pixels)
  | restoreRegion (x y w h : UInt32) (buf : List UInt32)
  | present
  | print (text : List Char)
  | println (text : List Char)
  | backspace
  | clearConsole
  | setColor (r g b : UInt8)
  | setBgColor (r g b : UInt8)
  | drawCursor (visible : Bool)
  | drawStatusBar (text : List Char)

namespace ScreenCall

/-- The screen after the call; `none` when it reads a buffer out of bounds. -/
def step (font : Font) (screen : Screen) : ScreenCall → Option Screen
  | putPixel x y color => some { screen with fb := screen.fb.putPixel x y color }
  | fillRect x y width height color =>
    some { screen with fb := screen.fb.fillRect x y width height color }
  | clear color => some { screen with fb := screen.fb.clear color }
  | blitBuffer x y w h source => some { screen with fb := screen.fb.blitBuffer x y w h source }
  | restoreRegion x y w h buf =>
    (screen.fb.restoreRegion x y w h buf).map fun fb => { screen with fb := fb }
  | present => some { screen with fb := screen.fb.present }
  | print text => some (screen.print font text)
  | println text => some (screen.println font text)
  | backspace => some (screen.backspace font)
  | clearConsole => some screen.clear
  | setColor r g b => some (screen.setColor r g b)
  | setBgColor r g b => some (screen.setBgColor r g b)
  | drawCursor visible => some (screen.drawCursor visible)
  | drawStatusBar text => some (screen.drawStatusBar font text)

/-- If a character scrolls the console, it does so over a settled screen. -/
def ScrollsSettled (font : Font) (screen : Screen) (c : Char) : Prop :=
  screen.console.initialized = true →
    (screen.drawn font c).console.row ≥ (screen.drawn font c).console.rows →
      (screen.drawn font c).fb.Settled (screen.drawn font c).console

instance (font : Font) (screen : Screen) (c : Char) : Decidable (ScrollsSettled font screen c) :=
  inferInstanceAs (Decidable (_ → _))

/-- The condition on one call: no rectangle wraps, and the console scrolls settled screens only. -/
def Careful (font : Font) (screen : Screen) : ScreenCall → Prop
  | blitBuffer x y w h _ => screen.fb.Unwrapped x y w h
  | restoreRegion x y w h _ => screen.fb.Unwrapped x y w h
  | print text => Transition.Meets (fun screen c => some (Screen.writeChar font screen c))
      (ScrollsSettled font) screen text
  | println text => Transition.Meets (fun screen c => some (Screen.writeChar font screen c))
      (ScrollsSettled font) screen (text ++ ['\n'])
  | _ => True

instance (font : Font) (screen : Screen) (call : ScreenCall) :
    Decidable (call.Careful font screen) :=
  match call with
  | blitBuffer x y w h _ => inferInstanceAs (Decidable (screen.fb.Unwrapped x y w h))
  | restoreRegion x y w h _ => inferInstanceAs (Decidable (screen.fb.Unwrapped x y w h))
  | print text => inferInstanceAs (Decidable (Transition.Meets
      (fun screen c => some (Screen.writeChar font screen c)) (ScrollsSettled font) screen text))
  | println text => inferInstanceAs (Decidable (Transition.Meets
      (fun screen c => some (Screen.writeChar font screen c)) (ScrollsSettled font) screen
        (text ++ ['\n'])))
  | putPixel _ _ _ | fillRect _ _ _ _ _ | clear _ | present | backspace | clearConsole
  | setColor _ _ _ | setBgColor _ _ _ | drawCursor _ | drawStatusBar _ => isTrue trivial

end ScreenCall

/-- The buffer of a restored region holds all its pixels. -/
def ScreenCall.HoldsRegion : ScreenCall → Prop
  | restoreRegion _ _ w h buf => w.toNat * h.toNat ≤ buf.length
  | _ => True

def Screen.init (mode : FramebufferMode) (hardware : Pixels) (allocated : Option Pixels) : Screen :=
  let fb := Framebuffer.init mode hardware allocated
  ⟨fb, Console.init fb⟩

variable {fb : Framebuffer}

namespace Screen

variable {font : Font} {screen : Screen}

section

variable (synced : screen.fb.Synced)
include synced

theorem drawn_synced (c : Char) : (screen.drawn font c).fb.Synced := by
  unfold drawn
  split
  · exact synced
  · exact synced.drawChar font _ _ _ _ _

theorem writeChar_synced {c : Char} (settled : ScreenCall.ScrollsSettled font screen c) :
    (screen.writeChar font c).fb.Synced := by
  unfold writeChar
  dsimp only
  split_ifs with off scrolls
  · exact synced
  · exact (drawn_synced synced c).scrollUp (settled (Bool.eq_true_of_not_eq_false off) scrolls)
  · exact drawn_synced synced c

theorem writeChars_synced {text : List Char}
    (settled : Transition.Meets (fun screen c => some (writeChar font screen c))
      (ScreenCall.ScrollsSettled font) screen text) : (screen.writeChars font text).fb.Synced := by
  induction text generalizing screen with
  | nil => exact synced
  | cons c rest ih => exact ih (writeChar_synced synced settled.1) (settled.2 _ rfl)

/-- The step of a session. -/
theorem step_synced {call : ScreenCall} {next : Screen} (careful : call.Careful font screen)
    (stepped : call.step font screen = some next) : next.fb.Synced := by
  cases call with
  | putPixel x y color =>
    cases stepped
    exact synced.putPixel
  | fillRect x y width height color =>
    cases stepped
    exact synced.fillRect
  | clear color =>
    cases stepped
    exact synced.fits.clear
  | blitBuffer x y w h source =>
    cases stepped
    exact synced.blitBuffer careful
  | restoreRegion x y w h buf =>
    obtain ⟨fb, restored, rfl⟩ := map_eq_some_iff.mp stepped
    exact synced.restoreRegion careful restored
  | present =>
    cases stepped
    exact synced.present
  | print text =>
    cases stepped
    exact (writeChars_synced synced careful).present
  | println text =>
    cases stepped
    exact (writeChars_synced synced careful).present
  | backspace =>
    cases stepped
    unfold backspace
    split_ifs
    · exact synced
    · exact (synced.drawChar font _ _ _ _ _).present
    · exact synced
  | clearConsole =>
    cases stepped
    exact synced.fits.clear.present
  | setColor r g b =>
    cases stepped
    exact synced
  | setBgColor r g b =>
    cases stepped
    exact synced
  | drawCursor visible =>
    cases stepped
    unfold drawCursor
    dsimp only
    split_ifs
    · exact synced
    · exact synced
    · exact synced.fillRect.present
    · exact synced.fillRect.present
  | drawStatusBar text =>
    cases stepped
    unfold drawStatusBar
    split_ifs
    · exact synced
    all_goals
      exact (List.foldlRecOn (motive := fun fb : Framebuffer => fb.SyncedExcept fun _ _ => False) _ _
        synced.fillRect fun fb synced _ _ => synced.drawChar font _ _ _ _ _).present

end

/-! ## Runs -/

theorem restoreRow_isSome {row line : UInt32} {cols : List UInt32}
    (within : ∀ col ∈ cols, (row * w + col).toNat < buf.length) (pixels : Pixels) :
    (fb.restoreRow x w row line buf cols pixels).isSome = true := by
  induction cols generalizing pixels with
  | nil => rfl
  | cons col rest ih =>
    rw [restoreRow]
    split_ifs
    · rfl
    · rw [getElem?_eq_getElem (within col (.head _))]
      exact ih (fun later member => within later (mem_cons_of_mem _ member)) _

theorem restoreRows_isSome {rows : List UInt32}
    (within : ∀ row ∈ rows, ∀ col ∈ span 0 w, (row * w + col).toNat < buf.length)
    (pixels : Pixels) : (fb.restoreRows x y w buf rows pixels).isSome = true := by
  induction rows generalizing pixels with
  | nil => rfl
  | cons row rest ih =>
    rw [restoreRows]
    split_ifs
    · rfl
    · obtain ⟨middle, done⟩ := isSome_iff_exists.mp
        (restoreRow_isSome (within row (.head _)) pixels)
      rw [done]
      exact ih (fun later member => within later (mem_cons_of_mem _ member)) middle

/-- A buffer that holds the region is never read out of bounds. -/
theorem restoreRegion_isSome
    (holds : w.toNat * h.toNat ≤ buf.length) : (fb.restoreRegion x y w h buf).isSome = true := by
  have within : ∀ row ∈ span 0 h, ∀ col ∈ span 0 w, (row * w + col).toNat < buf.length := by
    intro row inHeight col inWidth
    obtain ⟨_, below⟩ := mem_span.mp inHeight
    obtain ⟨_, beside⟩ := mem_span.mp inWidth
    have cell := index_lt beside below
    rw [mul_comm] at holds
    refine lt_of_le_of_lt ?_ (cell.trans_le holds)
    rw [UInt32.toNat_add, UInt32.toNat_mul, Nat.mod_add_mod]
    exact Nat.mod_le _ _
  unfold restoreRegion
  by_cases skipped : fb.initialized = false
  · rw [if_pos skipped]
    rfl
  · rw [if_neg skipped, isSome_map]
    exact restoreRows_isSome within _

/--
Every visible pixel of the hardware equals the back buffer after a final
`present`, and the calls complete when every restored region is in its buffer.
-/
theorem presented_along_runs {mode : FramebufferMode} (addressable : mode.Addressable)
    (hardware : Pixels) (allocated : Option Pixels) (calls : List ScreenCall)
    (careful : Transition.Meets (ScreenCall.step font) (ScreenCall.Careful font)
      (.init mode hardware allocated) calls) :
    (∀ last, Transition.run (ScreenCall.step font) (.init mode hardware allocated) calls =
        some last → last.fb.present.Presented) ∧
      ((∀ call ∈ calls, call.HoldsRegion) →
        (Transition.run (ScreenCall.step font) (.init mode hardware allocated) calls).isSome =
          true) := by
  constructor
  · intro last reached
    have initial : (Screen.init mode hardware allocated).fb.Synced :=
      init_synced addressable hardware allocated
    have preserved : ∀ (screen : Screen) (call : ScreenCall) (next : Screen), screen.fb.Synced →
        call.Careful font screen → call.step font screen = some next → next.fb.Synced :=
      fun _ _ _ synced careful => step_synced synced careful
    exact (Transition.run_preserves preserved initial careful reached).presented
  · intro holds
    have progress : ∀ (screen : Screen) (call : ScreenCall), True → call.HoldsRegion →
        ∃ next, call.step font screen = some next ∧ True := by
      intro screen call _ holds
      cases call with
      | restoreRegion x y w h buf =>
        obtain ⟨fb, done⟩ := isSome_iff_exists.mp (restoreRegion_isSome holds)
        exact ⟨_, map_eq_some_iff.mpr ⟨fb, done, rfl⟩, trivial⟩
      | _ => exact ⟨_, rfl, trivial⟩
    obtain ⟨last, reached, _⟩ := Transition.run_total progress trivial
      (Transition.meets_of_forall (fun call member _ => holds call member)
        (Screen.init mode hardware allocated))
    rw [reached]
    rfl

def blockFont : Font := fun _ => Vector.replicate 16 0xFF

/-- A display of two by three character cells. -/
def smallMode : FramebufferMode := ⟨16, 48, 16, .bgr⟩

/-- All is drawn over, a region is restored, and the second new line scrolls the console. -/
def smallCalls : List ScreenCall :=
  [.fillRect 0 0 100 100 .white, .restoreRegion 14 0 4 1 [1, 2, 3, 4], .print ['a', '\n', '\n'],
    .blitBuffer 5 40 2 200 (fun _ => 7), .drawCursor true]

theorem presented_along_runs_small :
    ∃ last, Transition.run (ScreenCall.step blockFont)
        (.init smallMode (fun _ => 0) (some fun _ => 0)) smallCalls = some last ∧
      last.fb.present.Presented := by
  have careful : Transition.Meets (ScreenCall.step blockFont) (ScreenCall.Careful blockFont)
      (.init smallMode (fun _ => 0) (some fun _ => 0)) smallCalls := by decide +kernel
  obtain ⟨presented, completes⟩ :=
    presented_along_runs ⟨by decide, by decide⟩ (fun _ => 0) (some fun _ => 0) _ careful
  have holds : ∀ call ∈ smallCalls, call.HoldsRegion := by
    simp [smallCalls, ScreenCall.HoldsRegion]
  obtain ⟨last, reached⟩ := isSome_iff_exists.mp (completes holds)
  exact ⟨last, reached, presented last reached⟩

/-- A character is printed and presented, then two new lines scroll it away. -/
theorem scrolled_character_stays :
    ∃ last, Transition.run (ScreenCall.step blockFont)
        (.init smallMode (fun _ => 0) (some fun _ => 0)) [.print ['a'], .print ['\n', '\n']] =
          some last ∧ ¬ last.fb.present.Presented := by
  have seen : ∃ last ∈ Transition.run (ScreenCall.step blockFont)
      (.init smallMode (fun _ => 0) (some fun _ => 0)) [.print ['a'], .print ['\n', '\n']],
      last.fb.present.doubleBuffered = true ∧ last.fb.present.Visible 0 0 ∧
        ¬ last.fb.present.Shown 0 0 := by
    unfold Framebuffer.Visible Framebuffer.Shown
    decide +kernel
  obtain ⟨last, reached, double, visible, stale⟩ := seen
  exact ⟨last, reached, fun presented => stale (presented double 0 0 visible)⟩

end Screen

end CantayaOS.Graphics
