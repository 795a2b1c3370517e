import CantayaOS.Lib.RingBuffer

/-!
# The PS/2 keyboard driver

The translation of scancodes of set 1 into key events and the ring buffer the
events wait in (`hal/keyboard.rs`).  A history of the driver is the scancodes
the interrupt handler was given and the reads made in between.

A key is identified on the wire by its code and by whether a prefix byte stands
before it.  What the driver remembers of the modifier keys is compared with that
history: a key is held when its last move was a press.
-/

namespace CantayaOS.Hal

open Lib RingBuffer List

inductive KeyCode where
  | unknown
  | escape | f1 | f2 | f3 | f4 | f5 | f6 | f7 | f8 | f9 | f10 | f11 | f12
  | backquote | key1 | key2 | key3 | key4 | key5 | key6 | key7 | key8 | key9 | key0
  | minus | equals | backspace
  | tab | q | w | e | r | t | y | u | i | o | p | leftBracket | rightBracket | backslash
  | capsLock | a | s | d | f | g | h | j | k | l | semicolon | quote | enter
  | leftShift | z | x | c | v | b | n | m | comma | period | slash | rightShift
  | leftCtrl | leftAlt | space | rightAlt | rightCtrl
  | up | down | left | right
  | home | «end» | pageUp | pageDown | insert | delete
deriving DecidableEq, Repr

structure KeyEvent where
  ascii : UInt8
  key : KeyCode
  pressed : Bool
deriving DecidableEq, Repr

structure ModifierState where
  leftShift : Bool
  rightShift : Bool
  capsLock : Bool
  leftCtrl : Bool
  rightCtrl : Bool
  leftAlt : Bool
  rightAlt : Bool
deriving DecidableEq, Repr

namespace ModifierState

def new : ModifierState := ⟨false, false, false, false, false, false, false⟩

def shift (mods : ModifierState) : Bool := mods.leftShift || mods.rightShift

def ctrl (mods : ModifierState) : Bool := mods.leftCtrl || mods.rightCtrl

def update (mods : ModifierState) (key : KeyCode) (pressed : Bool) : ModifierState :=
  match key with
  | .leftShift => { mods with leftShift := pressed }
  | .rightShift => { mods with rightShift := pressed }
  | .leftCtrl => { mods with leftCtrl := pressed }
  | .rightCtrl => { mods with rightCtrl := pressed }
  | .leftAlt => { mods with leftAlt := pressed }
  | .rightAlt => { mods with rightAlt := pressed }
  | .capsLock => if pressed then { mods with capsLock := !mods.capsLock } else mods
  | _ => mods

end ModifierState

def keyBufferSize : Nat := 64

abbrev KeyBuffer := RingBuffer KeyEvent keyBufferSize

def KeyBuffer.new : KeyBuffer := RingBuffer.empty ⟨0, .unknown, false⟩ (by decide)

/-! ## Translation -/

def scancodeToKeycode (code : UInt8) : KeyCode :=
  match code.toNat with
  | 0x01 => .escape
  | 0x02 => .key1
  | 0x03 => .key2
  | 0x04 => .key3
  | 0x05 => .key4
  | 0x06 => .key5
  | 0x07 => .key6
  | 0x08 => .key7
  | 0x09 => .key8
  | 0x0A => .key9
  | 0x0B => .key0
  | 0x0C => .minus
  | 0x0D => .equals
  | 0x0E => .backspace
  | 0x0F => .tab
  | 0x10 => .q
  | 0x11 => .w
  | 0x12 => .e
  | 0x13 => .r
  | 0x14 => .t
  | 0x15 => .y
  | 0x16 => .u
  | 0x17 => .i
  | 0x18 => .o
  | 0x19 => .p
  | 0x1A => .leftBracket
  | 0x1B => .rightBracket
  | 0x1C => .enter
  | 0x1D => .leftCtrl
  | 0x1E => .a
  | 0x1F => .s
  | 0x20 => .d
  | 0x21 => .f
  | 0x22 => .g
  | 0x23 => .h
  | 0x24 => .j
  | 0x25 => .k
  | 0x26 => .l
  | 0x27 => .semicolon
  | 0x28 => .quote
  | 0x29 => .backquote
  | 0x2A => .leftShift
  | 0x2B => .backslash
  | 0x2C => .z
  | 0x2D => .x
  | 0x2E => .c
  | 0x2F => .v
  | 0x30 => .b
  | 0x31 => .n
  | 0x32 => .m
  | 0x33 => .comma
  | 0x34 => .period
  | 0x35 => .slash
  | 0x36 => .rightShift
  | 0x38 => .leftAlt
  | 0x39 => .space
  | 0x3A => .capsLock
  | 0x3B => .f1
  | 0x3C => .f2
  | 0x3D => .f3
  | 0x3E => .f4
  | 0x3F => .f5
  | 0x40 => .f6
  | 0x41 => .f7
  | 0x42 => .f8
  | 0x43 => .f9
  | 0x44 => .f10
  | 0x57 => .f11
  | 0x58 => .f12
  | _ => .unknown

/-- The keys whose scancode follows the prefix byte `0xE0`. -/
def extendedKeycode (code : UInt8) : KeyCode :=
  match code.toNat with
  | 0x48 => .up
  | 0x50 => .down
  | 0x4B => .left
  | 0x4D => .right
  | 0x47 => .home
  | 0x4F => .«end»
  | 0x49 => .pageUp
  | 0x51 => .pageDown
  | 0x52 => .insert
  | 0x53 => .delete
  | 0x1D => .rightCtrl
  | 0x38 => .rightAlt
  | _ => .unknown

def keycodeToAscii (key : KeyCode) (shift caps ctrl : Bool) : UInt8 :=
  if ctrl then
    match key with
    | .a => 0x01 | .b => 0x02 | .c => 0x03
    | .d => 0x04 | .e => 0x05 | .f => 0x06
    | .l => 0x0C
    | _ => 0
  else
    let upper := shift ^^ caps
    match key with
    | .a => if upper then 0x41 else 0x61
    | .b => if upper then 0x42 else 0x62
    | .c => if upper then 0x43 else 0x63
    | .d => if upper then 0x44 else 0x64
    | .e => if upper then 0x45 else 0x65
    | .f => if upper then 0x46 else 0x66
    | .g => if upper then 0x47 else 0x67
    | .h => if upper then 0x48 else 0x68
    | .i => if upper then 0x49 else 0x69
    | .j => if upper then 0x4A else 0x6A
    | .k => if upper then 0x4B else 0x6B
    | .l => if upper then 0x4C else 0x6C
    | .m => if upper then 0x4D else 0x6D
    | .n => if upper then 0x4E else 0x6E
    | .o => if upper then 0x4F else 0x6F
    | .p => if upper then 0x50 else 0x70
    | .q => if upper then 0x51 else 0x71
    | .r => if upper then 0x52 else 0x72
    | .s => if upper then 0x53 else 0x73
    | .t => if upper then 0x54 else 0x74
    | .u => if upper then 0x55 else 0x75
    | .v => if upper then 0x56 else 0x76
    | .w => if upper then 0x57 else 0x77
    | .x => if upper then 0x58 else 0x78
    | .y => if upper then 0x59 else 0x79
    | .z => if upper then 0x5A else 0x7A
    -- the digit row: ! @ # $ % ^ & * ( ) _ +
    | .key1 => if shift then 0x21 else 0x31
    | .key2 => if shift then 0x40 else 0x32
    | .key3 => if shift then 0x23 else 0x33
    | .key4 => if shift then 0x24 else 0x34
    | .key5 => if shift then 0x25 else 0x35
    | .key6 => if shift then 0x5E else 0x36
    | .key7 => if shift then 0x26 else 0x37
    | .key8 => if shift then 0x2A else 0x38
    | .key9 => if shift then 0x28 else 0x39
    | .key0 => if shift then 0x29 else 0x30
    | .minus => if shift then 0x5F else 0x2D
    | .equals => if shift then 0x2B else 0x3D
    | .leftBracket => if shift then 0x7B else 0x5B
    | .rightBracket => if shift then 0x7D else 0x5D
    | .backslash => if shift then 0x7C else 0x5C
    | .semicolon => if shift then 0x3A else 0x3B
    | .quote => if shift then 0x22 else 0x27
    | .backquote => if shift then 0x7E else 0x60
    | .comma => if shift then 0x3C else 0x2C
    | .period => if shift then 0x3E else 0x2E
    | .slash => if shift then 0x3F else 0x2F
    | .space => 0x20
    | .enter => 0x0A
    | .tab => 0x09
    | .backspace => 0x08
    | _ => 0

/-! ## The driver -/

structure Keyboard where
  modifiers : ModifierState
  keyBuffer : KeyBuffer
  extendedKey : Bool

namespace Keyboard

def new : Keyboard := ⟨.new, .new, false⟩

/-- The event that a scancode stands for, once the modifiers are up to date. -/
def eventOf (key : KeyCode) (pressed : Bool) (mods : ModifierState) : KeyEvent :=
  ⟨if pressed then keycodeToAscii key mods.shift mods.capsLock mods.ctrl else 0, key, pressed⟩

def keyOf (extended : Bool) (code : UInt8) : KeyCode :=
  if extended then extendedKeycode code else scancodeToKeycode code

def handleScancode (keyboard : Keyboard) (scancode : UInt8) : Keyboard :=
  if scancode = 0xE0 then { keyboard with extendedKey := true }
  else
    let pressed := scancode &&& 0x80 == 0
    let key := keyOf keyboard.extendedKey (scancode &&& 0x7F)
    let mods := keyboard.modifiers.update key pressed
    { modifiers := mods
      keyBuffer := keyboard.keyBuffer.push (eventOf key pressed mods)
      extendedKey := false }

def readKey (keyboard : Keyboard) : Option KeyEvent × Keyboard :=
  (keyboard.keyBuffer.pop.1, { keyboard with keyBuffer := keyboard.keyBuffer.pop.2 })

/-- The loop that skips releases; each round takes one event off the buffer. -/
def tryReadLoop : Nat → Keyboard → Option KeyEvent × Keyboard
  | 0, keyboard => (none, keyboard)
  | rounds + 1, keyboard =>
    match keyboard.readKey with
    | (none, after) => (none, after)
    | (some event, after) => if event.pressed then (some event, after) else tryReadLoop rounds after

/-- No more events can wait than the buffer has slots, which bounds the loop. -/
def tryReadChar (keyboard : Keyboard) : Option KeyEvent × Keyboard :=
  tryReadLoop keyBufferSize keyboard

def waiting (keyboard : Keyboard) : List KeyEvent := keyboard.keyBuffer.waiting

theorem readKey_eq (keyboard : Keyboard) :
    keyboard.readKey.1 = keyboard.waiting.head? ∧
      keyboard.readKey.2.waiting = keyboard.waiting.tail :=
  keyboard.keyBuffer.pop_eq

theorem tryReadLoop_eq (rounds : Nat) (keyboard : Keyboard)
    (enough : keyboard.waiting.length < rounds) :
    (tryReadLoop rounds keyboard).1 = keyboard.waiting.find? (·.pressed) := by
  induction rounds generalizing keyboard with
  | zero => exact absurd enough (Nat.not_lt_zero _)
  | succ rounds ih =>
    obtain ⟨taken, left⟩ := keyboard.readKey_eq
    unfold tryReadLoop
    generalize keyboard.readKey = read at taken left
    obtain ⟨event, after⟩ := read
    cases isWaiting : keyboard.waiting with
    | nil =>
      rw [isWaiting] at taken
      subst taken
      rfl
    | cons first others =>
      rw [isWaiting, head?_cons] at taken
      rw [isWaiting, tail_cons] at left
      subst taken
      dsimp only
      by_cases isPress : first.pressed = true
      · rw [if_pos isPress, find?_cons_of_pos isPress]
      have fewer : after.waiting.length < rounds := by
        rw [left]
        rw [isWaiting, length_cons] at enough
        omega
      rw [if_neg isPress, find?_cons_of_neg isPress, ih after fewer, left]

/-- A reader gets the oldest press that waits. -/
theorem tryReadChar_eq (keyboard : Keyboard) :
    keyboard.tryReadChar.1 = keyboard.waiting.find? (·.pressed) := by
  refine tryReadLoop_eq _ _ ?_
  rw [waiting, length_waiting]
  exact keyboard.keyBuffer.count_lt

end Keyboard

inductive KeyInput where
  | scancode (byte : UInt8)
  | readKey
deriving DecidableEq, Repr

namespace Keyboard

def step (keyboard : Keyboard) : KeyInput → Keyboard
  | .scancode byte => keyboard.handleScancode byte
  | .readKey => keyboard.readKey.2

def run (inputs : List KeyInput) : Keyboard := inputs.foldl step new

theorem run_concat (inputs : List KeyInput) (input : KeyInput) :
    run (inputs ++ [input]) = (run inputs).step input := by
  rw [run, foldl_concat]
  rfl

/-- What holds at first and is kept by every input holds after every history. -/
theorem run_invariant {holds : List KeyInput → Keyboard → Prop} (atFirst : holds [] new)
    (kept : ∀ inputs input keyboard, holds inputs keyboard →
      holds (inputs ++ [input]) (keyboard.step input)) (inputs : List KeyInput) :
    holds inputs (run inputs) := by
  induction inputs using List.reverseRecOn with
  | nil => exact atFirst
  | append_singleton inputs input ih =>
    rw [run_concat]
    exact kept inputs input _ ih

end Keyboard

/-- A move of a key: a code, whether the prefix byte stood before it, and whether
the key went down. -/
structure KeyMove where
  extended : Bool
  code : UInt8
  down : Bool
deriving DecidableEq, Repr

def scancodes (inputs : List KeyInput) : List UInt8 :=
  inputs.filterMap fun
    | .scancode byte => some byte
    | .readKey => none

/-- A prefix byte came last and waits for the code that it belongs to. -/
def prefixed (bytes : List UInt8) : Bool := bytes.getLast? == some 0xE0

/-- The moves that scancodes describe, from the last one back to the first. -/
def movesBack : List UInt8 → List KeyMove
  | [] => []
  | byte :: before =>
    if byte = 0xE0 then movesBack before
    else ⟨before.head? == some 0xE0, byte % 128, byte < 128⟩ :: movesBack before

/-- A key is held when its last move was a press. -/
def held (extended : Bool) (code : UInt8) (bytes : List UInt8) : Bool :=
  match (movesBack bytes.reverse).find? fun move => move.extended == extended && move.code == code
  with
  | some move => move.down
  | none => false

def ctrlHeld (bytes : List UInt8) : Bool := held false 0x1D bytes || held true 0x1D bytes

theorem held_concat (extended : Bool) (code byte : UInt8) (bytes : List UInt8) :
    held extended code (bytes ++ [byte]) =
      if byte ≠ 0xE0 ∧ prefixed bytes = extended ∧ byte % 128 = code then decide (byte < 128)
      else held extended code bytes := by
  have isPrefixed : (bytes.reverse.head? == some 0xE0) = prefixed bytes := by
    rw [head?_reverse, prefixed]
  unfold held
  rw [reverse_concat, movesBack]
  by_cases isMark : byte = 0xE0
  · rw [if_pos isMark, if_neg (fun more => more.1 isMark)]
  rw [if_neg isMark, isPrefixed]
  by_cases same : prefixed bytes = extended ∧ byte % 128 = code
  · rw [if_pos ⟨isMark, same⟩, find?_cons_of_pos]
    rw [same.1, same.2, beq_self_eq_true, beq_self_eq_true, Bool.and_self]
  · rw [if_neg (fun more => same more.2), find?_cons_of_neg]
    intro both
    rw [Bool.and_eq_true, beq_iff_eq, beq_iff_eq] at both
    exact same both

theorem forall_byte {P : UInt8 → Prop} (each : ∀ n < 256, P (UInt8.ofNat n)) (byte : UInt8) :
    P byte := by
  have this := each byte.toNat byte.toNat_lt
  rwa [UInt8.ofNat_toNat] at this

theorem pressed_iff : ∀ byte : UInt8, (byte &&& 0x80 == 0) = decide (byte < 128) :=
  forall_byte (by decide +kernel)

theorem code_eq : ∀ byte : UInt8, byte &&& 0x7F = byte % 128 :=
  forall_byte (by decide +kernel)

theorem keyOf_eq_leftCtrl (extended : Bool) : ∀ code,
    Keyboard.keyOf extended code = .leftCtrl ↔ extended = false ∧ code = 0x1D :=
  forall_byte (by revert extended; decide +kernel)

theorem keyOf_eq_rightCtrl (extended : Bool) : ∀ code,
    Keyboard.keyOf extended code = .rightCtrl ↔ extended = true ∧ code = 0x1D :=
  forall_byte (by revert extended; decide +kernel)

theorem ModifierState.leftCtrl_update (mods : ModifierState) (key : KeyCode) (pressed : Bool) :
    (mods.update key pressed).leftCtrl = if key = .leftCtrl then pressed else mods.leftCtrl := by
  cases key <;> first | rfl | (cases pressed <;> rfl)

theorem ModifierState.rightCtrl_update (mods : ModifierState) (key : KeyCode) (pressed : Bool) :
    (mods.update key pressed).rightCtrl = if key = .rightCtrl then pressed else mods.rightCtrl := by
  cases key <;> first | rfl | (cases pressed <;> rfl)

/-- The driver knows of the pending prefix byte and of the two Ctrl keys. -/
structure Keyboard.Follows (bytes : List UInt8) (keyboard : Keyboard) : Prop where
  prefixByte : keyboard.extendedKey = prefixed bytes
  leftCtrl : keyboard.modifiers.leftCtrl = held false 0x1D bytes
  rightCtrl : keyboard.modifiers.rightCtrl = held true 0x1D bytes

variable {keyboard : Keyboard}

namespace Keyboard

theorem handleScancode_follows {bytes : List UInt8}
    (follows : keyboard.Follows bytes) (byte : UInt8) :
    (keyboard.handleScancode byte).Follows (bytes ++ [byte]) := by
  have lastByte : prefixed (bytes ++ [byte]) = (byte == 0xE0) := by
    rw [prefixed, getLast?_concat]
    rfl
  unfold handleScancode
  by_cases isMark : byte = 0xE0
  · rw [if_pos isMark]
    refine ⟨?_, ?_, ?_⟩
    · rw [lastByte, isMark]
      rfl
    · rw [held_concat, if_neg (fun more => more.1 isMark)]
      exact follows.leftCtrl
    · rw [held_concat, if_neg (fun more => more.1 isMark)]
      exact follows.rightCtrl
  · rw [if_neg isMark, pressed_iff, code_eq]
    refine ⟨?_, ?_, ?_⟩
    · rw [lastByte, beq_false_of_ne isMark]
    · rw [ModifierState.leftCtrl_update, held_concat, follows.leftCtrl, follows.prefixByte]
      simp only [keyOf_eq_leftCtrl, ne_eq, isMark, not_false_eq_true, true_and]
    · rw [ModifierState.rightCtrl_update, held_concat, follows.rightCtrl, follows.prefixByte]
      simp only [keyOf_eq_rightCtrl, ne_eq, isMark, not_false_eq_true, true_and]

/-- After every history the driver knows which Ctrl keys are held. -/
theorem run_follows (inputs : List KeyInput) : (run inputs).Follows (scancodes inputs) := by
  refine @run_invariant (fun inputs keyboard => keyboard.Follows (scancodes inputs))
    ⟨rfl, rfl, rfl⟩ (fun inputs input keyboard follows => ?_) inputs
  cases input with
  | scancode byte =>
    rw [scancodes, filterMap_append]
    exact handleScancode_follows follows byte
  | readKey =>
    rw [scancodes, filterMap_append, filterMap_cons_none rfl, filterMap_nil, append_nil]
    exact ⟨follows.prefixByte, follows.leftCtrl, follows.rightCtrl⟩

/-! ## Control codes -/

/-- The make codes of the letters A to Z in scancode set 1. -/
def letterScancodes : List UInt8 :=
  [0x1E, 0x30, 0x2E, 0x20, 0x12, 0x21, 0x22, 0x23, 0x17, 0x24, 0x25, 0x26, 0x32,
   0x31, 0x18, 0x19, 0x10, 0x13, 0x1F, 0x14, 0x16, 0x2F, 0x11, 0x2D, 0x15, 0x2C]

def letterScancode (letter : Fin 26) : UInt8 := letterScancodes.get letter

/-- The control code of a letter, `0x01` to `0x1A`. -/
def controlCode (letter : Fin 26) : UInt8 := UInt8.ofNat (letter.val + 1)

/-- The letters that the driver has a control code for: A to F and L. -/
def controlLetters : List (Fin 26) := [0, 1, 2, 3, 4, 5, 11]

/-- The codes matched by the shell editor (Ctrl+S, Ctrl+Q, Ctrl+G) and by Notepad
(Ctrl+S, Ctrl+O, Ctrl+N). -/
def shortcutCodes : List UInt8 := [0x13, 0x11, 0x07, 0x0F, 0x0E]

theorem keycodeToAscii_letter (letter : Fin 26) (shift caps : Bool) :
    keycodeToAscii (scancodeToKeycode (letterScancode letter)) shift caps true =
      controlCode letter ↔ letter ∈ controlLetters := by
  revert letter shift caps
  decide +kernel

/-- A letter's make code is neither the prefix byte nor a release, and a letter is
no modifier. -/
theorem letterScancode_spec (letter : Fin 26) :
    letterScancode letter ≠ 0xE0 ∧ (letterScancode letter &&& 0x80 == 0) = true ∧
      letterScancode letter &&& 0x7F = letterScancode letter := by
  revert letter
  decide +kernel

theorem update_letter (mods : ModifierState) (letter : Fin 26) (pressed : Bool) :
    mods.update (scancodeToKeycode (letterScancode letter)) pressed = mods := by
  fin_cases letter <;> rfl

theorem handleScancode_letter (ready : keyboard.extendedKey = false)
    (ctrl : keyboard.modifiers.ctrl = true) (letter : Fin 26) :
    (keyboard.handleScancode (letterScancode letter)).keyBuffer =
      keyboard.keyBuffer.push
        ⟨keycodeToAscii (scancodeToKeycode (letterScancode letter)) keyboard.modifiers.shift
          keyboard.modifiers.capsLock true, scancodeToKeycode (letterScancode letter), true⟩ := by
  obtain ⟨notMark, isPress, sameCode⟩ := letterScancode_spec letter
  unfold handleScancode
  rw [if_neg notMark, isPress, sameCode, ready, keyOf, if_neg Bool.false_ne_true]
  dsimp only
  rw [update_letter, eventOf, if_pos rfl, ctrl]

/-- A letter pressed while Ctrl is held queues its control code exactly when the
letter is one of A to F and L and the buffer has room. -/
theorem ctrl_letter_queued_iff (inputs : List KeyInput)
    (ready : prefixed (scancodes inputs) = false) (ctrl : ctrlHeld (scancodes inputs) = true)
    (letter : Fin 26) :
    (∃ event, (run (inputs ++ [.scancode (letterScancode letter)])).waiting =
        (run inputs).waiting ++ [event] ∧ event.ascii = controlCode letter) ↔
      letter ∈ controlLetters ∧ (run inputs).waiting.length < keyBufferSize - 1 := by
  have follows := run_follows inputs
  have noMark : (run inputs).extendedKey = false := follows.prefixByte.trans ready
  have down : (run inputs).modifiers.ctrl = true := by
    rw [ModifierState.ctrl, follows.leftCtrl, follows.rightCtrl]
    exact ctrl
  rw [run_concat, step]
  unfold waiting
  rw [handleScancode_letter noMark down, length_waiting]
  have countLt := (run inputs).keyBuffer.count_lt
  by_cases room : (run inputs).keyBuffer.count + 1 < keyBufferSize
  · rw [waiting_push room, ← keycodeToAscii_letter letter
      (run inputs).modifiers.shift (run inputs).modifiers.capsLock]
    constructor
    · rintro ⟨event, same, isCode⟩
      have isEvent := append_cancel_left same
      rw [List.cons.injEq] at isEvent
      rw [← isEvent.1] at isCode
      exact ⟨isCode, by omega⟩
    · rintro ⟨isCode, _⟩
      exact ⟨_, rfl, isCode⟩
  · rw [push_of_full (by omega)]
    constructor
    · rintro ⟨event, same, _⟩
      exact absurd same.symm (by simp)
    · rintro ⟨_, fits⟩
      omega

/-- Ctrl+A, on an empty buffer. -/
theorem ctrl_a_queued : ∃ event,
    (run ([.scancode 0x1D] ++ [.scancode (letterScancode 0)])).waiting =
      (run [.scancode 0x1D]).waiting ++ [event] ∧ event.ascii = 1 :=
  (ctrl_letter_queued_iff [.scancode 0x1D] (by decide +kernel) (by decide +kernel) 0).mpr
    ⟨by decide, by decide +kernel⟩

theorem keycodeToAscii_not_shortcut (key : KeyCode) (shift caps ctrl : Bool) :
    keycodeToAscii key shift caps ctrl ∉ shortcutCodes := by
  cases key <;> revert shift caps ctrl <;> decide

theorem eventOf_not_shortcut (key : KeyCode) (pressed : Bool) (mods : ModifierState) :
    (eventOf key pressed mods).ascii ∉ shortcutCodes := by
  cases pressed with
  | false => exact show (0 : UInt8) ∉ shortcutCodes by decide
  | true => exact keycodeToAscii_not_shortcut _ _ _ _

theorem mem_waiting_handleScancode {byte : UInt8} {event : KeyEvent}
    (waits : event ∈ (keyboard.handleScancode byte).waiting) :
    event ∈ keyboard.waiting ∨ ∃ key pressed mods, event = eventOf key pressed mods := by
  unfold handleScancode at waits
  by_cases isMark : byte = 0xE0
  · rw [if_pos isMark] at waits
    exact .inl waits
  rw [if_neg isMark] at waits
  dsimp only [waiting] at waits
  by_cases room : keyboard.keyBuffer.count + 1 < keyBufferSize
  · rw [waiting_push room, mem_append, mem_singleton] at waits
    exact waits.imp_right fun isEvent => ⟨_, _, _, isEvent⟩
  · have countLt := keyboard.keyBuffer.count_lt
    rw [push_of_full (by omega)] at waits
    exact .inl waits

/-- No history ever queues the code of a shortcut. -/
theorem run_no_shortcut (inputs : List KeyInput) :
    ∀ event ∈ (run inputs).waiting, event.ascii ∉ shortcutCodes := by
  refine @run_invariant (fun _ keyboard => ∀ event ∈ keyboard.waiting,
    event.ascii ∉ shortcutCodes) ?_ (fun inputs input keyboard clean event waits => ?_) inputs
  · intro event waits
    have nothing : new.waiting = [] := waiting_empty _ _
    exact absurd waits not_mem_nil
  · cases input with
    | scancode byte =>
      rcases mem_waiting_handleScancode waits with before | ⟨key, pressed, mods, rfl⟩
      · exact clean event before
      · exact eventOf_not_shortcut key pressed mods
    | readKey =>
      have left : event ∈ keyboard.readKey.2.waiting := waits
      rw [keyboard.readKey_eq.2] at left
      exact clean event (mem_of_mem_tail left)

/-- Ctrl+S queues no control code, and no reader is ever given the code of a
shortcut. -/
theorem ctrl_s_not_queued :
    (run [.scancode 0x1D, .scancode (letterScancode 18)]).waiting =
        (run [.scancode 0x1D]).waiting ++ [⟨0, .s, true⟩] ∧
      controlCode 18 = 0x13 ∧
      ∀ inputs event, (run inputs).tryReadChar.1 = some event → event.ascii ∉ shortcutCodes := by
  refine ⟨by decide +kernel, rfl, fun inputs event given => ?_⟩
  rw [tryReadChar_eq] at given
  exact run_no_shortcut inputs event (mem_of_find?_eq_some given)

end Keyboard

end CantayaOS.Hal
