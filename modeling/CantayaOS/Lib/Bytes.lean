import Mathlib

/-!
# Byte windows and little-endian numbers

A buffer is a function from offsets to bytes.  A window is the list of bytes
that a stretch of the buffer holds, and an overlay replaces such a stretch.
-/

namespace CantayaOS.Lib.Bytes

open List

def fromLe : List UInt8 → Nat
  | [] => 0
  | byte :: rest => byte.toNat + 256 * fromLe rest

/-- The lowest `len` bytes of a number, the least significant one first. -/
def toLe : Nat → Nat → List UInt8
  | 0, _ => []
  | len + 1, n => UInt8.ofNat n :: toLe len (n / 256)

variable {bytes : List UInt8} {buffer : Nat → UInt8} {start len i : Nat}

@[simp] theorem length_toLe (len n : Nat) : (toLe len n).length = len := by
  induction len generalizing n with
  | zero => rfl
  | succ len ih => simp [toLe, ih]

theorem fromLe_toLe (len n : Nat) : fromLe (toLe len n) = n % 256 ^ len := by
  induction len generalizing n with
  | zero => simp [toLe, fromLe, Nat.mod_one]
  | succ len ih =>
    have low : (UInt8.ofNat n).toNat = n % 256 := UInt8.toNat_ofNat
    rw [toLe, fromLe, ih, low, pow_succ, mul_comm (256 ^ len) 256, Nat.mod_mul]

theorem fromLe_lt (bytes : List UInt8) : fromLe bytes < 256 ^ bytes.length := by
  induction bytes with
  | nil => exact one_pos
  | cons byte rest ih =>
    have bound := byte.toNat_lt
    rw [fromLe, length_cons]
    omega

/-- The bytes of a little-endian number are its digits. -/
theorem ofNat_fromLe_div {k : Nat} (inside : k < bytes.length) :
    UInt8.ofNat (fromLe bytes / 256 ^ k) = bytes.getD k 0 := by
  induction bytes generalizing k with
  | nil => cases inside
  | cons byte rest ih =>
    have bound := byte.toNat_lt
    cases k with
    | zero =>
      apply UInt8.toNat_inj.mp
      rw [UInt8.toNat_ofNat', fromLe, getD_cons_zero, pow_zero]
      omega
    | succ k =>
      have quotient : (byte.toNat + 256 * fromLe rest) / 256 = fromLe rest := by omega
      rw [fromLe, Nat.pow_succ', ← Nat.div_div_eq_div_mul, quotient]
      exact ih (Nat.lt_of_succ_lt_succ inside)

def window (buffer : Nat → UInt8) (start len : Nat) : List UInt8 :=
  (List.range len).map fun i => buffer (start + i)

def overlay (buffer : Nat → UInt8) (start : Nat) (bytes : List UInt8) : Nat → UInt8 := fun i =>
  if start ≤ i ∧ i < start + bytes.length then bytes.getD (i - start) 0 else buffer i

@[simp] theorem length_window (buffer : Nat → UInt8) (start len : Nat) :
    (window buffer start len).length = len := by
  simp [window]

theorem window_congr {other : Nat → UInt8} {start' : Nat}
    (agree : ∀ i < len, buffer (start + i) = other (start' + i)) :
    window buffer start len = window other start' len :=
  map_congr_left fun i member => agree i (mem_range.mp member)

theorem getD_window (inside : i < len) :
    (window buffer start len).getD i 0 = buffer (start + i) := by
  simp [window, inside]

/-- Reading back what was written. -/
theorem window_overlay_self (buffer : Nat → UInt8) (start : Nat) (bytes : List UInt8) :
    window (overlay buffer start bytes) start bytes.length = bytes := by
  apply ext_getElem (length_window _ _ _)
  intro i inWindow inBytes
  simp [window, overlay, inBytes]

theorem overlay_of_not_mem
    (outside : i < start ∨ start + bytes.length ≤ i) : overlay buffer start bytes i = buffer i := by
  unfold overlay
  rw [if_neg (by omega)]

theorem overlay_of_mem
    (inside : i < bytes.length) : overlay buffer start bytes (start + i) = bytes.getD i 0 := by
  unfold overlay
  rw [if_pos (by omega), Nat.add_sub_cancel_left]

variable {base : Nat}

/-- What is written elsewhere does not show in a window. -/
theorem window_overlay_apart (apart : base + len ≤ start ∨ start + bytes.length ≤ base) :
    window (overlay buffer start bytes) base len = window buffer base len :=
  window_congr fun i inside => overlay_of_not_mem (by omega)

/-- Reading a stretch, changing a part of it and writing it back changes just that part. -/
theorem overlay_window_overlay (buffer : Nat → UInt8) (fits : start + bytes.length ≤ len) :
    overlay buffer base (window (overlay (fun i => buffer (base + i)) start bytes) 0 len) =
      overlay buffer (base + start) bytes := by
  funext addr
  by_cases stretch : base ≤ addr ∧ addr < base + len
  · obtain ⟨i, rfl⟩ := Nat.exists_eq_add_of_le stretch.1
    have small : i < len := by omega
    rw [overlay_of_mem (by simpa using small), getD_window small, zero_add]
    by_cases inside : start ≤ i ∧ i < start + bytes.length
    · obtain ⟨j, rfl⟩ := Nat.exists_eq_add_of_le inside.1
      have short : j < bytes.length := by omega
      rw [overlay_of_mem short, ← add_assoc, overlay_of_mem short]
    · rw [overlay_of_not_mem (by omega), overlay_of_not_mem (by omega)]
  · rw [overlay_of_not_mem (by rw [length_window]; omega), overlay_of_not_mem (by omega)]

/-- Writing two stretches in a row. -/
theorem overlay_append (buffer : Nat → UInt8) (start : Nat) (first second : List UInt8) :
    overlay buffer start (first ++ second) =
      overlay (overlay buffer start first) (start + first.length) second := by
  funext i
  unfold overlay
  rw [length_append]
  by_cases later : start + first.length ≤ i
  · have index : i - start - first.length = i - (start + first.length) := by omega
    rw [getD_append_right _ _ _ _ (by omega), index]
    split_ifs <;> first | rfl | omega
  · by_cases inside : start ≤ i
    · rw [if_pos (by omega), if_neg (by omega), if_pos (by omega), getD_append _ _ _ _ (by omega)]
    · rw [if_neg (by omega), if_neg (by omega), if_neg (by omega)]

end CantayaOS.Lib.Bytes
