import Mathlib

/-!
# Ring buffers with positions

A ring of `size` slots with the position to read from and the position to write
to.  Equal positions mean that the ring is empty, so one slot always stays free.
Seen from outside, the ring is the list of the items that wait in it.
-/

namespace CantayaOS.Lib

open List Nat Function

structure RingBuffer (α : Type) (size : Nat) where
  slots : Nat → α
  readPos : Nat
  writePos : Nat
  readInside : readPos < size
  writeInside : writePos < size

namespace RingBuffer

variable {α : Type} {size : Nat}

def empty (item : α) (positive : 0 < size) : RingBuffer α size :=
  ⟨fun _ => item, 0, 0, positive, positive⟩

theorem next_lt (position : Nat) (inside : position < size) : (position + 1) % size < size :=
  mod_lt _ (lt_of_le_of_lt (Nat.zero_le _) inside)

/-- Add an item; it is dropped when the ring is full. -/
def push (item : α) (ring : RingBuffer α size) : RingBuffer α size :=
  if (ring.writePos + 1) % size ≠ ring.readPos then
    { ring with
      slots := Function.update ring.slots ring.writePos item
      writePos := (ring.writePos + 1) % size
      writeInside := next_lt _ ring.writeInside }
  else ring

def pop (ring : RingBuffer α size) : Option α × RingBuffer α size :=
  if ring.readPos = ring.writePos then (none, ring)
  else
    (some (ring.slots ring.readPos),
      { ring with readPos := (ring.readPos + 1) % size, readInside := next_lt _ ring.readInside })

def count (ring : RingBuffer α size) : Nat := (ring.writePos + size - ring.readPos) % size

def waiting (ring : RingBuffer α size) : List α :=
  (List.range ring.count).map fun i => ring.slots ((ring.readPos + i) % size)

@[simp] theorem waiting_empty (item : α) (positive : 0 < size) : (empty item positive).waiting = [] := by
  simp [waiting, count, empty]

@[simp] theorem length_waiting (ring : RingBuffer α size) : ring.waiting.length = ring.count := by
  simp [waiting]

theorem count_cases (ring : RingBuffer α size) :
    ring.readPos ≤ ring.writePos ∧ ring.count = ring.writePos - ring.readPos ∨
      ring.writePos < ring.readPos ∧ ring.count = ring.writePos + size - ring.readPos := by
  have writeInside := ring.writeInside
  rcases Nat.lt_or_ge ring.writePos ring.readPos with wrapped | straight
  · exact .inr ⟨wrapped, Nat.mod_eq_of_lt (by omega)⟩
  · refine .inl ⟨straight, ?_⟩
    rw [count, Nat.add_comm, Nat.add_sub_assoc straight, Nat.add_mod_left,
      Nat.mod_eq_of_lt (by omega)]

theorem next_cases {position : Nat} (inside : position < size) :
    position + 1 < size ∧ (position + 1) % size = position + 1 ∨
      position + 1 = size ∧ (position + 1) % size = 0 := by
  rcases lt_or_ge (position + 1) size with before | last
  · exact .inl ⟨before, mod_eq_of_lt before⟩
  · have same : position + 1 = size := by omega
    exact .inr ⟨same, by rw [same, mod_self]⟩

/-- The position that lies so many items behind the one to read from. -/
theorem place_cases (ring : RingBuffer α size) {i : Nat} (inside : i < size) :
    ring.readPos + i < size ∧ (ring.readPos + i) % size = ring.readPos + i ∨
      size ≤ ring.readPos + i ∧ (ring.readPos + i) % size = ring.readPos + i - size := by
  have readInside := ring.readInside
  rcases lt_or_ge (ring.readPos + i) size with straight | wrapped
  · exact .inl ⟨straight, mod_eq_of_lt straight⟩
  · refine .inr ⟨wrapped, ?_⟩
    rw [mod_eq_sub_mod wrapped, mod_eq_of_lt (by omega)]

theorem count_lt (ring : RingBuffer α size) : ring.count < size :=
  mod_lt _ (lt_of_le_of_lt (Nat.zero_le _) ring.readInside)

/-- The ring is full exactly when one slot is free. -/
theorem full_iff (ring : RingBuffer α size) :
    (ring.writePos + 1) % size = ring.readPos ↔ ring.count + 1 = size := by
  have readInside := ring.readInside
  have counted := ring.count_cases
  have next := next_cases ring.writeInside
  omega

theorem push_of_full {ring : RingBuffer α size} (full : ring.count + 1 = size) (item : α) :
    ring.push item = ring :=
  if_neg (not_not.mpr (ring.full_iff.mpr full))

/-- An item that fits waits behind the others. -/
theorem waiting_push {ring : RingBuffer α size} (room : ring.count + 1 < size) (item : α) :
    (ring.push item).waiting = ring.waiting ++ [item] := by
  have notFull : (ring.writePos + 1) % size ≠ ring.readPos := by
    rw [ne_eq, full_iff]
    omega
  have readInside := ring.readInside
  have writeInside := ring.writeInside
  have counted := ring.count_cases
  have pushed : ring.push item = _ := if_pos notFull
  rw [pushed]
  have grown : count { ring with
      slots := update ring.slots ring.writePos item
      writePos := (ring.writePos + 1) % size
      writeInside := next_lt _ ring.writeInside } = ring.count + 1 := by
    have after := count_cases { ring with
      slots := update ring.slots ring.writePos item
      writePos := (ring.writePos + 1) % size
      writeInside := next_lt _ ring.writeInside }
    have next := next_cases ring.writeInside
    dsimp only at after
    omega
  unfold waiting
  rw [grown, range_succ, map_append, map_singleton]
  congr 1
  · refine map_congr_left fun i member => ?_
    have inside := mem_range.mp member
    have place := ring.place_cases (show i < size by omega)
    dsimp only
    exact update_of_ne (by omega) _ _
  · have place := ring.place_cases (show ring.count < size by omega)
    have target : (ring.readPos + ring.count) % size = ring.writePos := by omega
    dsimp only
    rw [target, update_self]

/-- The oldest item is taken; nothing is taken from an empty ring. -/
theorem pop_eq (ring : RingBuffer α size) :
    ring.pop.1 = ring.waiting.head? ∧ ring.pop.2.waiting = ring.waiting.tail := by
  have readInside := ring.readInside
  have counted := ring.count_cases
  unfold pop
  by_cases same : ring.readPos = ring.writePos
  · have nothing : ring.waiting = [] := by
      rw [← length_eq_zero_iff, length_waiting]
      omega
    rw [if_pos same, nothing]
    exact ⟨rfl, rfl⟩
  rw [if_neg same]
  obtain ⟨rest, isCount⟩ : ∃ rest, ring.count = rest + 1 := ⟨ring.count - 1, by
    omega⟩
  have shrunk : count { ring with
      readPos := (ring.readPos + 1) % size, readInside := next_lt _ ring.readInside } = rest := by
    have after := count_cases { ring with
      readPos := (ring.readPos + 1) % size, readInside := next_lt _ ring.readInside }
    have next := next_cases ring.readInside
    have writeInside := ring.writeInside
    dsimp only at after
    omega
  unfold waiting
  rw [shrunk, isCount, range_succ_eq_map, map_cons, List.map_map]
  refine ⟨?_, ?_⟩
  · dsimp only
    rw [head?_cons, add_zero, mod_eq_of_lt readInside]
  · refine map_congr_left fun i _ => ?_
    dsimp only [comp]
    rw [mod_add_mod, add_assoc, add_comm 1 i]

end RingBuffer

end CantayaOS.Lib
