import Mathlib

/-!
# Rings with free-running counters

One side appends items to a ring of `size` slots and the other takes them in
order.  Both keep only a wrapping counter of the items so far.  While the ring
is never more than full, each item waits unharmed in its slot, and the wrapped
counters are equal only when everything has been taken.
-/

namespace CantayaOS.Lib.Ring

variable {α : Type}

/-- The items that were sent and not yet taken lie in their slots. -/
structure Carries (size : Nat) (slots : Nat → α) (sent : List α) (taken : Nat) : Prop where
  started : taken ≤ sent.length
  room : sent.length ≤ taken + size
  slot : ∀ i (inside : i < sent.length), taken ≤ i → slots (i % size) = sent[i]

variable {size taken : Nat} {slots : Nat → α} {sent : List α}

theorem carries_nil (size : Nat) (slots : Nat → α) : Carries size slots [] 0 :=
  ⟨le_rfl, Nat.zero_le _, fun _ inside => absurd inside (Nat.not_lt_zero _)⟩

/-- Items fewer than `size` apart have different slots. -/
theorem slot_ne {i j : Nat} (earlier : i < j) (near : j < i + size) : i % size ≠ j % size := by
  intro same
  have divides : size ∣ j - i := (Nat.modEq_iff_dvd' earlier.le).mp same
  have := Nat.le_of_dvd (by omega) divides
  omega

section

variable (carries : Carries size slots sent taken)
include carries

/-- Sending into a ring with room. -/
theorem Carries.push (a : α) (room : sent.length < taken + size) :
    Carries size (Function.update slots (sent.length % size) a) (sent ++ [a]) taken := by
  have started := carries.started
  refine ⟨by simp; omega, by simp; omega, ?_⟩
  intro i inside later
  rcases lt_or_ge i sent.length with old | new
  · rw [Function.update_of_ne (slot_ne old (by omega)), List.getElem_append_left old]
    exact carries.slot i old later
  have last : i = sent.length := by
    simp only [List.length_append, List.length_singleton] at inside
    omega
  subst last
  simp

/-- Taking the oldest item that waits. -/
theorem Carries.take (more : taken < sent.length) : Carries size slots sent (taken + 1) :=
  ⟨more, by have := carries.room; omega, fun i inside later => carries.slot i inside (by omega)⟩

/-- Equal wrapped counters mean that nothing waits. -/
theorem Carries.all_taken {modulus : Nat} (small : size < modulus)
    (same : taken % modulus = sent.length % modulus) : taken = sent.length := by
  have started := carries.started
  have room := carries.room
  by_contra waiting
  exact slot_ne (show taken < sent.length by omega)
    (show sent.length < taken + modulus by omega) same

end

end CantayaOS.Lib.Ring
