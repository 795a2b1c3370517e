import Mathlib

/-!
# Machine words over the natural numbers

Words are natural numbers; an operation that can leave the word's range is
reduced explicitly.  The masking idiom `x & !(a - 1)` for a power of two `a`
is rounding down to a multiple of `a`.
-/

namespace CantayaOS.Lib.Word

def not64 (x : Nat) : Nat := 2 ^ 64 - 1 - x

/-- Round a 64-bit value up to a multiple of the power of two `a` by adding and masking. -/
def maskUp (x a : Nat) : Nat := (x + a - 1) &&& not64 (a - 1)

variable {x k : Nat}

theorem testBit_not64 (bound : x < 2 ^ 64) (i : Nat) :
    (not64 x).testBit i = (decide (i < 64) && !x.testBit i) := by
  have shape : not64 x = 2 ^ 64 - (x + 1) := by
    unfold not64
    omega
  rw [shape]
  exact Nat.testBit_two_pow_sub_succ bound i

/-- Masking with the complement of `2 ^ k - 1` clears the low `k` bits. -/
theorem and_not64_eq_div_mul (bound : x < 2 ^ 64) (small : k < 64) :
    x &&& not64 (2 ^ k - 1) = x / 2 ^ k * 2 ^ k := by
  have maskBound : 2 ^ k - 1 < 2 ^ 64 :=
    Nat.lt_of_le_of_lt (Nat.sub_le _ _) (Nat.pow_lt_pow_right (by decide) small)
  apply Nat.eq_of_testBit_eq
  intro i
  rw [Nat.testBit_and, testBit_not64 maskBound, Nat.testBit_mul_two_pow, Nat.testBit_div_two_pow]
  by_cases low : i < k
  · simp [low]
  by_cases high : i < 64
  · simp [high, Nat.le_of_not_lt low]
  · have zero : x.testBit i = false :=
      Nat.testBit_lt_two_pow (Nat.lt_of_lt_of_le bound
        (Nat.pow_le_pow_right (by decide) (not_lt.mp high)))
    simp [zero, Nat.sub_add_cancel (not_lt.mp low)]

section

variable (bound : x + 2 ^ k ≤ 2 ^ 64)
include bound

section

variable (small : k < 64)
include small

/-- Rounding up by masking is the arithmetic rounding up. -/
theorem maskUp_two_pow : maskUp x (2 ^ k) = (x + 2 ^ k - 1) / 2 ^ k * 2 ^ k := by
  exact and_not64_eq_div_mul (by omega) small

theorem le_maskUp : x ≤ maskUp x (2 ^ k) := by
  have positive : 0 < 2 ^ k := Nat.two_pow_pos k
  rw [maskUp_two_pow bound small]
  have split := Nat.div_add_mod (x + 2 ^ k - 1) (2 ^ k)
  rw [mul_comm] at split
  omega

theorem maskUp_lt : maskUp x (2 ^ k) < x + 2 ^ k := by
  have positive : 0 < 2 ^ k := Nat.two_pow_pos k
  rw [maskUp_two_pow bound small]
  have floor := Nat.div_mul_le_self (x + 2 ^ k - 1) (2 ^ k)
  omega

theorem dvd_maskUp : 2 ^ k ∣ maskUp x (2 ^ k) := by
  rw [maskUp_two_pow bound small]
  exact dvd_mul_left _ _

/-- A value that is already a multiple is left where it is. -/
theorem maskUp_of_dvd (aligned : 2 ^ k ∣ x) : maskUp x (2 ^ k) = x := by
  have lower := le_maskUp bound small
  have upper := maskUp_lt bound small
  obtain ⟨q, hq⟩ := aligned
  obtain ⟨r, hr⟩ := dvd_maskUp bound small
  rw [hr, hq] at lower upper
  rw [hr, hq]
  have positive : 0 < 2 ^ k := Nat.two_pow_pos k
  have first : q ≤ r := Nat.le_of_mul_le_mul_left lower positive
  have second : r < q + 1 := by
    apply Nat.lt_of_mul_lt_mul_left (a := 2 ^ k)
    exact upper
  have same : r = q := by omega
  rw [same]

end

end

end CantayaOS.Lib.Word
