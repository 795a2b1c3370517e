import Mathlib

/-!
# End-around carries

Sums in ones' complement of `w` bits.  Folding the carries of a sum back into
its low half keeps its residue modulo `2 ^ w - 1` and keeps it nonzero, and a
nonzero number of `w` bits is fixed by its residue.
-/

namespace CantayaOS.Lib.OnesComplement

/-- Add the bits above the low `w` to the low `w` bits. -/
def fold (w sum : Nat) : Nat := sum % 2 ^ w + sum / 2 ^ w

theorem fold_modEq (w sum : Nat) : fold w sum ≡ sum [MOD 2 ^ w - 1] := by
  have positive : 0 < 2 ^ w := Nat.two_pow_pos w
  have split : sum = sum % 2 ^ w + sum / 2 ^ w + (2 ^ w - 1) * (sum / 2 ^ w) := by
    have divided := Nat.mod_add_div sum (2 ^ w)
    rw [Nat.sub_mul]
    have le : sum / 2 ^ w ≤ 2 ^ w * (sum / 2 ^ w) := Nat.le_mul_of_pos_left _ positive
    omega
  conv_rhs => rw [split]
  exact (Nat.modEq_iff_dvd' (Nat.le_add_right _ _)).mpr (by simp)

theorem fold_pos_iff {w sum : Nat} : 0 < fold w sum ↔ 0 < sum := by
  have divided := Nat.mod_add_div sum (2 ^ w)
  have low := Nat.mod_le sum (2 ^ w)
  have high := Nat.div_le_self sum (2 ^ w)
  rw [fold]
  constructor
  · omega
  · intro positive
    by_contra zero
    obtain ⟨isLow, isHigh⟩ := Nat.add_eq_zero_iff.mp (Nat.eq_zero_of_not_pos zero)
    rw [isHigh] at divided
    omega

/-- A nonzero number of `w` bits is fixed by its residue. -/
theorem eq_of_modEq {w a b : Nat} (same : a ≡ b [MOD 2 ^ w - 1]) (posA : 0 < a) (posB : 0 < b)
    (smallA : a < 2 ^ w) (smallB : b < 2 ^ w) : a = b := by
  have shifted : a - 1 ≡ b - 1 [MOD 2 ^ w - 1] := by
    refine Nat.ModEq.add_right_cancel' 1 ?_
    rwa [Nat.sub_add_cancel posA, Nat.sub_add_cancel posB]
  have equal := shifted.eq_of_lt_of_lt (by omega) (by omega)
  omega

/-- The complement of a folded sum brings the sum to the nonzero residue of zero. -/
theorem add_complement_modEq {w sum folded : Nat} (same : folded ≡ sum [MOD 2 ^ w - 1])
    (small : folded < 2 ^ w) : sum + (2 ^ w - 1 - folded) ≡ 2 ^ w - 1 [MOD 2 ^ w - 1] := by
  have filled := same.symm.add_right (2 ^ w - 1 - folded)
  rwa [show folded + (2 ^ w - 1 - folded) = 2 ^ w - 1 by omega] at filled

end CantayaOS.Lib.OnesComplement
