import Mathlib

/-!
# Placing the mines

`minesweeper_init` (`desktop/apps/minesweeper.rs`) draws cells from a generator
of pseudo-random numbers until twenty mines lie in different cells.  The loop
has no bound of its own: it ends because the generator reaches every cell.
-/

namespace CantayaOS.Desktop.Minesweeper

open Function

abbrev mineRows : Nat := 12

abbrev mineCols : Nat := 12

def mineCount : Nat := 20

/-- `mines` holds the cells whose flag is set. -/
structure Field where
  seed : UInt32
  mines : Finset (Fin (mineRows * mineCols))
  placed : Nat

def nextSeed (seed : UInt32) : UInt32 := seed * 1103515245 + 12345

def cell (seed : UInt32) : Fin (mineRows * mineCols) := Fin.ofNat _ (seed >>> 16).toNat

/-- One round of the loop. -/
def Field.place (field : Field) : Field :=
  let seed := nextSeed field.seed
  if cell seed ∈ field.mines then { field with seed }
  else { seed, mines := insert (cell seed) field.mines, placed := field.placed + 1 }

/-- The loop; `none` means that it is still running after `fuel` rounds. -/
def Field.placeMines : Nat → Field → Option Field
  | fuel, field =>
    if field.placed < mineCount then
      match fuel with
      | 0 => none
      | fuel + 1 => placeMines fuel field.place
    else some field

section

open scoped UInt32.CommRing

theorem nextSeed_iterate_sub (n : ℕ) (x y : UInt32) :
    nextSeed^[n] x - nextSeed^[n] y = 1103515245 ^ n * (x - y) := by
  induction n with
  | zero => simp
  | succ n ih =>
    rw [iterate_succ_apply', iterate_succ_apply', nextSeed, nextSeed]
    linear_combination 1103515245 * ih

/-- From one power of two to the next, the distance is multiplied by `1 + a ^ 2 ^ k`, which is
twice an odd number as `a` is congruent to 1 modulo 4. -/
theorem exists_odd_iterate (x : UInt32) : ∀ k : ℕ, ∃ m, nextSeed^[2 ^ k] x = x + 2 ^ k * (2 * m + 1)
  | 0 => by
    refine ⟨551757622 * x + 6172, ?_⟩
    rw [pow_zero, iterate_one, nextSeed]
    ring
  | k + 1 => by
    obtain ⟨m, first⟩ := exists_odd_iterate x k
    obtain ⟨q, split⟩ : (4 : UInt32) ∣ 1103515245 ^ 2 ^ k - 1 :=
      .trans ⟨275878811, by decide⟩ (sub_one_dvd_pow_sub_one 1103515245 (2 ^ k))
    have second := nextSeed_iterate_sub (2 ^ k) (nextSeed^[2 ^ k] x) x
    refine ⟨q * (2 * m + 1) + m, ?_⟩
    rw [pow_succ, Nat.mul_two, iterate_add_apply]
    rw [first] at second ⊢
    linear_combination second + 2 ^ k * (2 * m + 1) * split

theorem exists_iterate_add (x y : UInt32) : ∀ k : ℕ, ∃ n z, nextSeed^[n] x + 2 ^ k * z = y
  | 0 => ⟨0, y - x, by simp⟩
  | k + 1 => by
    obtain ⟨n, z, near⟩ := exists_iterate_add x y k
    have whole : (z.toNat : UInt32) = z := UInt32.ofNat_toNat
    obtain ⟨w, even | odd⟩ := Nat.even_or_odd' z.toNat
    · rw [← whole, even] at near
      exact ⟨n, w, by rw [← near]; push_cast; ring⟩
    · obtain ⟨m, moved⟩ := exists_odd_iterate (nextSeed^[n] x) k
      rw [← whole, odd] at near
      refine ⟨2 ^ k + n, w - m, ?_⟩
      rw [iterate_add_apply, moved, ← near]
      push_cast
      ring

theorem exists_cell (seed : UInt32) (target : Fin (mineRows * mineCols)) :
    ∃ n, cell (nextSeed^[n] seed) = target := by
  obtain ⟨n, z, reached⟩ := exists_iterate_add seed (UInt32.ofNat (target * 2 ^ 16)) 32
  have zero : (2 : UInt32) ^ 32 = 0 := by decide
  have small : target.val < 144 := target.isLt
  rw [zero, zero_mul, add_zero] at reached
  refine ⟨n, Fin.ext ?_⟩
  rw [reached]
  simp only [cell, Fin.val_ofNat, UInt32.toNat_shiftRight, UInt32.toNat_ofNat', UInt32.reduceToNat,
    Nat.reduceMod, Nat.shiftRight_eq_div_pow]
  rw [Nat.mod_eq_of_lt (by omega)]
  omega

end

/-- The loop ends from `field` with all mines placed. -/
def Field.Ends (field : Field) : Prop :=
  ∃ fuel done, placeMines fuel field = some done ∧ done.mines.card = mineCount

theorem Field.Ends.of_place {field : Field} (ends : field.place.Ends)
    (more : field.placed < mineCount) : field.Ends := by
  obtain ⟨fuel, done, ran, all⟩ := ends
  exact ⟨fuel + 1, done, by rw [placeMines, if_pos more]; exact ran, all⟩

theorem Field.Ends.of_free {field : Field} {missing : ℕ}
    (further : ∀ next : Field, next.mines.card = next.placed → next.placed + missing = mineCount →
      next.Ends)
    (counted : field.mines.card = field.placed) (total : field.placed + (missing + 1) = mineCount)
    (free : cell (nextSeed field.seed) ∉ field.mines) : field.Ends := by
  have found : field.place = ⟨_, insert _ field.mines, field.placed + 1⟩ := if_neg free
  refine .of_place (further _ ?_ ?_) (by omega)
  · rw [found, Finset.card_insert_of_notMem free, counted]
  · rw [found, Nat.add_assoc, Nat.add_comm 1, total]

theorem Field.ends (missing : ℕ) (field : Field) (counted : field.mines.card = field.placed)
    (total : field.placed + missing = mineCount) : field.Ends := by
  induction missing generalizing field with
  | zero => exact ⟨0, field, by rw [placeMines, if_neg (by omega)], by omega⟩
  | succ missing further =>
    obtain ⟨target, free⟩ : ∃ target, target ∉ field.mines := by
      by_contra full
      rw [not_exists_not, ← Finset.eq_univ_iff_forall] at full
      rw [full, Finset.card_fin] at counted
      exact absurd (counted.trans_le (Nat.le.intro total)) (by decide)
    obtain ⟨n, rfl⟩ := exists_cell (nextSeed field.seed) target
    induction n generalizing field with
    | zero => exact .of_free further counted total free
    | succ n hits =>
      by_cases taken : cell (nextSeed field.seed) ∈ field.mines
      · -- the round only advances the generator
        have same : field.place = { field with seed := nextSeed field.seed } := if_pos taken
        rw [iterate_succ_apply] at free
        exact .of_place (same ▸ hits _ counted total free) (by omega)
      · exact .of_free further counted total taken

/-- From every number of ticks the loop ends, with twenty mines. -/
theorem placeMines_ends (ticks : UInt64) : Field.Ends ⟨ticks.toUInt32, ∅, 0⟩ :=
  Field.ends mineCount _ rfl (Nat.zero_add _)

end CantayaOS.Desktop.Minesweeper
