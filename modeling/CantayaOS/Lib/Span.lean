import Mathlib

/-!
# Address spans and how often they cover an address

A span is a half-open address range.  Counting the spans of a list that contain
an address turns splitting, merging and moving of spans into arithmetic: a
list of spans tiles a region when every address of the region is counted once.
-/

namespace CantayaOS.Lib

open Span Finset

/-- The half-open range `[base, base + size)`. -/
structure Span where
  base : Nat
  size : Nat
  deriving DecidableEq, Repr

variable {spans : List Span}

variable {high low x : Nat} {first second : Span}

namespace Span

def stop (span : Span) : Nat := span.base + span.size

def Contains (span : Span) (x : Nat) : Prop := span.base ≤ x ∧ x < span.stop

instance (span : Span) (x : Nat) : Decidable (span.Contains x) :=
  inferInstanceAs (Decidable (_ ∧ _))

def Apart (first second : Span) : Prop := ∀ x, first.Contains x → ¬ second.Contains x

/-- How many spans of the list contain the address. -/
def cover (spans : List Span) (x : Nat) : Nat := spans.countP fun span => decide (span.Contains x)

@[simp] theorem cover_nil (x : Nat) : cover [] x = 0 := rfl

theorem cover_cons (span : Span) (spans : List Span) (x : Nat) :
    cover (span :: spans) x = (if span.Contains x then 1 else 0) + cover spans x := by
  unfold cover
  by_cases inside : span.Contains x
  · simp [inside, add_comm]
  · simp [inside]

@[simp] theorem cover_append (first second : List Span) (x : Nat) :
    cover (first ++ second) x = cover first x + cover second x :=
  List.countP_append

theorem cover_perm {first second : List Span} (same : first.Perm second) (x : Nat) :
    cover first x = cover second x :=
  same.countP_eq _

theorem cover_pos {span : Span} (member : span ∈ spans)
    (inside : span.Contains x) : 0 < cover spans x :=
  List.countP_pos_iff.mpr ⟨span, member, by simpa using inside⟩

theorem exists_of_cover_pos (covered : 0 < cover spans x) : ∃ span ∈ spans, span.Contains x := by
  obtain ⟨span, member, inside⟩ := List.countP_pos_iff.mp covered
  exact ⟨span, member, by simpa using inside⟩

/-- Two touching spans count like their union. -/
theorem cover_merge (base first second : Nat) (spans : List Span) (x : Nat) :
    cover (⟨base, first + second⟩ :: spans) x =
      cover (⟨base, first⟩ :: ⟨base + first, second⟩ :: spans) x := by
  have whole : (mk base (first + second)).Contains x ↔
      (mk base first).Contains x ∨ (mk (base + first) second).Contains x := by
    simp only [Contains, stop]
    omega
  have exclusive : (mk base first).Contains x →
      ¬ (mk (base + first) second).Contains x := by
    simp only [Contains, stop]
    omega
  rw [cover_cons, cover_cons, cover_cons]
  by_cases left : (mk base first).Contains x
  · rw [if_pos (whole.mpr (.inl left)), if_pos left, if_neg (exclusive left), zero_add]
  by_cases right : (mk (base + first) second).Contains x
  · rw [if_pos (whole.mpr (.inr right)), if_neg left, if_pos right, zero_add]
  · have outside : ¬ (mk base (first + second)).Contains x := by
      rw [whole]
      exact not_or_intro left right
    rw [if_neg outside, if_neg left, if_neg right, zero_add, zero_add]

/-- Spans of a list that covers no address twice lie pairwise apart. -/
theorem pairwise_apart (once : ∀ x, cover spans x ≤ 1) : spans.Pairwise Apart := by
  induction spans with
  | nil => exact List.Pairwise.nil
  | cons span rest ih =>
    refine List.Pairwise.cons ?_ (ih fun x => ?_)
    · intro other member x inside both
      have bound := once x
      have more := cover_pos member both
      rw [cover_cons, if_pos inside] at bound
      omega
    · have bound := once x
      rw [cover_cons] at bound
      omega

theorem Apart.symm (apart : first.Apart second) : second.Apart first :=
  fun x inside both => apart x both inside

instance : Std.Symm Apart := ⟨fun _ _ apart => apart.symm⟩

/-- Nonempty spans that lie apart are ordered one way or the other. -/
theorem Apart.ordered (apart : first.Apart second)
    (firstNonempty : 0 < first.size) (secondNonempty : 0 < second.size) :
    first.stop ≤ second.base ∨ second.stop ≤ first.base := by
  by_contra overlap
  have left := apart first.base
  have right := apart second.base
  simp only [Contains, stop] at left right overlap
  omega

/-- Counting every address of a range that holds all spans adds up their sizes. -/
theorem sum_cover (inside : ∀ span ∈ spans, low ≤ span.base ∧ span.stop ≤ high) :
    ∑ x ∈ Finset.Ico low high, cover spans x = (spans.map size).sum := by
  induction spans with
  | nil => simp
  | cons span rest ih =>
    obtain ⟨here, later⟩ := List.forall_mem_cons.mp inside
    have own : (Finset.Ico low high).filter span.Contains = Finset.Ico span.base span.stop := by
      ext x
      simp only [mem_filter, mem_Ico, Contains]
      omega
    simp only [cover_cons, sum_add_distrib, ih later, List.map_cons, List.sum_cons]
    rw [← card_filter, own, Nat.card_Ico, stop, Nat.add_sub_cancel_left]

/-- Spans in a range that cover no address twice are together no larger than the range. -/
theorem sum_size_le (inside : ∀ span ∈ spans, low ≤ span.base ∧ span.stop ≤ high)
    (once : ∀ x, cover spans x ≤ 1) : (spans.map size).sum ≤ high - low := by
  calc (spans.map size).sum = ∑ x ∈ Finset.Ico low high, cover spans x :=
        (sum_cover inside).symm
    _ ≤ ∑ _ ∈ Finset.Ico low high, 1 := sum_le_sum fun x _ => once x
    _ = high - low := by rw [← card_eq_sum_ones, Nat.card_Ico]

end Span

end CantayaOS.Lib
