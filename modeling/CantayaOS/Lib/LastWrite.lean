import Mathlib

/-!
# The last write to a place

Items are written one after the other, and each may own the place that is
looked at.  If the owners agree on the value, that value is found in the end.
-/

namespace CantayaOS.Lib

open List

variable {ι β : Type}

/-- What a place holds after the items were written in order. -/
def lastWrite (owns : ι → Prop) [DecidablePred owns] (value : ι → β) (init : β)
    (items : List ι) : β :=
  items.foldl (fun current item => if owns item then value item else current) init

variable {owns : ι → Prop} [DecidablePred owns] {value : ι → β} {init : β} {items : List ι}

theorem lastWrite_cons {item : ι} :
    lastWrite owns value init (item :: items) =
      lastWrite owns value (if owns item then value item else init) items := rfl

theorem lastWrite_of_unowned (unowned : ∀ item ∈ items, ¬ owns item) :
    lastWrite owns value init items = init := by
  induction items with
  | nil => rfl
  | cons item rest ih =>
    rw [lastWrite_cons, if_neg (unowned item (mem_cons_self ..))]
    exact ih fun other member => unowned other (mem_cons_of_mem _ member)

/-- Writing what is there already changes nothing. -/
theorem lastWrite_self (agree : ∀ item ∈ items, owns item → value item = init) :
    lastWrite owns value init items = init := by
  induction items with
  | nil => rfl
  | cons item rest ih =>
    rw [lastWrite_cons, ite_eq_right_iff.mpr (agree item (mem_cons_self ..))]
    exact ih fun other member => agree other (mem_cons_of_mem _ member)

/-- If all owners write the same value, it does not matter which one is the last. -/
theorem lastWrite_of_owner {owner : ι} (member : owner ∈ items) (owned : owns owner)
    (agree : ∀ item ∈ items, owns item → value item = value owner) :
    lastWrite owns value init items = value owner := by
  induction items generalizing init with
  | nil => cases member
  | cons item rest ih =>
    have later := fun other inside => agree other (mem_cons_of_mem item inside)
    rw [lastWrite_cons]
    by_cases here : owns item
    · rw [if_pos here, agree item (mem_cons_self ..) here]
      exact lastWrite_self later
    · refine ih ((mem_cons.mp member).resolve_left ?_) later
      rintro rfl
      exact here owned

end CantayaOS.Lib
