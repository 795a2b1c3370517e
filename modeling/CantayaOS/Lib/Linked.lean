import Mathlib

/-!
# Lists threaded through a successor function

`Linked next head nodes last` says that following `next` from `head` visits
exactly `nodes` and then stands at `last`.  A null-terminated list is the case
`last = none`.
-/

namespace CantayaOS.Lib

open List

variable {α : Type}

/-- Following `next` from `head` visits `nodes` in order and arrives at `last`. -/
def Linked (next : α → Option α) : Option α → List α → Option α → Prop
  | head, [], last => head = last
  | head, node :: rest, last => head = some node ∧ Linked next (next node) rest last

variable {nodes : List α}

namespace Linked

variable {next other : α → Option α} {head last : Option α}

theorem append_iff {first second : List α} :
    Linked next head (first ++ second) last ↔
      ∃ middle, Linked next head first middle ∧ Linked next middle second last := by
  induction first generalizing head with
  | nil =>
    constructor
    · intro linked
      exact ⟨head, rfl, linked⟩
    · rintro ⟨middle, same, linked⟩
      cases same
      exact linked
  | cons node rest ih =>
    constructor
    · rintro ⟨start, linked⟩
      obtain ⟨middle, left, right⟩ := ih.mp linked
      exact ⟨middle, ⟨start, left⟩, right⟩
    · rintro ⟨middle, ⟨start, left⟩, right⟩
      exact ⟨start, ih.mpr ⟨middle, left, right⟩⟩

/-- Only the successors of the visited nodes matter. -/
theorem congr (linked : Linked next head nodes last)
    (agree : ∀ node ∈ nodes, other node = next node) : Linked other head nodes last := by
  induction nodes generalizing head with
  | nil => exact linked
  | cons node rest ih =>
    obtain ⟨start, linked⟩ := linked
    refine ⟨start, ?_⟩
    rw [agree node mem_cons_self]
    exact ih linked fun later member => agree later (mem_cons_of_mem _ member)

/-- A null-terminated list is determined by its head. -/
theorem unique {others : List α} (first : Linked next head nodes none)
    (second : Linked next head others none) : nodes = others := by
  induction nodes generalizing head others with
  | nil =>
    cases others with
    | nil => rfl
    | cons node rest =>
      rw [show head = none from first] at second
      cases second.1
  | cons node rest ih =>
    obtain ⟨start, linked⟩ := first
    subst start
    cases others with
    | nil => cases (show some node = none from second)
    | cons node' rest' =>
      obtain ⟨same, linked'⟩ := second
      cases same
      rw [ih linked linked']

/-- A null-terminated list visits no node twice. -/
theorem nodup (linked : Linked next head nodes none) : nodes.Nodup := by
  induction nodes generalizing head with
  | nil => exact nodup_nil
  | cons node rest ih =>
    obtain ⟨_, linked⟩ := linked
    refine nodup_cons.mpr ⟨?_, ih linked⟩
    intro again
    -- a second visit would make the list from `node` a proper suffix of itself
    obtain ⟨before, after, shape⟩ := append_of_mem again
    have whole : Linked next (some node) (node :: rest) none := ⟨rfl, linked⟩
    have split : Linked next (next node) (before ++ node :: after) none := by
      rw [← shape]
      exact linked
    obtain ⟨middle, _, right⟩ := append_iff.mp split
    have tail : Linked next (some node) (node :: after) none := ⟨rfl, right.2⟩
    have same := congrArg List.length (whole.unique tail)
    have longer := congrArg List.length shape
    simp only [length_cons, length_append] at same longer
    omega

/-- The head of a linked list is its first node, or where it arrives when there is none. -/
theorem head_eq (linked : Linked next head nodes last) : head = nodes.head?.or last := by
  cases nodes with
  | nil => simpa [Linked] using linked
  | cons node rest => simpa using linked.1

end Linked

end CantayaOS.Lib
