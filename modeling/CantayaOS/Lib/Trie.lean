import Mathlib

/-!
# Tries laid out in memory

A trie node owns one memory word per index.  What a word means depends on the
depth of its node: it is empty, a leaf, or a pointer to a node one level down.
The lemmas say what a write to one slot does to every lookup: it changes only
the lookups whose path runs through that slot.
-/

namespace CantayaOS.Lib

open List Option

inductive Slot (Node Leaf : Type) where
  | empty
  | leaf (value : Leaf)
  | node (next : Node)

structure Trie (Addr Word Node Index Leaf : Type) where
  slot : Node → Index → Addr
  decode : Nat → Word → Slot Node Leaf

namespace Trie

variable {Addr Word Node Index Leaf : Type} (trie : Trie Addr Word Node Index Leaf)

def nodeAt (memory : Addr → Word) : Nat → Node → List Index → Option Node
  | _, node, [] => some node
  | depth, node, i :: rest =>
    match trie.decode depth (memory (trie.slot node i)) with
    | .node next => nodeAt memory (depth + 1) next rest
    | .empty | .leaf _ => none

/-- The leaf that a path runs into, with the part of the path behind it. -/
def find (memory : Addr → Word) : Nat → Node → List Index → Option (Leaf × List Index)
  | _, _, [] => none
  | depth, node, i :: rest =>
    match trie.decode depth (memory (trie.slot node i)) with
    | .node next => find memory (depth + 1) next rest
    | .leaf value => some (value, rest)
    | .empty => none

def words (memory : Addr → Word) : Nat → Node → List Index → List Word
  | _, _, [] => []
  | depth, node, i :: rest =>
    memory (trie.slot node i) ::
      match trie.decode depth (memory (trie.slot node i)) with
      | .node next => words memory (depth + 1) next rest
      | .empty | .leaf _ => []

/-- The nodes below a node, each behind the nodes below it, and the node itself last. -/
def postorder (memory : Addr → Word) (indices : Nat → List Index) : Nat → Nat → Node → List Node
  | 0, _, node => [node]
  | levels + 1, depth, node =>
    (indices depth).flatMap (fun i =>
      match trie.decode depth (memory (trie.slot node i)) with
      | .node next => postorder memory indices levels (depth + 1) next
      | .empty | .leaf _ => []) ++ [node]

variable {trie} {memory after : Addr → Word} {depth : Nat} {node root x f : Node} {i : Index}
  {p path : List Index}

theorem nodeAt_append (first second : List Index) :
    trie.nodeAt memory depth node (first ++ second) =
      (trie.nodeAt memory depth node first).bind fun middle =>
        trie.nodeAt memory (depth + first.length) middle second := by
  induction first generalizing depth node with
  | nil => rfl
  | cons i rest ih =>
    simp only [cons_append, nodeAt]
    cases trie.decode depth (memory (trie.slot node i)) with
    | empty => rfl
    | leaf value => rfl
    | node next =>
      simp only [ih, length_cons]
      congr 1
      funext middle
      congr 1
      omega

theorem nodeAt_cons_eq_some {rest : List Index} :
    trie.nodeAt memory depth node (i :: rest) = some x ↔
      ∃ next, trie.decode depth (memory (trie.slot node i)) = .node next ∧
        trie.nodeAt memory (depth + 1) next rest = some x := by
  rw [nodeAt]
  cases trie.decode depth (memory (trie.slot node i)) with
  | empty => simp
  | leaf value => simp
  | node next => simp

/-- A path of at least one index leads to a node that a slot of another node points to. -/
theorem nodeAt_snoc_eq_some {next : Node} :
    trie.nodeAt memory 0 root (p ++ [i]) = some next ↔
      ∃ y, trie.nodeAt memory 0 root p = some y ∧
        trie.decode p.length (memory (trie.slot y i)) = .node next := by
  rw [nodeAt_append, bind_eq_some_iff]
  refine exists_congr fun y => and_congr_right fun _ => ?_
  rw [nodeAt_cons_eq_some, zero_add]
  simp [nodeAt]

theorem find_append {first second : List Index}
    (led : trie.nodeAt memory depth node first = some x) :
    trie.find memory depth node (first ++ second) =
      trie.find memory (depth + first.length) x second := by
  induction first generalizing depth node with
  | nil =>
    cases led
    rfl
  | cons i rest ih =>
    obtain ⟨next, found, led⟩ := nodeAt_cons_eq_some.mp led
    simp only [cons_append, find, found]
    rw [ih led, length_cons]
    congr 1
    omega

/-- A leaf in a slot is what every lookup through the slot finds. -/
theorem find_leaf {value : Leaf} (led : trie.nodeAt memory depth node p = some x)
    (decoded : trie.decode (depth + p.length) (memory (trie.slot x i)) = .leaf value)
    (rest : List Index) : trie.find memory depth node (p ++ i :: rest) = some (value, rest) := by
  rw [find_append led]
  simp only [find, decoded]

/-- A leaf is found before the end of the path. -/
theorem find_rest_lt {found : Leaf × List Index}
    (led : trie.find memory depth node path = some found) : found.2.length < path.length := by
  induction path generalizing depth node with
  | nil => cases led
  | cons i rest ih =>
    simp only [find] at led
    cases slot : trie.decode depth (memory (trie.slot node i)) with
    | empty => simp [slot] at led
    | leaf value =>
      simp only [slot, Option.some.injEq] at led
      simp [← led]
    | node next =>
      simp only [slot] at led
      exact Nat.lt_succ_of_lt (ih led)

/-- A leaf found at the very end of a path sits in the node that the path leads to. -/
theorem nodeAt_of_find_last {value : Leaf}
    (led : trie.find memory depth node (p ++ [i]) = some (value, [])) :
    ∃ y, trie.nodeAt memory depth node p = some y := by
  induction p generalizing depth node with
  | nil => exact ⟨node, rfl⟩
  | cons j rest ih =>
    simp only [cons_append, find, nodeAt] at led ⊢
    cases slot : trie.decode depth (memory (trie.slot node j)) with
    | empty => simp [slot] at led
    | leaf value => simp [slot] at led
    | node next =>
      simp only [slot] at led ⊢
      exact ih led

section

variable (same : ∀ q i rest y, path = q ++ i :: rest →
  trie.nodeAt memory depth node q = some y → after (trie.slot y i) = memory (trie.slot y i))
include same

/-- A path leads to the same node, leaf and words if the slots along it hold the same words. -/
theorem walk_congr :
    trie.nodeAt after depth node path = trie.nodeAt memory depth node path ∧
      trie.find after depth node path = trie.find memory depth node path ∧
      trie.words after depth node path = trie.words memory depth node path := by
  induction path generalizing depth node with
  | nil => exact ⟨rfl, rfl, rfl⟩
  | cons i rest ih =>
    simp only [nodeAt, find, words, same [] i rest node rfl rfl]
    cases found : trie.decode depth (memory (trie.slot node i)) with
    | empty => exact ⟨rfl, rfl, rfl⟩
    | leaf value => exact ⟨rfl, rfl, rfl⟩
    | node next =>
      have along : ∀ q j later y, rest = q ++ j :: later →
          trie.nodeAt memory (depth + 1) next q = some y →
            after (trie.slot y j) = memory (trie.slot y j) := by
        intro q j later y shape led
        apply same (i :: q) j later y (by rw [shape]; rfl)
        simp only [nodeAt, found, led]
      obtain ⟨node, leaf, words⟩ := ih along
      exact ⟨node, leaf, congrArg _ words⟩

end

theorem mem_words {word : Word} :
    word ∈ trie.words memory depth node path ↔
      ∃ q i rest y, path = q ++ i :: rest ∧ trie.nodeAt memory depth node q = some y ∧
        word = memory (trie.slot y i) := by
  induction path generalizing depth node with
  | nil => simp [words]
  | cons i rest ih =>
    simp only [words, mem_cons]
    constructor
    · rintro (rfl | later)
      · exact ⟨[], i, rest, node, rfl, rfl, rfl⟩
      · cases found : trie.decode depth (memory (trie.slot node i)) with
        | empty => simp [found] at later
        | leaf value => simp [found] at later
        | node next =>
          simp only [found] at later
          obtain ⟨q, j, behind, y, shape, led, read⟩ := ih.mp later
          refine ⟨i :: q, j, behind, y, by rw [shape]; rfl, ?_, read⟩
          simp only [nodeAt, found, led]
    · rintro ⟨q, j, behind, y, shape, led, read⟩
      cases q with
      | nil =>
        cases shape
        cases led
        exact .inl read
      | cons k q =>
        cases shape
        obtain ⟨next, found, led⟩ := nodeAt_cons_eq_some.mp led
        simp only [found]
        exact .inr (ih.mpr ⟨q, j, behind, y, rfl, led, read⟩)

/-- A lookup that finds a leaf passes no empty slot. -/
theorem decode_ne_empty {found : Leaf × List Index} {q rest : List Index}
    (led : trie.find memory depth node (q ++ i :: rest) = some found)
    (here : trie.nodeAt memory depth node q = some x) :
    trie.decode (depth + q.length) (memory (trie.slot x i)) ≠ .empty := by
  intro empty
  rw [find_append here] at led
  simp only [find, empty] at led
  cases led

/-- Every slot on the way to a node is a pointer. -/
theorem decode_of_nodeAt {y : Node} {q rest : List Index}
    (led : trie.nodeAt memory depth node (q ++ i :: rest) = some y)
    (here : trie.nodeAt memory depth node q = some x) :
    ∃ next, trie.decode (depth + q.length) (memory (trie.slot x i)) = .node next := by
  rw [nodeAt_append, here] at led
  exact (nodeAt_cons_eq_some.mp led).imp fun _ => And.left

/-- The nodes of a postorder are those that short paths along the given indices lead to. -/
theorem mem_postorder {indices : Nat → List Index} {levels : Nat} :
    x ∈ trie.postorder memory indices levels depth node ↔
      ∃ q, q.length ≤ levels ∧ (∀ k i, q[k]? = some i → i ∈ indices (depth + k)) ∧
        trie.nodeAt memory depth node q = some x := by
  induction levels generalizing depth node with
  | zero =>
    constructor
    · intro member
      cases mem_singleton.mp member
      exact ⟨[], le_rfl, nofun, rfl⟩
    · rintro ⟨q, short, _, led⟩
      cases length_eq_zero_iff.mp (Nat.le_zero.mp short)
      cases led
      exact mem_singleton.mpr rfl
  | succ levels ih =>
    rw [postorder, mem_append, mem_flatMap]
    constructor
    · rintro (⟨i, listed, below⟩ | last)
      · cases found : trie.decode depth (memory (trie.slot node i)) with
        | empty => simp [found] at below
        | leaf value => simp [found] at below
        | node next =>
          simp only [found] at below
          obtain ⟨q, short, inside, led⟩ := ih.mp below
          refine ⟨i :: q, Nat.succ_le_succ short, fun k j at_k => ?_, ?_⟩
          · cases k with
            | zero =>
              cases at_k
              exact listed
            | succ k =>
              have deeper := inside k j at_k
              rwa [add_assoc, add_comm 1 k] at deeper
          · simp only [nodeAt, found, led]
      · cases mem_singleton.mp last
        exact ⟨[], Nat.zero_le _, nofun, rfl⟩
    · rintro ⟨q, short, inside, led⟩
      cases q with
      | nil =>
        cases led
        exact .inr (mem_singleton.mpr rfl)
      | cons i q =>
        obtain ⟨next, found, led⟩ := nodeAt_cons_eq_some.mp led
        refine .inl ⟨i, inside 0 i rfl, ?_⟩
        simp only [found]
        refine ih.mpr ⟨q, Nat.le_of_succ_le_succ short, fun k j at_k => ?_, led⟩
        have deeper := inside (k + 1) j at_k
        rwa [add_assoc, add_comm 1 k]

/-- Where every node is reached along one path only, a postorder lists no node twice. -/
theorem nodup_postorder {indices : Nat → List Index} {levels : Nat}
    (nodup : ∀ depth, (indices depth).Nodup)
    (unique : ∀ ⦃p q x⦄, trie.nodeAt memory depth node p = some x →
      trie.nodeAt memory depth node q = some x → p = q) :
    (trie.postorder memory indices levels depth node).Nodup := by
  induction levels generalizing depth node with
  | zero => exact nodup_singleton _
  | succ levels ih =>
    -- The nodes listed for one index are reached along paths that start with it.
    have through {i : Index} {y : Node}
        (member : y ∈ (match trie.decode depth (memory (trie.slot node i)) with
          | .node next => trie.postorder memory indices levels (depth + 1) next
          | .empty | .leaf _ => [])) :
        ∃ q, trie.nodeAt memory depth node (i :: q) = some y := by
      cases found : trie.decode depth (memory (trie.slot node i)) with
      | empty => simp [found] at member
      | leaf value => simp [found] at member
      | node next =>
        simp only [found] at member
        obtain ⟨q, _, _, led⟩ := mem_postorder.mp member
        exact ⟨q, by simp only [nodeAt, found, led]⟩
    refine nodup_append.mpr ⟨nodup_flatMap.mpr ⟨?_, ?_⟩, nodup_singleton _, ?_⟩
    · intro i _
      cases found : trie.decode depth (memory (trie.slot node i)) with
      | empty => exact nodup_nil
      | leaf value => exact nodup_nil
      | node next =>
        apply ih
        intro p q x left right
        have below (r : List Index) : trie.nodeAt memory depth node (i :: r) =
            trie.nodeAt memory (depth + 1) next r := by
          simp only [nodeAt, found]
        exact tail_eq_of_cons_eq
          (unique ((below p).trans left) ((below q).trans right))
    · refine (nodup depth).imp fun {i j} different y left right => ?_
      obtain ⟨p, leftLed⟩ := through left
      obtain ⟨q, rightLed⟩ := through right
      exact different (head_eq_of_cons_eq (unique leftLed rightLed))
    · intro y below z last same
      cases mem_singleton.mp last
      obtain ⟨i, _, member⟩ := mem_flatMap.mp below
      obtain ⟨q, led⟩ := through member
      cases same
      exact absurd (unique led rfl) (cons_ne_nil _ _)

variable (trie) in
/-- No slot belongs to two places of the trie. -/
def Distinct (memory : Addr → Word) (root : Node) : Prop :=
  ∀ ⦃p q x y i j⦄, trie.nodeAt memory 0 root p = some x → trie.nodeAt memory 0 root q = some y →
    trie.slot x i = trie.slot y j → p = q ∧ i = j

variable (trie) in
/-- The two memories agree on all slots of the trie but slot `i` of the node `x`. -/
def SameBut (memory after : Addr → Word) (root x : Node) (i : Index) : Prop :=
  ∀ ⦃q y j⦄, trie.nodeAt memory 0 root q = some y → trie.slot y j ≠ trie.slot x i →
    after (trie.slot y j) = memory (trie.slot y j)

section Write

variable (distinct : trie.Distinct memory root) (here : trie.nodeAt memory 0 root p = some x)
  (same : trie.SameBut memory after root x i)
include distinct here same

section

variable (elsewhere : ¬ (p ++ [i]) <+: path)
include elsewhere

/-- The slots along a path that avoids the written slot keep their words. -/
theorem slots_elsewhere :
    ∀ q j rest y, path = q ++ j :: rest → trie.nodeAt memory 0 root q = some y →
      after (trie.slot y j) = memory (trie.slot y j) := by
  intro q j rest y shape led
  apply same led
  intro clash
  obtain ⟨rfl, rfl⟩ := distinct led here clash
  apply elsewhere
  rw [shape]
  exact ⟨rest, by simp⟩

theorem nodeAt_elsewhere : trie.nodeAt after 0 root path = trie.nodeAt memory 0 root path :=
  (walk_congr (slots_elsewhere distinct here same elsewhere)).1

theorem find_elsewhere : trie.find after 0 root path = trie.find memory 0 root path :=
  (walk_congr (slots_elsewhere distinct here same elsewhere)).2.1

end

theorem nodeAt_here : trie.nodeAt after 0 root p = some x := by
  rw [nodeAt_elsewhere distinct here same, here]
  intro inside
  have longer := inside.length_le
  rw [length_append, length_singleton] at longer
  omega

/-- Behind the written slot a path goes where the new word points. -/
theorem nodeAt_behind (rest : List Index) :
    trie.nodeAt after 0 root (p ++ i :: rest) = trie.nodeAt after p.length x (i :: rest) := by
  rw [nodeAt_append, nodeAt_here distinct here same, bind_some, zero_add]

theorem find_behind (rest : List Index) :
    trie.find after 0 root (p ++ i :: rest) = trie.find after p.length x (i :: rest) := by
  rw [find_append (nodeAt_here distinct here same), zero_add]

end Write

/-- A path either avoids a slot or runs through it. -/
theorem through_or_avoids (p : List Index) (i : Index) (path : List Index) :
    (∃ rest, path = p ++ i :: rest) ∨ ¬ (p ++ [i]) <+: path := by
  by_cases through : (p ++ [i]) <+: path
  · obtain ⟨rest, shape⟩ := through
    exact .inl ⟨rest, by rw [← shape]; simp⟩
  · exact .inr through

/-- A write that does not touch the nodes: the slot held no pointer and holds none afterwards. -/
structure WritesLeaf (trie : Trie Addr Word Node Index Leaf) (memory after : Addr → Word)
    (root : Node) (p : List Index) (x : Node) (i : Index) : Prop where
  here : trie.nodeAt memory 0 root p = some x
  same : trie.SameBut memory after root x i
  before : ∀ next, trie.decode p.length (memory (trie.slot x i)) ≠ .node next
  behind : ∀ next, trie.decode p.length (after (trie.slot x i)) ≠ .node next

namespace WritesLeaf

theorem nodeAt_eq (distinct : trie.Distinct memory root)
    (writes : trie.WritesLeaf memory after root p x i) (path : List Index) :
    trie.nodeAt after 0 root path = trie.nodeAt memory 0 root path := by
  have ends {words : Addr → Word} (rest : List Index)
      (no : ∀ next, trie.decode p.length (words (trie.slot x i)) ≠ .node next) :
      trie.nodeAt words p.length x (i :: rest) = none := by
    simp only [nodeAt]
    cases found : trie.decode p.length (words (trie.slot x i)) with
    | empty => rfl
    | leaf value => rfl
    | node next => exact absurd found (no next)
  rcases through_or_avoids p i path with ⟨rest, rfl⟩ | elsewhere
  · rw [nodeAt_behind distinct writes.here writes.same, ends rest writes.behind, nodeAt_append,
      writes.here, bind_some, zero_add, ends rest writes.before]
  · exact nodeAt_elsewhere distinct writes.here writes.same elsewhere

end WritesLeaf

/-- A write that makes an empty slot point to a fresh node without entries. -/
structure Installs (trie : Trie Addr Word Node Index Leaf) (memory after : Addr → Word)
    (root : Node) (p : List Index) (x : Node) (i : Index) (f : Node) : Prop where
  here : trie.nodeAt memory 0 root p = some x
  same : trie.SameBut memory after root x i
  vacant : trie.decode p.length (memory (trie.slot x i)) = .empty
  points : trie.decode p.length (after (trie.slot x i)) = .node f
  blank : ∀ j, trie.decode (p.length + 1) (after (trie.slot f j)) = .empty
  fresh : ∀ q y j k, trie.nodeAt memory 0 root q = some y → trie.slot y j ≠ trie.slot f k
  injective : ∀ j k, trie.slot f j = trie.slot f k → j = k

namespace Installs

variable (distinct : trie.Distinct memory root) (installs : trie.Installs memory after root p x i f)
include distinct installs

/-- No lookup notices an installed node. -/
theorem find_eq (path : List Index) :
    trie.find after 0 root path = trie.find memory 0 root path := by
  rcases through_or_avoids p i path with ⟨rest, rfl⟩ | elsewhere
  · rw [find_behind distinct installs.here installs.same, find_append installs.here, zero_add]
    cases rest with
    | nil => simp only [find, installs.points, installs.vacant]
    | cons j rest => simp only [find, installs.points, installs.vacant, installs.blank]
  · exact find_elsewhere distinct installs.here installs.same elsewhere

/-- The nodes afterwards are the nodes before and the installed one. -/
theorem nodeAt_cases (path : List Index) :
    (path = p ++ [i] ∧ trie.nodeAt after 0 root path = some f) ∨
      (path ≠ p ++ [i] ∧ trie.nodeAt after 0 root path = trie.nodeAt memory 0 root path) := by
  rcases through_or_avoids p i path with ⟨rest, rfl⟩ | elsewhere
  · rw [nodeAt_behind distinct installs.here installs.same, nodeAt_append, installs.here,
      bind_some, zero_add]
    cases rest with
    | nil =>
      refine Or.inl ⟨rfl, ?_⟩
      simp only [nodeAt, installs.points]
    | cons j rest =>
      refine Or.inr ⟨by simp, ?_⟩
      simp only [nodeAt, installs.points, installs.vacant, installs.blank]
  · refine Or.inr ⟨?_, nodeAt_elsewhere distinct installs.here installs.same elsewhere⟩
    rintro rfl
    exact elsewhere (prefix_refl _)

theorem nodeAt_new : trie.nodeAt after 0 root (p ++ [i]) = some f := by
  rcases installs.nodeAt_cases distinct (p ++ [i]) with ⟨_, led⟩ | ⟨other, _⟩
  · exact led
  · exact absurd rfl other

theorem nodeAt_inv {q : List Index} {y : Node} (led : trie.nodeAt after 0 root q = some y) :
    trie.nodeAt memory 0 root q = some y ∨ (q = p ++ [i] ∧ y = f) := by
  rcases installs.nodeAt_cases distinct q with ⟨shape, new⟩ | ⟨_, old⟩
  · rw [new] at led
    exact .inr ⟨shape, (Option.some.inj led).symm⟩
  · rw [old] at led
    exact .inl led

end Installs

variable (trie) in
/-- Every word that points to a node is as `good` says for that node. -/
def Pointers (good : Node → Word → Prop) (memory : Addr → Word) (root : Node) : Prop :=
  ∀ ⦃q y j next⦄, trie.nodeAt memory 0 root q = some y →
    trie.decode q.length (memory (trie.slot y j)) = .node next → good next (memory (trie.slot y j))

theorem Pointers.writeLeaf {good : Node → Word → Prop} (pointers : trie.Pointers good memory root)
    (distinct : trie.Distinct memory root) (writes : trie.WritesLeaf memory after root p x i) :
    trie.Pointers good after root := by
  intro q y j next led points
  rw [writes.nodeAt_eq distinct] at led
  by_cases same : trie.slot y j = trie.slot x i
  · obtain ⟨rfl, rfl⟩ := distinct led writes.here same
    exact absurd (same ▸ points) (writes.behind next)
  · rw [writes.same led same] at points ⊢
    exact pointers led points

theorem Pointers.install {good : Node → Word → Prop} (pointers : trie.Pointers good memory root)
    (distinct : trie.Distinct memory root) (installs : trie.Installs memory after root p x i f)
    (new : good f (after (trie.slot x i))) : trie.Pointers good after root := by
  intro q y j next led points
  rcases installs.nodeAt_inv distinct led with old | ⟨rfl, rfl⟩
  · by_cases same : trie.slot y j = trie.slot x i
    · obtain ⟨rfl, rfl⟩ := distinct old installs.here same
      rw [same, installs.points] at points
      cases points
      rw [same]
      exact new
    · rw [installs.same old same] at points ⊢
      exact pointers old points
  · rw [length_append, length_singleton, installs.blank] at points
    cases points

end Trie

end CantayaOS.Lib
