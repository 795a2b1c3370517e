/-!
# Walking along paths

Nodes have named children, and a path is a list of moves: stay, go up, or go
down to a child.  A walk keeps the trail of the nodes it came through, so that
a move up leads back to the node before; at the root it stays there.  A jump
keeps the current node only, and a move up leads to the root.
-/

namespace CantayaOS.Lib.Path

open List Option

inductive Move (Name : Type) where
  | stay
  | up
  | down (name : Name)
  deriving DecidableEq, Repr

section

variable {Node Name : Type} (child : Node → Name → Option Node) (root : Node)

/-- Walk along the moves; the trail holds the nodes below the root, the last one first. -/
def walk : List Node → List (Move Name) → Option (List Node)
  | trail, [] => some trail
  | trail, .stay :: rest => walk trail rest
  | trail, .up :: rest => walk trail.tail rest
  | trail, .down name :: rest =>
    (child (trail.headD root) name).bind fun node => walk (node :: trail) rest

def visits : List Node → List (Move Name) → List Node
  | _, [] => []
  | trail, .stay :: rest => visits trail rest
  | trail, .up :: rest => visits trail.tail rest
  | trail, .down name :: rest =>
    match child (trail.headD root) name with
    | none => []
    | some node => node :: visits (node :: trail) rest

def jump : Node → List (Move Name) → Option Node
  | node, [] => some node
  | node, .stay :: rest => jump node rest
  | _, .up :: rest => jump root rest
  | node, .down name :: rest => (child node name).bind fun next => jump next rest

end

variable {Node Name : Type} {child child' : Node → Name → Option Node} {root : Node}

def depth : Nat → List (Move Name) → Nat
  | deep, [] => deep
  | deep, .stay :: rest => depth deep rest
  | deep, .up :: rest => depth (deep - 1) rest
  | deep, .down _ :: rest => depth (deep + 1) rest

/--
Between a move up and the next move down the walk is back at the root.  The
flag says whether this holds so far.
-/
def climbsToRoot : Nat → Bool → List (Move Name) → Bool
  | _, _, [] => true
  | deep, level, .stay :: rest => climbsToRoot deep level rest
  | deep, _, .up :: rest => climbsToRoot (deep - 1) (deep - 1 == 0) rest
  | deep, level, .down _ :: rest => level && climbsToRoot (deep + 1) true rest

variable {trail last : List Node} {moves : List (Move Name)} {Good : Node → Prop}

theorem walk_append (trail : List Node) (moves more : List (Move Name)) :
    walk child root trail (moves ++ more) =
      (walk child root trail moves).bind fun trail => walk child root trail more := by
  induction moves generalizing trail with
  | nil => rfl
  | cons move rest ih =>
    cases move with
    | stay => exact ih trail
    | up => exact ih trail.tail
    | down name =>
      simp only [cons_append, walk, bind_assoc, ih]

theorem length_walk
    (walked : walk child root trail moves = some last) : last.length = depth trail.length moves := by
  induction moves generalizing trail with
  | nil =>
    cases walked
    rfl
  | cons move rest ih =>
    cases move with
    | stay => exact ih walked
    | up =>
      rw [ih walked, length_tail]
      rfl
    | down name =>
      obtain ⟨node, _, walked⟩ := bind_eq_some_iff.mp walked
      exact ih walked

theorem headD_holds (atRoot : Good root)
    (start : ∀ node ∈ trail, Good node) : Good (trail.headD root) := by
  cases trail with
  | nil => exact atRoot
  | cons node rest => exact start node (.head _)

section

variable (walked : walk child root trail moves = some last) (atRoot : Good root)
  (start : ∀ node ∈ trail, Good node)
include walked atRoot start

/-- What the root and its children satisfy holds at the end of every walk. -/
theorem walk_holds (below : ∀ node name next, Good node → child node name = some next → Good next) :
    Good (last.headD root) := by
  induction moves generalizing trail with
  | nil =>
    cases walked
    exact headD_holds atRoot start
  | cons move rest ih =>
    cases move with
    | stay => exact ih walked start
    | up => exact ih walked fun node member => start node (mem_of_mem_tail member)
    | down name =>
      obtain ⟨node, found, walked⟩ := bind_eq_some_iff.mp walked
      have here := headD_holds atRoot start
      refine ih walked fun other member => ?_
      rcases mem_cons.mp member with rfl | later
      · exact below _ name _ here found
      · exact start other later

/-- A walk goes the same way when the children that it goes down to are still found. -/
theorem walk_stable
    (kept : ∀ node name next, Good node → child node name = some next →
      next ∈ visits child root trail moves → child' node name = some next ∧ Good next) :
    walk child' root trail moves = some last := by
  induction moves generalizing trail with
  | nil => exact walked
  | cons move rest ih =>
    cases move with
    | stay => exact ih walked start kept
    | up => exact ih walked (fun node member => start node (mem_of_mem_tail member)) kept
    | down name =>
      obtain ⟨node, found, walked⟩ := bind_eq_some_iff.mp walked
      have here := headD_holds atRoot start
      have entered : visits child root trail (.down name :: rest) =
          node :: visits child root (node :: trail) rest := by
        simp only [visits, found]
      rw [entered] at kept
      obtain ⟨found', good⟩ := kept _ name node here found (.head _)
      rw [walk, found']
      refine ih walked (fun other member => ?_) fun other label next good found later =>
        kept other label next good found (mem_cons_of_mem _ later)
      rcases mem_cons.mp member with rfl | later
      · exact good
      · exact start other later

end

variable {last node : Node}

/-- Before a last move down, a jump is where the walk is if moves up lead back to the root. -/
theorem walk_of_jump {name : Name} {level : Bool} (jumped : jump child root node moves = some last)
    (climbs : climbsToRoot trail.length level (moves ++ [.down name]) = true)
    (together : level = true → node = trail.headD root) :
    ∃ trail', walk child root trail moves = some trail' ∧ trail'.headD root = last := by
  induction moves generalizing trail node level with
  | nil =>
    cases jumped
    refine ⟨trail, rfl, (together ?_).symm⟩
    exact (Bool.and_eq_true_iff.mp climbs).1
  | cons move rest ih =>
    cases move with
    | stay => exact ih jumped climbs together
    | up =>
      rw [cons_append, climbsToRoot, ← length_tail] at climbs
      refine ih jumped climbs fun atRoot => ?_
      rw [eq_nil_of_length_eq_zero (beq_iff_eq.mp atRoot)]
      rfl
    | down label =>
      obtain ⟨next, found, jumped⟩ := bind_eq_some_iff.mp jumped
      obtain ⟨level, climbs⟩ := Bool.and_eq_true_iff.mp climbs
      rw [together level] at found
      have behind : climbsToRoot (next :: trail).length true (rest ++ [.down name]) = true :=
        climbs
      obtain ⟨trail', walked, top⟩ := ih jumped behind fun _ => rfl
      refine ⟨trail', ?_, top⟩
      rw [walk, found]
      exact walked

/-- What the start, the root and their children satisfy holds at the end of every jump. -/
theorem jump_holds
    (jumped : jump child root node moves = some last) (atRoot : Good root) (start : Good node)
    (below : ∀ node name next, Good node → child node name = some next → Good next) :
    Good last := by
  induction moves generalizing node with
  | nil =>
    cases jumped
    exact start
  | cons move rest ih =>
    cases move with
    | stay => exact ih jumped start
    | up => exact ih jumped atRoot
    | down name =>
      obtain ⟨next, found, jumped⟩ := bind_eq_some_iff.mp jumped
      exact ih jumped (below node name next start found)

end CantayaOS.Lib.Path
