import Mathlib

/-!
# Computations that may panic

State-passing programs whose operations can panic, and whose unbounded loops
run on fuel.  A program ends with an outcome if every large enough amount of
fuel gives that outcome.
-/

namespace CantayaOS.Lib

inductive Fault where
  | panic
  | outOfFuel
  deriving DecidableEq, Repr

/-- A program on a state that may end in a fault. -/
abbrev Checked (σ α : Type) : Type := StateT σ (Except Fault) α

namespace Checked

variable {σ α β : Type}

@[simp] theorem ok_bind (a : α) (rest : α → Except Fault β) : (Except.ok a >>= rest) = rest a := rfl

theorem bind_get (rest : σ → Checked σ β) (state : σ) :
    ((get : Checked σ σ) >>= rest) state = rest state state := rfl

theorem bind_modify (change : σ → σ) (rest : PUnit → Checked σ β) (state : σ) :
    ((modify change : Checked σ PUnit) >>= rest) state = rest ⟨⟩ (change state) := rfl

theorem bind_of_ok {program : Checked σ α} {state after : σ} {a : α}
    (computed : program state = .ok (a, after)) (rest : α → Checked σ β) :
    (program >>= rest) state = rest a after := by
  change (program state >>= fun result => rest result.1 result.2) = _
  rw [computed]
  rfl

theorem bind_of_error {program : Checked σ α} {state : σ} {fault : Fault}
    (failed : program state = .error fault) (rest : α → Checked σ β) :
    (program >>= rest) state = .error fault := by
  change (program state >>= fun result => rest result.1 result.2) = _
  rw [failed]
  rfl

theorem bind_lift_ok {outcome : Except Fault α} {a : α} (computed : outcome = .ok a)
    (rest : α → Checked σ β) (state : σ) :
    ((liftM outcome : Checked σ α) >>= rest) state = rest a state := by
  subst computed
  rfl

theorem bind_lift_error {outcome : Except Fault α} {fault : Fault}
    (computed : outcome = .error fault) (rest : α → Checked σ β) (state : σ) :
    ((liftM outcome : Checked σ α) >>= rest) state = .error fault := by
  subst computed
  rfl

/-- Given enough fuel, the program ends with the outcome. -/
def Ends (program : Nat → Checked σ α) (state : σ) (outcome : Except Fault (α × σ)) : Prop :=
  ∃ enough, ∀ fuel, enough ≤ fuel → program fuel state = outcome

namespace Ends

variable {program : Nat → Checked σ α} {state : σ} {outcome : Except Fault (α × σ)}

theorem of_eq (computed : ∀ fuel, program fuel state = outcome) : Ends program state outcome :=
  ⟨0, fun fuel _ => computed fuel⟩

theorem pure (a : α) (state : σ) : Ends (fun _ => Pure.pure a) state (.ok (a, state)) :=
  of_eq fun _ => rfl

/-- A program that goes on as another one from another state. -/
theorem congr {other : Nat → Checked σ α} {later : σ} (ends : Ends other later outcome)
    (same : ∀ fuel, program fuel state = other fuel later) : Ends program state outcome := by
  obtain ⟨enough, ends⟩ := ends
  exact ⟨enough, fun fuel large => (same fuel).trans (ends fuel large)⟩

theorem unique {other : Except Fault (α × σ)} (first : Ends program state outcome)
    (second : Ends program state other) : outcome = other := by
  obtain ⟨enough, ends⟩ := first
  obtain ⟨enough', ends'⟩ := second
  rw [← ends (max enough enough') (le_max_left ..), ends' _ (le_max_right ..)]

theorem bind {rest : Nat → α → Checked σ β} {a : α} {middle : σ}
    {last : Except Fault (β × σ)} (first : Ends program state (.ok (a, middle)))
    (second : Ends (fun fuel => rest fuel a) middle last) :
    Ends (fun fuel => program fuel >>= rest fuel) state last := by
  obtain ⟨enough, ends⟩ := first
  obtain ⟨enough', ends'⟩ := second
  refine ⟨max enough enough', fun fuel large => ?_⟩
  change (program fuel >>= rest fuel) state = last
  rw [bind_of_ok (ends fuel (le_trans (le_max_left ..) large))]
  exact ends' fuel (le_trans (le_max_right ..) large)

/-- A program whose result is not used. -/
theorem andThen {rest : Nat → Checked σ β} {a : α} {middle : σ} {last : Except Fault (β × σ)}
    (first : Ends program state (.ok (a, middle))) (second : Ends rest middle last) :
    Ends (fun fuel => program fuel >>= fun _ => rest fuel) state last :=
  first.bind second

end Ends

end Checked

end CantayaOS.Lib
