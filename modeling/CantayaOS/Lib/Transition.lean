/-!
# Runs of a partial transition function

A system is a partial step function: `step state event` is `none` when the
event cannot happen in that state.  A run feeds a finite list of events to it.
The induction over a run is packaged here once, with a side condition that
each step may be asked to meet.
-/

namespace CantayaOS.Lib.Transition

variable {State Event : Type}

/-- Feed the events to the step function from left to right. -/
def run (step : State → Event → Option State) : State → List Event → Option State
  | state, [] => some state
  | state, event :: rest => (step state event).bind fun next => run step next rest

/-- Every step that the run takes meets the condition `ok` in the state before it. -/
def Meets (step : State → Event → Option State) (ok : State → Event → Prop) :
    State → List Event → Prop
  | _, [] => True
  | state, event :: rest =>
    ok state event ∧ ∀ next, step state event = some next → Meets step ok next rest

instance decidableMeets (step : State → Event → Option State) (ok : State → Event → Prop)
    [∀ state event, Decidable (ok state event)] :
    ∀ state events, Decidable (Meets step ok state events)
  | _, [] => isTrue trivial
  | state, event :: rest =>
    have : Decidable (∀ next, step state event = some next → Meets step ok next rest) :=
      match step state event with
      | none => isTrue nofun
      | some next =>
        have := decidableMeets step ok next rest
        decidable_of_iff (Meets step ok next rest)
          ⟨fun meets _ same => Option.some.inj same ▸ meets, fun all => all next rfl⟩
    inferInstanceAs (Decidable (_ ∧ _))

variable {step : State → Event → Option State} {ok ok' : State → Event → Prop}
  {Inv holds : State → Prop} {events rest : List Event} {event : Event} {state final : State}

@[simp] theorem run_nil (step : State → Event → Option State) (state : State) :
    run step state [] = some state := rfl

/-- A condition on the events alone is met by every run over events that satisfy it. -/
theorem meets_of_forall (always : ∀ event ∈ events, ∀ state, ok state event) (state : State) :
    Meets step ok state events := by
  induction events generalizing state with
  | nil => trivial
  | cons event rest ih =>
    refine ⟨always event List.mem_cons_self state, fun next _ => ih ?_ next⟩
    intro later member
    exact always later (List.mem_cons_of_mem _ member)

/-- Two conditions that a run meets are met together. -/
theorem Meets.and (first : Meets step ok state events) (second : Meets step ok' state events) :
    Meets step (fun state event => ok state event ∧ ok' state event) state events := by
  induction events generalizing state with
  | nil => trivial
  | cons event rest ih =>
    exact ⟨⟨first.1, second.1⟩, fun next stepped => ih (first.2 next stepped) (second.2 next stepped)⟩

/-- A nonempty run splits into its first step and the run that follows it. -/
theorem run_cons_eq_some (reached : run step state (event :: rest) = some final) :
    ∃ next, step state event = some next ∧ run step next rest = some final :=
  Option.bind_eq_some_iff.mp reached

/-- A run that meets a condition on every step preserves what each such step preserves. -/
theorem run_preserves
    (preserved : ∀ state event next, Inv state → ok state event →
      step state event = some next → Inv next)
    (initial : Inv state) (meets : Meets step ok state events)
    (reached : run step state events = some final) :
    Inv final := by
  induction events generalizing state with
  | nil =>
    cases reached
    exact initial
  | cons event rest ih =>
    obtain ⟨next, stepped, later⟩ := run_cons_eq_some reached
    exact ih (preserved state event next initial meets.1 stepped) (meets.2 next stepped) later

/-- A run whose steps all meet a condition goes through when each such step does. -/
theorem run_total
    (progress : ∀ state event, Inv state → ok state event →
      ∃ next, step state event = some next ∧ Inv next)
    (initial : Inv state) (meets : Meets step ok state events) :
    ∃ final, run step state events = some final ∧ Inv final := by
  induction events generalizing state with
  | nil => exact ⟨state, rfl, initial⟩
  | cons event rest ih =>
    obtain ⟨next, stepped, holds⟩ := progress state event initial meets.1
    obtain ⟨final, reached, holds⟩ := ih holds (meets.2 next stepped)
    refine ⟨final, ?_, holds⟩
    rw [run, stepped]
    exact reached

/-- The unconditional rule: a property that every step preserves holds after every run. -/
theorem run_invariant
    (preserved : ∀ state event next, Inv state → step state event = some next → Inv next)
    (initial : Inv state) (reached : run step state events = some final) : Inv final :=
  run_preserves (fun state event next before _ => preserved state event next before) initial
    (meets_of_forall (fun _ _ _ => trivial) state) reached

/-- Every state that the run goes through, the first one included, has the property. -/
def Throughout (step : State → Event → Option State) (holds : State → Prop) :
    State → List Event → Prop
  | state, [] => holds state
  | state, event :: rest =>
    holds state ∧ ∀ next, step state event = some next → Throughout step holds next rest

theorem Throughout.last (all : Throughout step holds state events)
    (reached : run step state events = some final) : holds final := by
  induction events generalizing state with
  | nil =>
    cases reached
    exact all
  | cons event rest ih =>
    obtain ⟨next, stepped, later⟩ := run_cons_eq_some reached
    exact ih (all.2 next stepped) later

/-- When the steps within a scope keep a property exactly if they meet a condition, a run
within the scope has the property throughout exactly if all its steps meet the condition. -/
theorem throughout_iff_meets_within {scope : State → Event → Prop}
    (preserved : ∀ state event next, Inv state → scope state event →
      step state event = some next → Inv next)
    (exact : ∀ state event, Inv state → scope state event → holds state →
      (ok state event ↔ ∀ next, step state event = some next → holds next))
    (within : Meets step scope state events) (invariant : Inv state) (initial : holds state) :
    Throughout step holds state events ↔ Meets step ok state events := by
  induction events generalizing state with
  | nil => exact iff_of_true initial trivial
  | cons event rest ih =>
    rw [Meets, exact state event invariant within.1 initial]
    have tail (next : State) (stepped : step state event = some next) (kept : holds next) :=
      ih (within.2 next stepped) (preserved state event next invariant within.1 stepped) kept
    constructor
    · rintro ⟨-, later⟩
      have kept : ∀ next, step state event = some next → holds next := by
        intro next stepped
        have first := later next stepped
        cases rest with
        | nil => exact first
        | cons => exact first.1
      exact ⟨kept, fun next stepped =>
        (tail next stepped (kept next stepped)).mp (later next stepped)⟩
    · rintro ⟨kept, later⟩
      exact ⟨initial, fun next stepped =>
        (tail next stepped (kept next stepped)).mpr (later next stepped)⟩

/-- The same for runs without a scope. -/
theorem throughout_iff_meets
    (preserved : ∀ state event next, Inv state → step state event = some next → Inv next)
    (exact : ∀ state event, Inv state → holds state →
      (ok state event ↔ ∀ next, step state event = some next → holds next))
    (invariant : Inv state) (initial : holds state) :
    Throughout step holds state events ↔ Meets step ok state events :=
  throughout_iff_meets_within (fun state event next before _ => preserved state event next before)
    (fun state event before _ => exact state event before)
    (meets_of_forall (fun _ _ _ => trivial) state) invariant initial

end CantayaOS.Lib.Transition
