import Mathlib

/-!
# Computations with a log

A computation leaves a log of its actions, also when it stops before its end.
The rules below take apart what holds of every action of a sequence and of
every reason for which the sequence can stop.
-/

namespace CantayaOS.Lib

open List

/-- The actions of a computation and its value, or the reason why it stopped. -/
structure Logged (Action Stop α : Type) where
  log : List Action
  outcome : Except Stop α

namespace Logged

variable {Action Stop α β : Type}

/-- One computation after the other; the second is not reached if the first one stops. -/
protected def bind (run : Logged Action Stop α) (next : α → Logged Action Stop β) :
    Logged Action Stop β :=
  match run.outcome with
  | .ok value => ⟨run.log ++ (next value).log, (next value).outcome⟩
  | .error reason => ⟨run.log, .error reason⟩

instance : Monad (Logged Action Stop) where
  pure value := ⟨[], .ok value⟩
  bind := Logged.bind

def act (action : Action) : Logged Action Stop Unit := ⟨[action], .ok ()⟩

def stop (reason : Stop) : Logged Action Stop α := ⟨[], .error reason⟩

def ensure (condition : Prop) [Decidable condition] (reason : Stop) : Logged Action Stop Unit :=
  if condition then pure () else stop reason

def All (good : Action → Prop) (run : Logged Action Stop α) : Prop := ∀ action ∈ run.log, good action

/-- The computation stops for allowed reasons only. -/
def StopsOnly (allowed : Stop → Prop) (run : Logged Action Stop α) : Prop :=
  ∀ reason, run.outcome = .error reason → allowed reason

variable {good : Action → Prop} {allowed : Stop → Prop} {run : Logged Action Stop α}
  {next : α → Logged Action Stop β} {value : α}

theorem bind_of_ok (ended : run.outcome = .ok value) :
    run >>= next = ⟨run.log ++ (next value).log, (next value).outcome⟩ := by
  change Logged.bind run next = _
  unfold Logged.bind
  rw [ended]

variable {reason : Stop}

theorem bind_of_error (stopped : run.outcome = .error reason) :
    run >>= next = ⟨run.log, .error reason⟩ := by
  change Logged.bind run next = _
  unfold Logged.bind
  rw [stopped]

@[simp] theorem all_pure : (pure value : Logged Action Stop α).All good := by
  intro action member
  cases member

theorem all_bind_of_ok (ended : run.outcome = .ok value) :
    (run >>= next).All good ↔ run.All good ∧ (next value).All good := by
  rw [bind_of_ok ended]
  simp only [All, mem_append, or_imp, forall_and]

theorem all_bind_of_error (stopped : run.outcome = .error reason) :
    (run >>= next).All good ↔ run.All good := by
  rw [bind_of_error stopped]
  exact .rfl

theorem all_bind (first : run.All good) (later : ∀ value, (next value).All good) :
    (run >>= next).All good := by
  cases ended : run.outcome with
  | ok value => exact (all_bind_of_ok ended).mpr ⟨first, later value⟩
  | error reason => exact (all_bind_of_error ended).mpr first

theorem all_of_all_bind (whole : (run >>= next).All good) : run.All good := by
  cases ended : run.outcome with
  | ok value => exact ((all_bind_of_ok ended).mp whole).1
  | error reason => exact (all_bind_of_error ended).mp whole

@[simp] theorem all_act_bind {action : Action} {next : Unit → Logged Action Stop β} :
    (act action >>= next).All good ↔ good action ∧ (next ()).All good := by
  rw [all_bind_of_ok rfl]
  simp [All, act]

@[simp] theorem all_ensure_bind {condition : Prop} [Decidable condition]
    {next : Unit → Logged Action Stop β} :
    (ensure condition reason >>= next).All good ↔ (condition → (next ()).All good) := by
  unfold ensure
  split
  next holds =>
    rw [all_bind_of_ok rfl]
    simp [holds]
  next fails =>
    rw [all_bind_of_error rfl]
    simp [fails, All, stop]

theorem stopsOnly_bind_of_ok (ended : run.outcome = .ok value) :
    (run >>= next).StopsOnly allowed ↔ (next value).StopsOnly allowed := by
  rw [bind_of_ok ended]
  exact .rfl

theorem stopsOnly_of_bind (whole : (run >>= next).StopsOnly allowed) : run.StopsOnly allowed := by
  intro reason stopped
  apply whole reason
  rw [bind_of_error stopped]

@[simp] theorem stopsOnly_act_bind {action : Action} {next : Unit → Logged Action Stop β} :
    (act action >>= next).StopsOnly allowed ↔ (next ()).StopsOnly allowed :=
  stopsOnly_bind_of_ok rfl

/-- A condition whose failure is not allowed holds. -/
theorem stopsOnly_ensure_bind {condition : Prop} [Decidable condition]
    {next : Unit → Logged Action Stop β} (forbidden : ¬ allowed reason) :
    (ensure condition reason >>= next).StopsOnly allowed ↔
      condition ∧ (next ()).StopsOnly allowed := by
  unfold ensure
  split
  next holds =>
    rw [stopsOnly_bind_of_ok rfl]
    simp [holds]
  next fails =>
    rw [bind_of_error rfl]
    simp [fails, StopsOnly, forbidden]

theorem outcome_bind_of_ok (ended : run.outcome = .ok value) :
    (run >>= next).outcome = (next value).outcome := by
  rw [bind_of_ok ended]

@[simp] theorem outcome_act_bind {action : Action} {next : Unit → Logged Action Stop β} :
    (act action >>= next).outcome = (next ()).outcome := rfl

theorem outcome_ensure_bind {condition : Prop} [Decidable condition]
    {next : Unit → Logged Action Stop β} (holds : condition) :
    (ensure condition reason >>= next).outcome = (next ()).outcome := by
  unfold ensure
  rw [if_pos holds]
  rfl

section Loops

variable {ι : Type} {step : β → ι → Logged Action Stop β} {items : List ι} {init : β}

/-- The actions of a loop are good exactly if every round meets the condition that makes its own so. -/
theorem all_foldlM_iff {condition : ι → Prop}
    (each : ∀ state, ∀ item ∈ items, (step state item).StopsOnly allowed →
      ((step state item).All good ↔ condition item))
    (ends : ∀ state, ∀ item ∈ items, (step state item).StopsOnly allowed →
      (step state item).All good → ∃ next, (step state item).outcome = .ok next)
    (passes : (items.foldlM step init).StopsOnly allowed) :
    (items.foldlM step init).All good ↔ ∀ item ∈ items, condition item := by
  induction items generalizing init with
  | nil => simp
  | cons item rest ih =>
    rw [foldlM_cons] at passes ⊢
    have here := each init item (mem_cons_self ..) (stopsOnly_of_bind passes)
    have ended := ends init item (mem_cons_self ..) (stopsOnly_of_bind passes)
    rw [forall_mem_cons, ← here]
    cases result : (step init item).outcome with
    | ok next =>
      rw [all_bind_of_ok result, ih (fun state other member => each state other
        (mem_cons_of_mem _ member)) (fun state other member => ends state other
        (mem_cons_of_mem _ member)) ((stopsOnly_bind_of_ok result).mp passes)]
    | error reason =>
      rw [all_bind_of_error result]
      refine ⟨fun all => ?_, And.left⟩
      obtain ⟨next, finished⟩ := ended all
      rw [result] at finished
      cases finished

/-- Whatever all rounds do, the loop does. -/
theorem all_foldlM (each : ∀ state, ∀ item ∈ items, (step state item).All good) :
    (items.foldlM step init).All good := by
  induction items generalizing init with
  | nil => exact all_pure
  | cons item rest ih =>
    exact all_bind (each init item (mem_cons_self ..)) fun _ =>
      ih fun state other member => each state other (mem_cons_of_mem _ member)

/-- A loop whose rounds all end has the value of the fold. -/
theorem outcome_foldlM {update : β → ι → β}
    (each : ∀ state, ∀ item ∈ items, (step state item).outcome = .ok (update state item)) :
    (items.foldlM step init).outcome = .ok (items.foldl update init) := by
  induction items generalizing init with
  | nil => rfl
  | cons item rest ih =>
    rw [foldlM_cons, outcome_bind_of_ok (each init item (mem_cons_self ..))]
    exact ih fun state other member => each state other (mem_cons_of_mem _ member)

/-- A loop in which nothing may stop ends, and so does each of its rounds. -/
theorem stopsOnly_foldlM {update : β → ι → β}
    (each : ∀ state, ∀ item ∈ items, (step state item).StopsOnly allowed →
      (step state item).outcome = .ok (update state item))
    (passes : (items.foldlM step init).StopsOnly allowed) :
    (items.foldlM step init).outcome = .ok (items.foldl update init) := by
  induction items generalizing init with
  | nil => rfl
  | cons item rest ih =>
    rw [foldlM_cons] at passes ⊢
    have here := each init item (mem_cons_self ..) (stopsOnly_of_bind passes)
    rw [outcome_bind_of_ok here]
    exact ih (fun state other member => each state other (mem_cons_of_mem _ member))
      ((stopsOnly_bind_of_ok here).mp passes)

end Loops

end Logged

end CantayaOS.Lib
