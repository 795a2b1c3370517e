import CantayaOS.Sched.Advance

/-!
# The task that a timer interrupt leaves running

After a timer interrupt the current task should be the only running one, and no
ready task should outrank it.  A sleeping task that is woken while it is still
current stays merely ready, and a time slice is not cut short for a task of
higher priority.
-/

namespace CantayaOS.Sched

open Lib Shared SchedSystem Option Sched.Task

/-! ## One running task -/

namespace Scheduler

variable {sched : Scheduler}

/-- If any task is ready or running, then the current task runs and no other one does. -/
def CurrentRuns (sched : Scheduler) : Prop :=
  (∃ i, (sched.tasks i).state = .ready ∨ (sched.tasks i).state = .running) →
    (sched.tasks sched.current).state = .running ∧
      ∀ i, i ≠ sched.current → (sched.tasks i).state ≠ .running

instance (sched : Scheduler) : Decidable sched.CurrentRuns :=
  inferInstanceAs (Decidable (_ → _))

/-- What holds between events: only the current task may run, and it is not ready. -/
structure SoleRunner (sched : Scheduler) : Prop where
  started : sched.initialized = true
  others : ∀ i, i ≠ sched.current → (sched.tasks i).state ≠ .running
  awake : (sched.tasks sched.current).state ≠ .ready
  vacant : (sched.tasks sched.current).state = .empty →
    (sched.tasks sched.current).quantumRemaining = 0

section

variable (sole : SoleRunner sched)
include sole

theorem SoleRunner.modifyCurrent (change : Task → Task)
    (awake : (change sched.running).state ≠ .ready)
    (vacant : (change sched.running).state = .empty →
      (change sched.running).quantumRemaining = 0) :
    SoleRunner (sched.modify sched.current change) := by
  have self := tasks_modify_self sched sched.current change
  refine ⟨sole.started, ?_, ?_, ?_⟩
  · intro i other
    have kept := tasks_modify_of_ne sched change other
    exact kept.symm ▸ sole.others i other
  · exact self.symm ▸ awake
  · exact self.symm ▸ vacant

theorem SoleRunner.modifyOther {slot : Slot} {change : Task → Task}
    (other : slot ≠ sched.current) (stopped : (change (sched.tasks slot)).state ≠ .running) :
    SoleRunner (sched.modify slot change) := by
  have kept := tasks_modify_of_ne sched change other.symm
  refine ⟨sole.started, ?_, ?_, ?_⟩
  · intro i away
    by_cases same : i = slot
    · rw [same, tasks_modify_self]
      exact stopped
    · rw [tasks_modify_of_ne _ _ same]
      exact sole.others i away
  · exact kept.symm ▸ sole.awake
  · exact kept.symm ▸ sole.vacant

theorem SoleRunner.charged_others (pointer : StackPointer)
    (tick : UInt64) {i : Slot} (other : i ≠ sched.current) :
    ((sched.charged pointer tick).tasks i).state ≠ .running := by
  rw [Ne, charged_state_iff sched pointer tick i .running nofun nofun]
  exact sole.others i other

theorem SoleRunner.charged_vacant (pointer : StackPointer)
    {tick : UInt64} (early : ¬ sched.running.Due tick)
    (empty : sched.running.state = .empty) :
    ((sched.charged pointer tick).tasks sched.current).quantumRemaining = 0 := by
  have noneRuns := sole.vacant empty
  rw [charged_self, wake, if_neg early, charge]
  rw [noneRuns]
  rfl

theorem SoleRunner.retired_vacant (pointer : StackPointer)
    {tick : UInt64} (early : ¬ sched.running.Due tick)
    (empty : ((sched.charged pointer tick).retired.tasks sched.current).state = .empty) :
    ((sched.charged pointer tick).retired.tasks sched.current).quantumRemaining = 0 := by
  have self : (sched.charged pointer tick).retired.tasks sched.current =
      ((sched.charged pointer tick).tasks sched.current).retire := retired_self _
  have state : ((sched.charged pointer tick).tasks sched.current).state = sched.running.state := by
    rw [charged_state, wake, if_neg early]
  rw [self] at empty ⊢
  unfold retire at empty ⊢
  split
  · rfl
  next stays =>
    rw [if_neg stays] at empty
    split
    next running =>
      rw [if_pos running] at empty
      cases empty
    next stopped =>
      rw [if_neg stopped, state] at empty
      exact sole.charged_vacant pointer early empty

end

theorem switchTo_soleRunner {next : Slot} (started : sched.initialized = true)
    (stopped : ∀ i, (sched.tasks i).state ≠ .running) :
    SoleRunner (sched.switchTo next) ∧ CurrentRuns (sched.switchTo next) := by
  have self : (sched.switchTo next).tasks (sched.switchTo next).current =
      (sched.tasks next).resume := switchTo_self sched next
  have others : ∀ i, i ≠ (sched.switchTo next).current →
      ((sched.switchTo next).tasks i).state ≠ .running := by
    intro i other
    have kept : (sched.switchTo next).tasks i = sched.tasks i := switchTo_of_ne other
    exact kept.symm ▸ stopped i
  refine ⟨⟨started, others, ?_, ?_⟩, fun _ => ⟨?_, others⟩⟩
  · rw [self]
    exact nofun
  · rw [self]
    exact nofun
  · rw [self]
    rfl

/-- A timer interrupt that does not find the current task due leaves it running alone. -/
theorem SoleRunner.tick (sole : SoleRunner sched) (pointer : StackPointer) {tick : UInt64}
    (early : ¬ sched.running.Due tick) :
    SoleRunner (sched.timerTickLocked pointer tick).2 ∧
      CurrentRuns (sched.timerTickLocked pointer tick).2 := by
  have outcome := timerTickLocked_outcome sole.started pointer tick
  have state : ((sched.charged pointer tick).tasks sched.current).state = sched.running.state := by
    rw [charged_state, wake, if_neg early]
  have stopped := retired_stopped sole.others pointer tick
  generalize sched.timerTickLocked pointer tick = result at outcome
  cases outcome with
  | stays goesOn =>
    have running : ((sched.charged pointer tick).tasks sched.current).state = .running := by
      cases found : sched.running.state with
      | running => rw [state, found]
      | ready => exact absurd found sole.awake
      | empty => exact absurd (.inl (sole.charged_vacant pointer early found)) goesOn
      | exited => exact absurd (.inr (.inl (state.trans found))) goesOn
      | blocked => exact absurd (.inr (.inr (state.trans found))) goesOn
    have others := fun i => sole.charged_others pointer tick (i := i)
    exact ⟨⟨sole.started, others, by rw [charged_current, running]; exact nofun,
      by rw [charged_current, running]; exact nofun⟩, fun _ => ⟨running, others⟩⟩
  | switches spent picked => exact switchTo_soleRunner sole.started stopped
  | idles spent idle =>
    refine ⟨⟨sole.started, fun i _ => stopped i, idle _, ?_⟩, ?_⟩
    · intro empty
      exact sole.retired_vacant pointer early empty
    · rintro ⟨i, ready | running⟩
      · exact absurd ready (idle i)
      · exact absurd running (stopped i)
  | fallsBack spent idle running => exact absurd running (stopped firstSlot)

/-- A current task that is due is made ready but is not switched to. -/
theorem not_currentRuns_of_due (started : sched.initialized = true) (pointer : StackPointer)
    {tick : UInt64} (due : sched.running.Due tick) :
    ¬ CurrentRuns (sched.timerTickLocked pointer tick).2 := by
  have goesOn : ¬ ((sched.charged pointer tick).tasks sched.current).SliceOver := by
    rw [charged_self, sliceOver_iff_sliceEnds]
    exact fun ends => ends.1 due
  have outcome := timerTickLocked_outcome started pointer tick
  generalize sched.timerTickLocked pointer tick = result at outcome
  have ready : ((sched.charged pointer tick).tasks sched.current).state = .ready := by
    rw [charged_state]
    exact wake_ready (.inr due)
  cases outcome with
  | stays _ =>
    intro runs
    have running := (runs ⟨sched.current, .inl ready⟩).1
    rw [charged_current, ready] at running
    cases running
  | switches spent _ => exact absurd spent goesOn
  | idles spent _ => exact absurd spent goesOn
  | fallsBack spent _ _ => exact absurd spent goesOn

end Scheduler

namespace SchedSystem

variable {sys next : SchedSystem}

/--
A spawned task does not get the current slot, which a task that killed itself
leaves empty, and a timer interrupt that gets the lock does not find the current
task due.
-/
def Orderly (sys : SchedSystem) : SchedEvent → Prop
  | .spawn _ => sys.state.scheduler.freeSlot ≠ some sys.state.scheduler.current
  | .timerTick _ currentTick lockHeld =>
    lockHeld = false →
      ¬ (sys.state.scheduler.tasks sys.state.scheduler.current).Due currentTick
  | _ => True

instance decidableOrderly (sys : SchedSystem) : ∀ event, Decidable (sys.Orderly event)
  | .spawn _ => inferInstanceAs
      (Decidable (sys.state.scheduler.freeSlot ≠ some sys.state.scheduler.current))
  | .timerTick _ currentTick lockHeld => inferInstanceAs (Decidable (lockHeld = false →
      ¬ (sys.state.scheduler.tasks sys.state.scheduler.current).Due currentTick))
  | .kill _ | .exitCurrentTask | .sleepMs _ _ | .setPriority _ _ | .yieldNow
  | .otherFrames _ _ => isTrue trivial

theorem advance_soleRunner {event : SchedEvent} (sole : sys.sched.SoleRunner)
    (orderly : sys.Orderly event) (stepped : sys.advance event = some next) :
    next.state.scheduler.SoleRunner := by
  have effect := advance_effect stepped
  generalize next.state.scheduler = after at effect
  cases effect with
  | unchanged => exact sole
  | @spawned priority slot stackBase frames active found allocated =>
    have other : slot ≠ sys.current := by
      rintro rfl
      exact orderly found
    have counted : Scheduler.SoleRunner { sys.sched with nextId := sys.sched.nextId + 1 } :=
      ⟨sole.started, sole.others, sole.awake, sole.vacant⟩
    exact counted.modifyOther other nofun
  | @killed taskId i active nonzero found =>
    by_cases current : i = sys.current
    · rw [current]
      exact sole.modifyCurrent _ nofun fun _ => rfl
    · exact sole.modifyOther current nofun
  | exited active => exact sole.modifyCurrent _ nofun nofun
  | slept active currentTick ms => exact sole.modifyCurrent _ nofun nofun
  | @prioritised taskId i active priority found =>
    by_cases current : i = sys.current
    · rw [current] at found ⊢
      exact sole.modifyCurrent _ sole.awake fun empty =>
        absurd empty (findTask_occupied found).1
    · exact sole.modifyOther current (sole.others i current)
  | yielded active => exact sole.modifyCurrent _ sole.awake fun _ => rfl
  | ticked rsp tick => exact (sole.tick _ (orderly rfl)).1

theorem start_soleRunner (memoryMap : MemoryMap) (cpu : StackPointer) :
    (start memoryMap cpu).state.scheduler.SoleRunner := by
  refine ⟨rfl, ?_, nofun, nofun⟩
  intro i other
  rw [start_tasks_of_ne other]
  exact nofun

end SchedSystem

/--
After orderly events, a timer interrupt that gets the lock leaves the current
task as the one running task exactly if it did not find that task due.
-/
theorem currentRuns_after_tick_iff (memoryMap : MemoryMap) (cpu : StackPointer)
    (events : List SchedEvent) (sys next : SchedSystem) (rsp : Nat) (currentTick : UInt64)
    (reached : Transition.run SchedSystem.advance (SchedSystem.start memoryMap cpu) events =
      some sys)
    (orderly : Transition.Meets SchedSystem.advance SchedSystem.Orderly
      (SchedSystem.start memoryMap cpu) events)
    (ticked : sys.advance (.timerTick rsp currentTick false) = some next) :
    next.state.scheduler.CurrentRuns ↔
      ¬ (sys.state.scheduler.tasks sys.state.scheduler.current).Due currentTick := by
  have sole := Transition.run_preserves
    (fun _ _ _ sole orderly stepped => advance_soleRunner sole orderly stepped)
    (start_soleRunner memoryMap cpu) orderly reached
  cases ticked
  rw [(tick_locked sys rsp currentTick).1]
  constructor
  · exact fun runs due => Scheduler.not_currentRuns_of_due sole.started _ due runs
  · exact fun early => (sole.tick _ early).2

/-- The boot thread gives up its time slice to a task that then goes on running. -/
theorem currentRuns_after_tick_yield : ∃ sys next,
    Transition.run SchedSystem.advance (SchedSystem.start eightFrameMap bootPointer)
        [.spawn .normal, .yieldNow] = some sys ∧
      sys.advance (.timerTick 0xFFFFFFFF8000FF00 1 false) = some next ∧
      next.state.scheduler.CurrentRuns := by
  have seen : ∃ sys ∈ Transition.run SchedSystem.advance booted [.spawn .normal, .yieldNow],
      (sys.tasks sys.current).state = .running := by
    decide +kernel
  obtain ⟨sys, reached, running⟩ := seen
  refine ⟨sys, _, reached, rfl, (currentRuns_after_tick_iff eightFrameMap bootPointer _ sys _
    0xFFFFFFFF8000FF00 1 reached (by decide +kernel) rfl).mpr ?_⟩
  intro due
  rw [due.1] at running
  cases running

/-- The boot thread sleeps for a tick: the tick that wakes it leaves it ready. -/
theorem not_currentRuns_shortSleep : ∃ sys,
    Transition.run SchedSystem.advance (SchedSystem.start eightFrameMap bootPointer)
        [.sleepMs 0 1, .timerTick 0xFFFFFFFF8000FF00 1 false] = some sys ∧
      (sys.state.scheduler.tasks sys.state.scheduler.current).state = .ready ∧
      ¬ sys.state.scheduler.CurrentRuns := by
  refine ⟨_, (some_get (by decide +kernel)).symm, ?_⟩
  decide +kernel

/-! ## Priorities -/

namespace Scheduler

variable {sched : Scheduler}

/-- No ready task has a higher priority than the current one. -/
def NoneOutranks (sched : Scheduler) : Prop :=
  ∀ i, (sched.tasks i).state = .ready →
    (sched.tasks i).priority.rank ≤ (sched.tasks sched.current).priority.rank

instance (sched : Scheduler) : Decidable sched.NoneOutranks :=
  inferInstanceAs (Decidable (∀ _, _))

/-- No task that is ready or due has a higher priority than the current one. -/
def NoneWaitsHigher (sched : Scheduler) (tick : UInt64) : Prop :=
  ∀ i, (sched.tasks i).state = .ready ∨ (sched.tasks i).Due tick →
    (sched.tasks i).priority.rank ≤ (sched.tasks sched.current).priority.rank

theorem wake_ready_iff {task : Task} {tick : UInt64} :
    (task.wake tick).state = .ready ↔ task.state = .ready ∨ task.Due tick := by
  refine ⟨fun ready => ?_, wake_ready⟩
  unfold wake at ready
  split at ready
  · next due => exact .inr due
  · exact .inl ready

theorem charged_noneOutranks_iff (sched : Scheduler) (pointer : StackPointer) (tick : UInt64) :
    (sched.charged pointer tick).NoneOutranks ↔ sched.NoneWaitsHigher tick := by
  unfold NoneOutranks NoneWaitsHigher
  simp only [charged_state, charged_kept, charged_current, wake_ready_iff]

/-- Nothing that is ready outranks the task that is switched to. -/
theorem switchTo_noneOutranks {next : Slot} (picked : sched.pickNext = some next) :
    (sched.switchTo next).NoneOutranks := by
  intro i ready
  have self : (sched.switchTo next).tasks (sched.switchTo next).current =
      (sched.tasks next).resume := switchTo_self sched next
  rw [self]
  by_cases same : i = next
  · rw [same, switchTo_self] at ready
    cases ready
  · rw [switchTo_of_ne same] at ready ⊢
    exact pickNext_max picked ready

theorem timerTickLocked_noneOutranks_iff (started : sched.initialized = true)
    (pointer : StackPointer) (tick : UInt64) :
    (sched.timerTickLocked pointer tick).2.NoneOutranks ↔
      sched.running.SliceEnds tick ∨ sched.NoneWaitsHigher tick := by
  have outcome := timerTickLocked_outcome started pointer tick
  have slice : ((sched.charged pointer tick).tasks sched.current).SliceOver ↔
      sched.running.SliceEnds tick := by
    rw [charged_self]
    exact sliceOver_iff_sliceEnds ..
  generalize sched.timerTickLocked pointer tick = result at outcome
  cases outcome with
  | stays goesOn =>
    rw [charged_noneOutranks_iff]
    exact ⟨.inr, fun either => either.resolve_left fun ends => goesOn (slice.mpr ends)⟩
  | switches spent picked =>
    exact ⟨fun _ => .inl (slice.mp spent), fun _ => switchTo_noneOutranks picked⟩
  | idles spent idle =>
    exact ⟨fun _ => .inl (slice.mp spent), fun _ i ready => absurd ready (idle i)⟩
  | fallsBack spent idle running =>
    refine ⟨fun _ => .inl (slice.mp spent), fun _ i ready => ?_⟩
    by_cases same : i = firstSlot
    · rw [same]
      exact le_rfl
    · rw [fallBack_of_ne same] at ready
      exact absurd ready (idle i)

end Scheduler

namespace SchedSystem

theorem advance_initialized {sys next : SchedSystem} {event : SchedEvent}
    (started : sys.sched.initialized = true) (stepped : sys.advance event = some next) :
    next.state.scheduler.initialized = true := by
  have effect := advance_effect stepped
  generalize next.state.scheduler = after at effect
  cases effect with
  | ticked rsp tick => exact Scheduler.timerTickLocked_initialized started _ _
  | _ => exact started

end SchedSystem

/--
In every run, a timer interrupt that gets the lock leaves no ready task above
the current one exactly if it ends the current task's time slice or nothing that
is ready or due has a higher priority.
-/
theorem noneOutranks_after_tick_iff (memoryMap : MemoryMap) (cpu : StackPointer)
    (events : List SchedEvent) (sys next : SchedSystem) (rsp : Nat) (currentTick : UInt64)
    (reached : Transition.run SchedSystem.advance (SchedSystem.start memoryMap cpu) events =
      some sys) (ticked : sys.advance (.timerTick rsp currentTick false) = some next) :
    next.state.scheduler.NoneOutranks ↔
      (sys.state.scheduler.tasks sys.state.scheduler.current).SliceEnds currentTick ∨
        sys.state.scheduler.NoneWaitsHigher currentTick := by
  have kept : ∀ (state : SchedSystem) event after, state.state.scheduler.initialized = true →
      state.advance event = some after → after.state.scheduler.initialized = true :=
    fun _ _ _ => advance_initialized
  have started := Transition.run_invariant kept rfl reached
  cases ticked
  rw [(tick_locked sys rsp currentTick).1]
  exact Scheduler.timerTickLocked_noneOutranks_iff started _ _

/-- The boot thread gives up its time slice, and the task of high priority runs. -/
theorem noneOutranks_after_tick_yield : ∃ sys next,
    Transition.run SchedSystem.advance (SchedSystem.start eightFrameMap bootPointer)
        [.spawn .high, .yieldNow] = some sys ∧
      sys.advance (.timerTick 0xFFFFFFFF8000FF00 1 false) = some next ∧
      next.state.scheduler.NoneOutranks := by
  refine ⟨_, _, (some_get (by decide +kernel)).symm, rfl, (noneOutranks_after_tick_iff eightFrameMap
    bootPointer _ _ _ 0xFFFFFFFF8000FF00 1 (some_get _).symm rfl).mpr (.inl ?_)⟩
  decide +kernel

/-- A realtime task is spawned, and the next timer interrupt does not switch to it. -/
theorem outranked_freshRealtime : ∃ sys,
    Transition.run SchedSystem.advance (SchedSystem.start eightFrameMap bootPointer)
        [.spawn .realtime, .timerTick 0xFFFFFFFF8000FF00 1 false] = some sys ∧
      sys.state.scheduler.current = firstSlot ∧ ¬ sys.state.scheduler.NoneOutranks := by
  refine ⟨_, (some_get (by decide +kernel)).symm, ?_⟩
  decide +kernel

end CantayaOS.Sched
