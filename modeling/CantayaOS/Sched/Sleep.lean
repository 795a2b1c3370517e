import CantayaOS.Sched.Advance

/-!
# Sleeping until the deadline

A task that goes to sleep is blocked with the tick at which it is due.  Only
its own calls, its death and a timer interrupt that gets the lock could change
that: it makes no calls while it sleeps, and the interrupt wakes it exactly if
the deadline has passed.
-/

namespace CantayaOS.Sched

open Lib Scheduler

variable {slot : Slot} {deadline now : UInt64} {task : Task}

def Task.SleepsUntil (task : Task) (deadline : UInt64) : Prop :=
  task.state = .blocked ∧ task.wakeTick = deadline

theorem Task.SleepsUntil.wake (sleeps : task.SleepsUntil deadline) (early : now < deadline) :
    task.wake now = task := by
  refine if_neg fun due => ?_
  have passed := due.2.2
  rw [sleeps.2] at passed
  exact absurd early (UInt64.not_lt.mpr passed)

namespace Scheduler

variable {sched : Scheduler}

theorem charged_sleepsUntil (sleeps : (sched.tasks slot).SleepsUntil deadline)
    (early : now < deadline) (pointer : StackPointer) :
    ((sched.charged pointer now).tasks slot).SleepsUntil deadline := by
  by_cases same : slot = sched.current
  · subst same
    rw [charged_self, sleeps.wake early]
    exact sleeps
  · rw [charged_of_ne same, sleeps.wake early]
    exact sleeps

theorem retired_of_state (stays : (sched.tasks slot).state ≠ .exited)
    (stopped : (sched.tasks slot).state ≠ .running) : sched.retired.tasks slot = sched.tasks slot := by
  by_cases same : slot = sched.current
  · subst same
    rw [retired_self, Task.retire, if_neg stays, if_neg stopped]
  · exact retired_of_ne same

/-- Before the deadline a timer interrupt neither wakes the task nor switches to it. -/
theorem timerTickLocked_sleepsUntil (started : sched.initialized = true)
    (sleeps : (sched.tasks slot).SleepsUntil deadline) (early : now < deadline)
    (pointer : StackPointer) :
    ((sched.timerTickLocked pointer now).2.tasks slot).SleepsUntil deadline ∧
      ((sched.timerTickLocked pointer now).2.current = slot → sched.current = slot) := by
  have outcome := timerTickLocked_outcome started pointer now
  have still := charged_sleepsUntil sleeps early pointer
  have retires : ((sched.charged pointer now).retired.tasks slot).SleepsUntil deadline := by
    rw [retired_of_state (by rw [still.1]; exact nofun) (by rw [still.1]; exact nofun)]
    exact still
  generalize sched.timerTickLocked pointer now = result at outcome
  cases outcome with
  | stays goesOn => exact ⟨still, id⟩
  | @switches next spent picked =>
    have differ : slot ≠ next := by
      rintro rfl
      cases retires.1.symm.trans (pickNext_ready picked)
    refine ⟨?_, fun here => absurd here.symm differ⟩
    rw [switchTo_of_ne differ]
    exact retires
  | idles spent idle => exact ⟨retires, id⟩
  | fallsBack spent idle running =>
    have differ : slot ≠ firstSlot := by
      rintro rfl
      cases retires.1.symm.trans running
    refine ⟨?_, fun here => absurd here.symm differ⟩
    rw [fallBack_of_ne differ]
    exact retires

/-- From the deadline on a timer interrupt makes the task ready, and may switch to it. -/
theorem timerTickLocked_wakes (started : sched.initialized = true)
    (sleeps : (sched.tasks slot).SleepsUntil deadline) (positive : 0 < deadline)
    (passed : deadline ≤ now) (pointer : StackPointer) :
    ((sched.timerTickLocked pointer now).2.tasks slot).state = .ready ∨
      ((sched.timerTickLocked pointer now).2.tasks slot).state = .running := by
  have outcome := timerTickLocked_outcome started pointer now
  have ready : ((sched.charged pointer now).tasks slot).state = .ready := by
    rw [charged_state]
    exact wake_ready (.inr ⟨sleeps.1, sleeps.2 ▸ positive, sleeps.2 ▸ passed⟩)
  have retires : ((sched.charged pointer now).retired.tasks slot).state = .ready := by
    rw [retired_of_state (by rw [ready]; exact nofun) (by rw [ready]; exact nofun)]
    exact ready
  generalize sched.timerTickLocked pointer now = result at outcome
  cases outcome with
  | stays goesOn => exact .inl ready
  | @switches next spent picked =>
    by_cases isNext : slot = next
    · rw [isNext, switchTo_self]
      exact .inr rfl
    · rw [switchTo_of_ne isNext]
      exact .inl retires
  | idles spent idle => exact absurd retires (idle slot)
  | fallsBack spent idle running => exact absurd retires (idle slot)

end Scheduler

namespace SchedSystem

variable {sys next : SchedSystem}

/-- The task of the slot sleeps, and it makes no calls. -/
structure Asleep (slot : Slot) (deadline : UInt64) (sys : SchedSystem) : Prop where
  started : sys.state.scheduler.initialized = true
  sleeps : (sys.state.scheduler.tasks slot).SleepsUntil deadline
  waits : sys.state.scheduler.current = slot → sys.control ≠ .active

/-- The task of the slot is not killed, and a timer interrupt that gets the lock is before the deadline. -/
def Early (slot : Slot) (deadline : Nat) (sys : SchedSystem) : SchedEvent → Prop
  | .kill taskId => taskId ≠ 0 → sys.state.scheduler.findTask taskId ≠ some slot
  | .timerTick _ tick lockHeld => lockHeld = false → tick.toNat < deadline
  | _ => True

theorem Asleep.tick (asleep : Asleep slot deadline sys) {lockHeld : Bool}
    (early : lockHeld = false → now < deadline) (rsp : Nat) :
    Asleep slot deadline (sys.tick rsp now lockHeld) := by
  have kept : (sys.tick rsp now lockHeld).state.scheduler.initialized = true ∧
      ((sys.tick rsp now lockHeld).state.scheduler.tasks slot).SleepsUntil deadline ∧
      ((sys.tick rsp now lockHeld).state.scheduler.current = slot →
        sys.current = slot) := by
    cases lockHeld with
    | true =>
      rw [(tick_lockHeld sys rsp now).1]
      exact ⟨asleep.started, asleep.sleeps, id⟩
    | false =>
      rw [(tick_locked sys rsp now).1]
      exact ⟨timerTickLocked_initialized asleep.started _ _,
        timerTickLocked_sleepsUntil asleep.started asleep.sleeps (early rfl) _⟩
  obtain ⟨started, sleeps, stays⟩ := kept
  refine ⟨started, sleeps, fun here => ?_⟩
  have idle : (sys.tick rsp now lockHeld).control = sys.control := by
    refine if_neg fun running => ?_
    change ((sys.tick rsp now lockHeld).state.scheduler.tasks
      (sys.tick rsp now lockHeld).state.scheduler.current).state = .running at running
    rw [here, sleeps.1] at running
    cases running
  rw [idle]
  exact asleep.waits (stays here)

/-- A call of another task that changes one slot. -/
theorem Asleep.modify (asleep : Asleep slot deadline sys) {i : Slot} {change : Task → Task}
    {nextId : UInt32} (shape : next.state.scheduler =
      Scheduler.modify { sys.state.scheduler with nextId } i change)
    (kept : slot = i → (change (sys.tasks slot)).SleepsUntil deadline)
    (control : next.control = .active → sys.control = .active) : Asleep slot deadline next := by
  refine ⟨?_, ?_, ?_⟩
  all_goals rw [shape]
  · exact asleep.started
  · by_cases same : slot = i
    · have sleeps := kept same
      subst same
      rw [tasks_modify_self]
      exact sleeps
    · rw [tasks_modify_of_ne _ _ same]
      exact asleep.sleeps
  · exact fun here active => asleep.waits here (control active)

theorem Asleep.step (sys : SchedSystem) (event : SchedEvent) (next : SchedSystem)
    (asleep : Asleep slot deadline sys) (early : Early slot deadline.toNat sys event)
    (stepped : sys.advance event = some next) : Asleep slot deadline next := by
  by_cases isTick : ∃ rsp tick lockHeld, event = .timerTick rsp tick lockHeld
  · obtain ⟨rsp, tick, lockHeld, rfl⟩ := isTick
    cases stepped
    exact asleep.tick (fun gets => UInt64.lt_iff_toNat_lt.mpr (early gets)) rsp
  have control (active : next.control = .active) : sys.control = .active :=
    (advance_control stepped (fun rsp tick lockHeld same => isTick ⟨rsp, tick, lockHeld, same⟩)
      active).1
  have away (active : sys.control = .active) (here : slot = sys.current) :
      False := asleep.waits here.symm active
  have effect := advance_effect stepped
  generalize shape : next.state.scheduler = after at effect
  cases effect with
  | unchanged =>
    refine ⟨?_, ?_, ?_⟩
    all_goals rw [shape]
    · exact asleep.started
    · exact asleep.sleeps
    · exact fun here active => asleep.waits here (control active)
  | spawned active found =>
    refine asleep.modify shape (fun same => ?_) control
    subst same
    cases asleep.sleeps.1.symm.trans (freeSlot_empty found)
  | killed active nonzero found =>
    exact asleep.modify shape (fun same => absurd (same ▸ found) (early nonzero)) control
  | exited active => exact asleep.modify shape (fun here => (away active here).elim) control
  | slept active => exact asleep.modify shape (fun here => (away active here).elim) control
  | prioritised active => exact asleep.modify shape (fun _ => asleep.sleeps) control
  | yielded active => exact asleep.modify shape (fun here => (away active here).elim) control
  | ticked rsp tick => exact absurd ⟨rsp, tick, false, rfl⟩ isTick

end SchedSystem

/--
A task that calls `sleep_ms` at a tick is blocked in every state reached before
it is killed and before a timer interrupt gets the lock at or after its
deadline, and the first such interrupt leaves it ready or running.
-/
theorem sleep_until_deadline (sys asleep last : SchedSystem) (currentTick ms : UInt64)
    (events : List SchedEvent) (started : sys.state.scheduler.initialized = true)
    (positive : 1 ≤ ms.toNat) (fits : currentTick.toNat + ms.toNat < 2 ^ 64)
    (slept : sys.advance (.sleepMs currentTick ms) = some asleep)
    (early : Transition.Meets SchedSystem.advance
      (SchedSystem.Early sys.state.scheduler.current (currentTick.toNat + ms.toNat)) asleep events)
    (reached : Transition.run SchedSystem.advance asleep events = some last) :
    (last.state.scheduler.tasks sys.state.scheduler.current).state = .blocked ∧
      ∀ rsp tick, currentTick.toNat + ms.toNat ≤ UInt64.toNat tick →
        ((last.tick rsp tick false).state.scheduler.tasks sys.state.scheduler.current).state =
            .ready ∨
          ((last.tick rsp tick false).state.scheduler.tasks sys.state.scheduler.current).state =
            .running := by
  have deadline : (currentTick + ms).toNat = currentTick.toNat + ms.toNat := by
    rw [UInt64.toNat_add, Nat.mod_eq_of_lt fits]
  obtain ⟨called, returned, rfl⟩ := Option.map_eq_some_iff.mp slept
  obtain ⟨active, rfl⟩ := SchedSystem.call_eq_some returned
  have sleeps : ((sys.state.sleepMs currentTick ms).scheduler.tasks
      sys.current).SleepsUntil (currentTick + ms) := by
    rw [SchedState.sleepMs, tasks_modify_self]
    exact ⟨rfl, rfl⟩
  rw [← deadline] at early ⊢
  have still : SchedSystem.Asleep sys.current (currentTick + ms) last := by
    refine Transition.run_preserves SchedSystem.Asleep.step ?_ early reached
    exact ⟨started, sleeps, fun _ => nofun⟩
  refine ⟨still.sleeps.1, fun rsp tick passed => ?_⟩
  rw [(SchedSystem.tick_locked last rsp tick).1]
  exact timerTickLocked_wakes still.started still.sleeps
    (UInt64.lt_iff_toNat_lt.mpr (by rw [deadline]; exact Nat.add_pos_right _ positive))
    (UInt64.le_iff_toNat_le.mpr passed) _

/-- The boot thread sleeps from tick 5 to tick 8. -/
theorem sleep_until_deadline_boot : ∃ asleep last,
    (SchedSystem.start eightFrameMap bootPointer).advance (.sleepMs 5 3) = some asleep ∧
      Transition.run SchedSystem.advance asleep
        [.timerTick 0xFFFFFFFF8000FF00 7 false, .timerTick 0xFFFFFFFF8000FF00 9 true] =
          some last ∧
      (last.state.scheduler.tasks firstSlot).state = .blocked := by
  have enabled : (booted.advance (.sleepMs 5 3)).isSome := by
    decide +kernel
  obtain ⟨asleep, slept⟩ := Option.isSome_iff_exists.mp enabled
  have early : Transition.Meets SchedSystem.advance (SchedSystem.Early firstSlot 8) asleep
      [.timerTick 0xFFFFFFFF8000FF00 7 false, .timerTick 0xFFFFFFFF8000FF00 9 true] :=
    ⟨fun _ => by decide, fun _ _ => ⟨nofun, fun _ _ => trivial⟩⟩
  exact ⟨asleep, _, slept, rfl, (sleep_until_deadline _ asleep _ 5 3 _ rfl (by decide) (by decide)
    slept early rfl).1⟩

end CantayaOS.Sched
