import CantayaOS.Sched.StackOwnership

/-!
# The CPU's stack

Between interrupts every task but the current one is saved on its own stack, and
the CPU is on the stack of the current task.  The timer interrupt keeps it so.
The frames of that stack are not free as long as its slot holds them, which it
does until a task exits and its release finds no task to switch to.
-/

namespace CantayaOS.Sched

open Lib Memory Shared Scheduler Option SchedState Sched.Task

/-! ## Tasks and their stacks -/

variable {task changed : Task} {boot : Stack}

def Task.stack (boot : Stack) (task : Task) : Stack :=
  if task.stackBase = 0 then boot else ⟨task.stackBase, task.stackSize⟩

def StackPointer.On (pointer : StackPointer) (stack : Stack) : Prop :=
  pointer.stack = stack ∧ pointer.Inside

/-- A task in the slot can be resumed at its saved pointer. -/
def Task.Saved (boot : Stack) (task : Task) : Prop :=
  task.state ≠ .empty → task.savedRsp.On (task.stack boot)

theorem Task.stack_congr (boot : Stack)
    (base : changed.stackBase = task.stackBase) (size : changed.stackSize = task.stackSize) :
    changed.stack boot = task.stack boot := by
  unfold stack
  rw [base, size]

theorem Task.spawned_saved (boot : Stack) (taskId : UInt32) (priority : TaskPriority)
    {stackBase : Nat} (owned : stackBase ≠ 0) : (spawned taskId stackBase priority).Saved boot := by
  refine fun _ => ⟨(if_neg owned).symm, ?_⟩
  have room : contextSlots * 8 = 160 := rfl
  have size : taskStackSize = 20480 := rfl
  simp only [spawned, StackPointer.Inside]
  omega

theorem Task.Saved.wake (saved : task.Saved boot) (tick : UInt64) : (task.wake tick).Saved boot := by
  obtain ⟨base, size, _, pointer⟩ := wake_kept task tick
  unfold Task.Saved
  rw [pointer, stack_congr boot base size, Ne, wake_state_iff .empty nofun nofun]
  exact saved

theorem Task.retire_stack (stays : task.state ≠ .exited) : task.retire.stack boot = task.stack boot := by
  unfold retire
  rw [if_neg stays]
  split <;> rfl

theorem Task.Saved.retire (saved : task.Saved boot) : task.retire.Saved boot := by
  unfold Task.retire
  split
  · exact fun occupied => absurd rfl occupied
  · split
    · next running => exact fun _ => saved (by rw [running]; exact nofun)
    · exact saved

namespace Scheduler

/-- The CPU is on the stack of the current task, and the others are saved on theirs. -/
structure Placed (boot : Stack) (sched : Scheduler) (cpu : StackPointer) : Prop where
  here : cpu.On (sched.running.stack boot)
  saved : ∀ i, i ≠ sched.current → (sched.tasks i).Saved boot

variable {sched : Scheduler} {cpu pointer : StackPointer}

/-- A call of the running context changes one slot. -/
theorem Placed.update (placed : sched.Placed boot cpu) {slot : Slot} {nextId : UInt32}
    (stack : slot = sched.current → task.stack boot = (sched.tasks slot).stack boot)
    (saved : slot ≠ sched.current → task.Saved boot) :
    Placed boot { sched with tasks := Function.update sched.tasks slot task, nextId } cpu := by
  refine ⟨?_, fun i other => ?_⟩
  · change cpu.On ((Function.update sched.tasks slot task sched.current).stack boot)
    by_cases isSlot : sched.current = slot
    · rw [isSlot, Function.update_self, stack isSlot.symm, ← isSlot]
      exact placed.here
    · rw [Function.update_of_ne isSlot]
      exact placed.here
  · change (Function.update sched.tasks slot task i).Saved boot
    by_cases isSlot : i = slot
    · rw [isSlot, Function.update_self]
      exact saved (isSlot ▸ other)
    · rw [Function.update_of_ne isSlot]
      exact placed.saved i other

/-- Before a switch every task is saved: the current one has just been interrupted. -/
theorem Placed.retired (placed : sched.Placed boot sched.running.savedRsp) (i : Slot) :
    (sched.retired.tasks i).Saved boot := by
  by_cases isCurrent : i = sched.current
  · rw [isCurrent, retired_self]
    exact Task.Saved.retire fun _ => placed.here
  · rw [retired_of_ne isCurrent]
    exact placed.saved i isCurrent

theorem Placed.charged (placed : sched.Placed boot cpu) (on : pointer.On cpu.stack) (tick : UInt64) :
    (sched.charged pointer tick).Placed boot pointer := by
  obtain ⟨base, size, _⟩ := charged_kept sched pointer tick sched.current
  refine ⟨?_, fun i other => ?_⟩
  · exact stack_congr boot base size ▸ ⟨on.1.trans placed.here.1, on.2⟩
  · have other : i ≠ sched.current := other
    rw [charged_of_ne other]
    exact (placed.saved i other).wake tick

/-- A timer interrupt resumes a task on its own stack if an exited one is switched away from. -/
theorem Placed.timerTickLocked (placed : sched.Placed boot cpu) (on : pointer.On cpu.stack)
    (started : sched.initialized = true)
    (stopped : ∀ i, i ≠ sched.current → (sched.tasks i).state ≠ .running) {tick : UInt64}
    (safe : sched.running.state = .exited → sched.running.stackBase ≠ 0 →
      ∃ i, (sched.tasks i).state = .ready ∨ (sched.tasks i).Due tick) :
    (sched.timerTickLocked pointer tick).2.Placed boot (sched.timerTickLocked pointer tick).1 ∧
      (sched.timerTickLocked pointer tick).2.running.state ≠ .exited := by
  have outcome := timerTickLocked_outcome started pointer tick
  have charged := placed.charged on tick
  have saved : ∀ i, ((sched.charged pointer tick).retired.tasks i).Saved boot :=
    Placed.retired (by rw [running, charged_current, charged_self]; exact charged)
  generalize sched.timerTickLocked pointer tick = result at outcome
  cases outcome with
  | stays goesOn => exact ⟨charged, fun exited => goesOn (.inr (.inl exited))⟩
  | @switches next spent picked =>
    have self := switchTo_self (sched.charged pointer tick).retired next
    refine ⟨⟨?_, fun i other => ?_⟩, ?_⟩
    · change StackPointer.On _ (Task.stack boot ((Scheduler.switchTo _ next).tasks next))
      rw [self]
      exact saved next (by rw [pickNext_ready picked]; exact nofun)
    · have other : i ≠ next := other
      change ((Scheduler.switchTo _ next).tasks i).Saved boot
      rw [switchTo_of_ne other]
      exact saved i
    · change ((Scheduler.switchTo _ next).tasks next).state ≠ .exited
      rw [self]
      exact nofun
  | idles spent idle =>
    refine ⟨⟨?_, fun i _ => saved i⟩, ?_⟩
    · rw [running, retired_current, retired_self]
      by_cases exited : (sched.charged pointer tick).running.state = .exited
      · -- An exited task with a stack of its own would have had a task to switch to.
        have exits := (charged_state_iff sched pointer tick _ .exited nofun nofun).mp exited
        have bare : sched.running.stackBase = 0 := by
          by_contra owned
          obtain ⟨i, wakes⟩ := safe exits owned
          have ready := (charged_state sched pointer tick i).trans (wake_ready wakes)
          have other : i ≠ (sched.charged pointer tick).current := by
            rintro rfl
            cases ready.symm.trans exited
          exact idle i (by rw [retired_of_ne other]; exact ready)
        have here := charged.here
        rw [Task.stack, (charged_kept ..).1, charged_current, if_pos bare] at here
        rw [Task.retire, if_pos exited]
        exact here
      · rw [retire_stack exited]
        exact charged.here
    · rw [running, retired_current, retired_self]
      exact (retire_state_ne _).2
  | fallsBack spent idle running =>
    exact absurd running (retired_stopped stopped pointer tick firstSlot)

end Scheduler

namespace SchedSystem

variable {memoryMap : MemoryMap} {sys next : SchedSystem}

/-- The CPU's pointer lies in its stack, and no frame of that stack is free. -/
def OnLiveStack (sys : SchedSystem) : Prop :=
  sys.cpu.Inside ∧ ∀ i ∈ sys.cpu.stack.frames, sys.state.frames.isFree i = false

/--
The running task is not killed, and when the release of a stack is pending the
timer interrupt gets the lock and finds a task that is ready or due.
-/
def Careful (sys : SchedSystem) : SchedEvent → Prop
  | .kill taskId =>
    taskId ≠ 0 → sys.state.scheduler.findTask taskId ≠ some sys.state.scheduler.current
  | .timerTick _ currentTick lockHeld =>
    sys.state.deferredFree ≠ none →
      lockHeld = false ∧ ∃ i, (sys.state.scheduler.tasks i).state = .ready ∨
        (sys.state.scheduler.tasks i).Due currentTick
  | _ => True

instance decidableCareful (sys : SchedSystem) (event : SchedEvent) :
    Decidable (sys.Careful event) := by
  cases event <;> unfold Careful <;> infer_instance

theorem Careful.killsOthers {event : SchedEvent} (careful : sys.Careful event) :
    sys.KillsOthers event := by
  cases event with
  | kill taskId => exact careful
  | _ => trivial

theorem advance_of_step {event : SchedEvent} (stepped : sys.step event = some next) :
    sys.advance event = some next := by
  cases event with
  | timerTick rsp tick lockHeld => exact (ite_none_right_eq_some.mp stepped).2
  | _ => exact stepped

/-- The tasks are placed, and the stack of a current task that has exited is not freed yet. -/
structure Safe (boot : Stack) (sys : SchedSystem) : Prop where
  placed : sys.state.scheduler.Placed boot sys.cpu
  pending : sys.state.scheduler.running.state = .exited →
    sys.state.scheduler.running.stackBase ≠ 0 → sys.state.deferredFree ≠ none

/-- On the boot stack or on a stack that a slot holds, no frame is free. -/
theorem Safe.onLiveStack (safe : sys.Safe boot) (sound : sys.Sound memoryMap)
    (high : maxFrames * pageSize ≤ boot.base) : sys.OnLiveStack := by
  refine ⟨safe.placed.here.2, ?_⟩
  intro i inside
  rw [safe.placed.here.1] at inside
  unfold stack at inside
  split at inside
  · have beyond : maxFrames ≤ i := by
      simp only [Stack.frames, frameRun, Finset.mem_Ico] at inside
      have bound := (Nat.le_div_iff_mul_le (by decide : 0 < pageSize)).mpr high
      omega
    cases free : sys.state.frames.isFree i with
    | false => rfl
    | true =>
      have below := FrameAllocator.isFree_lt free
      omega
  next owned =>
    have held : sys.state.holding sys.current = some (sys.sched.running.stackFrames, _) :=
      if_pos ⟨owned, fun exited => safe.pending exited owned⟩
    have mine : i ∈ (Holding.frames ∘ sys.state.holding) sys.current := by
      rw [Function.comp_apply, held, Holding.frames, elim_some, stackFrames, if_neg owned]
      exact inside
    exact sound.ledger.not_free mine

theorem Safe.tick (safe : sys.Safe boot) (steady : sys.Steady) {rsp : Nat} {tick : UInt64}
    {lockHeld : Bool} (inside : StackPointer.Inside ⟨rsp, sys.cpu.stack⟩)
    (careful : sys.Careful (.timerTick rsp tick lockHeld)) :
    (sys.tick rsp tick lockHeld).Safe boot := by
  cases lockHeld with
  | true =>
    obtain ⟨sched, cpu⟩ := tick_lockHeld sys rsp tick
    constructor
    · rw [sched, cpu]
      exact ⟨⟨safe.placed.here.1, inside⟩, safe.placed.saved⟩
    · rw [sched]
      intro exited owned
      cases (careful (safe.pending exited owned)).1
  | false =>
    obtain ⟨sched, cpu⟩ := tick_locked sys rsp tick
    have on : StackPointer.On ⟨rsp, sys.cpu.stack⟩ sys.cpu.stack := ⟨rfl, inside⟩
    obtain ⟨placed, stays⟩ := safe.placed.timerTickLocked on steady.started steady.stopped
      fun exited owned => (careful (safe.pending exited owned)).2
    constructor
    · rw [sched, cpu]
      exact placed
    · rw [sched]
      exact fun exited => absurd exited stays

theorem Safe.step (safe : sys.Safe boot) (sound : sys.Sound memoryMap)
    (sound' : next.Sound memoryMap) {event : SchedEvent} (careful : sys.Careful event)
    (stepped : sys.step event = some next) : next.Safe boot := by
  -- What an active context leaves behind; it has not exited.
  have going (active : next.control = .active)
      (placed : next.state.scheduler.Placed boot next.cpu) : next.Safe boot :=
    ⟨placed, fun exited => absurd exited (sound'.none_exited active _)⟩
  cases event with
  | spawn priority =>
    obtain ⟨active, rfl⟩ := call_eq_some stepped
    refine going active ?_
    have spawned := sys.state.spawnWithPriority_spawned priority
    generalize (sys.state.spawnWithPriority priority).2 = after at spawned
    cases spawned with
    | refused reason => exact safe.placed
    | spawned found allocated =>
      refine safe.placed.update ?_ fun _ => spawned_saved boot _ _ ?_
      · rintro rfl
        cases (freeSlot_empty found).symm.trans (sound.steady.active active)
      · have vacant := (sound.formed _).vacant (freeSlot_empty found)
        exact (sound.ledger.spawn (congrArg Holding.frames (holding_of_bare _ vacant)) allocated 0
          priority).2.1
  | kill taskId =>
    obtain ⟨active, rfl⟩ := call_eq_some stepped
    refine going active ?_
    unfold kill
    split
    · exact safe.placed
    next nonzero =>
      split
      · exact safe.placed
      next i found =>
        refine safe.placed.update ?_ fun _ occupied => absurd rfl occupied
        rintro rfl
        exact absurd found (careful nonzero)
  | exitCurrentTask =>
    obtain ⟨called, returned, rfl⟩ := map_eq_some_iff.mp stepped
    obtain ⟨_, rfl⟩ := call_eq_some returned
    refine ⟨safe.placed.update (fun _ => rfl) fun other => absurd rfl other, fun _ owned => ?_⟩
    have base : sys.state.exitCurrentTask.scheduler.running.stackBase =
        sys.state.scheduler.running.stackBase := by simp [exitCurrentTask, running, Scheduler.modify]
    exact (if_pos fun bare => owned (base.trans bare)).trans_ne (some_ne_none _)
  | sleepMs currentTick ms =>
    obtain ⟨called, returned, rfl⟩ := map_eq_some_iff.mp stepped
    obtain ⟨_, rfl⟩ := call_eq_some returned
    refine ⟨safe.placed.update (fun _ => rfl) fun other => absurd rfl other, fun exited => ?_⟩
    have blocked : (sys.state.sleepMs currentTick ms).scheduler.running.state = .blocked := by
      simp [sleepMs, running, Scheduler.modify]
    cases blocked.symm.trans exited
  | setPriority taskId priority =>
    obtain ⟨active, rfl⟩ := call_eq_some stepped
    refine going active ?_
    unfold setPriority
    split
    · exact safe.placed
    · exact safe.placed.update (fun _ => rfl) (safe.placed.saved _)
  | yieldNow =>
    obtain ⟨active, rfl⟩ := call_eq_some stepped
    exact going active (safe.placed.update (fun _ => rfl) fun other => absurd rfl other)
  | timerTick rsp tick lockHeld =>
    obtain ⟨inside, ticked⟩ := ite_none_right_eq_some.mp stepped
    cases ticked
    exact safe.tick sound.steady inside careful
  | otherFrames call result =>
    obtain ⟨client, _, rfl⟩ := map_eq_some_iff.mp stepped
    exact ⟨safe.placed, safe.pending⟩

/-- The system is safe and has a history that accounts for the stacks. -/
def Kept (memoryMap : MemoryMap) (boot : Stack) (sys : SchedSystem) : Prop :=
  (∃ trace : StackTrace, trace.sys = sys ∧ trace.Inv memoryMap) ∧ sys.Safe boot

theorem start_kept {cpu : StackPointer} (inside : cpu.Inside) :
    (start memoryMap cpu).Kept memoryMap cpu.stack := by
  refine ⟨⟨_, rfl, StackTrace.start_inv memoryMap cpu⟩, ⟨⟨rfl, inside⟩, fun i other => ?_⟩, nofun⟩
  rw [start_tasks_of_ne other]
  exact fun occupied => absurd rfl occupied

theorem step_kept {event : SchedEvent} (kept : sys.Kept memoryMap boot)
    (careful : sys.Careful event) (stepped : sys.step event = some next) :
    next.Kept memoryMap boot := by
  obtain ⟨⟨trace, rfl, inv⟩, safe⟩ := kept
  have traced : trace.step event = some (trace.record event next) :=
    congrArg (Option.map _) (advance_of_step stepped)
  have inv' := StackTrace.step_inv inv careful.killsOthers traced
  have same := trace.record_sys event next
  exact ⟨⟨_, same, inv'⟩, safe.step inv.sound (same ▸ inv'.sound) careful stepped⟩

end SchedSystem

/--
Whatever memory map the kernel booted with and whatever the boot stack in the
higher half, in every run in which the running task is never killed and every
timer interrupt that finds a release pending gets the lock and finds a task
that is ready or due, the stack that the CPU is on has no free frame.
-/
theorem cpu_onLiveStack_of_careful (memoryMap : MemoryMap) (cpu : StackPointer)
    (inside : cpu.Inside) (high : maxFrames * pageSize ≤ cpu.stack.base)
    (events : List SchedEvent) (sys : SchedSystem)
    (reached : Transition.run SchedSystem.step (SchedSystem.start memoryMap cpu) events = some sys)
    (careful : Transition.Meets SchedSystem.step SchedSystem.Careful
      (SchedSystem.start memoryMap cpu) events) :
    sys.OnLiveStack := by
  have kept := Transition.run_preserves
    (fun _ _ _ kept careful stepped => SchedSystem.step_kept kept careful stepped)
    (SchedSystem.start_kept inside) careful reached
  obtain ⟨⟨trace, rfl, inv⟩, safe⟩ := kept
  exact safe.onLiveStack inv.sound high

theorem cpu_onLiveStack_politeRun : ∃ sys,
    Transition.run SchedSystem.step (SchedSystem.start eightFrameMap bootPointer) politeRun =
        some sys ∧ sys.OnLiveStack := by
  refine ⟨_, (some_get (by decide +kernel)).symm, ?_⟩
  exact cpu_onLiveStack_of_careful eightFrameMap bootPointer (by decide) (by decide) politeRun _
    (some_get _).symm (by decide +kernel)

/-- A task exits while the boot thread, the only other one, is asleep. -/
def lonelyExit : List SchedEvent :=
  [.spawn .normal, .sleepMs 0 1000, .timerTick 0xFFFFFFFF8000FF00 1 false, .exitCurrentTask,
    .timerTick 0x104F00 2 false]

/-- The last timer interrupt frees the stack of the exited task and returns into it. -/
theorem cpu_onFreedStack_lonelyExit : ∃ sys,
    Transition.run SchedSystem.step (SchedSystem.start eightFrameMap bootPointer) lonelyExit =
        some sys ∧
      sys.cpu = ⟨0x104F00, ⟨0x100000, taskStackSize⟩⟩ ∧
      sys.state.frames.isFree (sys.cpu.rsp / pageSize) = true ∧ ¬ sys.OnLiveStack := by
  have seen : ∃ sys ∈ Transition.run SchedSystem.step booted lonelyExit,
      sys.cpu = ⟨0x104F00, ⟨0x100000, taskStackSize⟩⟩ ∧
        sys.state.frames.isFree (sys.cpu.rsp / pageSize) = true ∧
        sys.cpu.rsp / pageSize ∈ sys.cpu.stack.frames := by
    decide +kernel
  obtain ⟨sys, reached, cpu, free, member⟩ := seen
  exact ⟨sys, reached, cpu, free, fun live => by cases free.symm.trans (live.2 _ member)⟩

end CantayaOS.Sched
