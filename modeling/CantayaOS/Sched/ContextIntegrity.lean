import CantayaOS.Sched.Advance

/-!
# Contexts are resumed where they were left

A history beside the scheduler numbers the tasks in the order in which they are
spawned, follows which of them the CPU executes, and notes the frame that was
built for each and the stack pointer at the last timer interrupt that it was
interrupted by.
-/

namespace CantayaOS.Sched

open Lib Memory Shared SchedSystem Scheduler Option Function

/-- The timer interrupt has switched to a task: it counted a switch or changed the slot. -/
def Scheduler.TookSwitch (before after : Scheduler) : Prop :=
  after.contextSwitches ≠ before.contextSwitches ∨ after.current ≠ before.current

instance (before after : Scheduler) : Decidable (before.TookSwitch after) :=
  inferInstanceAs (Decidable (_ ∨ _))

/-- The frame that `spawn` builds at the top of a stack. -/
def spawnFrame (stackBase : Nat) : StackPointer :=
  ⟨stackBase + taskStackSize - contextSlots * 8, ⟨stackBase, taskStackSize⟩⟩

structure Traced where
  sys : SchedSystem
  spawned : Nat
  taskIn : Slot → Nat
  executing : Nat
  frame : Nat → StackPointer
  ran : Nat → Bool
  interrupted : Nat → Option StackPointer

namespace Traced

/-- At the start the boot thread, task 0, is executing. -/
def start (memoryMap : MemoryMap) (cpu : StackPointer) : Traced where
  sys := SchedSystem.start memoryMap cpu
  spawned := 1
  taskIn := fun _ => 0
  executing := 0
  frame := fun _ => cpu
  ran := fun n => n == 0
  interrupted := fun _ => none

def recordSpawn (trace : Traced) : Traced :=
  match trace.sys.state.scheduler.freeSlot,
      (trace.sys.state.frames.allocateContiguousFrames taskStackPages).1 with
  | some slot, some stackBase =>
    { trace with
      spawned := trace.spawned + 1
      taskIn := Function.update trace.taskIn slot trace.spawned
      frame := Function.update trace.frame trace.spawned (spawnFrame stackBase) }
  | _, _ => trace

/-- The executing task is interrupted, and the CPU goes on with it or with the task switched to. -/
def recordTick (trace : Traced) (rsp : Nat) (after : Scheduler) : Traced :=
  let executing :=
    if trace.sys.state.scheduler.TookSwitch after then trace.taskIn after.current
    else trace.executing
  { trace with
    executing
    ran := Function.update trace.ran executing true
    interrupted :=
      Function.update trace.interrupted trace.executing (some ⟨rsp, trace.sys.cpu.stack⟩) }

/-- The history after an event that led to the system `next`. -/
def record (trace : Traced) (event : SchedEvent) (next : SchedSystem) : Traced :=
  match event with
  | .spawn _ => { trace.recordSpawn with sys := next }
  | .timerTick rsp _ _ => { trace.recordTick rsp next.state.scheduler with sys := next }
  | _ => { trace with sys := next }

def step (trace : Traced) (event : SchedEvent) : Option Traced :=
  (trace.sys.advance event).map (trace.record event)

end Traced

/-- Where a task is to be resumed: at its frame, or where it was last interrupted if it ran. -/
def ResumePoint (frame : Nat → StackPointer) (ran : Nat → Bool)
    (interrupted : Nat → Option StackPointer) (task : Nat) (pointer : StackPointer) : Prop :=
  if ran task = true then interrupted task = some pointer else pointer = frame task

variable {sys : SchedSystem} {i : Slot}

namespace Traced

structure Faithful (trace : Traced) : Prop where
  steady : trace.sys.Steady
  here : trace.taskIn trace.sys.state.scheduler.current = trace.executing
  known : ∀ i, trace.taskIn i < trace.spawned
  distinct : ∀ i j, i ≠ j → (trace.sys.state.scheduler.tasks i).state ≠ .empty →
    ((trace.sys.state.scheduler.tasks j).state ≠ .empty ∨ j = trace.sys.state.scheduler.current) →
    trace.taskIn i ≠ trace.taskIn j
  fresh : ∀ n, trace.spawned ≤ n → trace.ran n = false
  runs : trace.ran trace.executing = true
  saved : ∀ i, i ≠ trace.sys.state.scheduler.current →
    (trace.sys.state.scheduler.tasks i).state ≠ .empty →
    ResumePoint trace.frame trace.ran trace.interrupted (trace.taskIn i)
      (trace.sys.state.scheduler.tasks i).savedRsp

variable {trace : Traced}

theorem start_faithful (memoryMap : MemoryMap) (cpu : StackPointer) :
    (start memoryMap cpu).Faithful := by
  have empty {i : Slot} (other : i ≠ firstSlot) :
      (start memoryMap cpu).sys.sched.tasks i = Task.empty :=
    start_tasks_of_ne other
  refine ⟨start_steady memoryMap cpu, rfl, fun _ => one_pos, ?_, ?_, rfl, ?_⟩
  · intro i j different occupied either
    have first : i = firstSlot := by
      by_contra other
      exact occupied (congrArg Task.state (empty other))
    rcases either with occupiedToo | isFirst
    · have other : j ≠ firstSlot := first ▸ different.symm
      exact absurd (congrArg Task.state (empty other)) occupiedToo
    · exact absurd (first.trans isFirst.symm) different
  · intro n later
    exact beq_eq_false_iff_ne.mpr (ne_of_gt later)
  · intro i other occupied
    rw [empty other] at occupied
    exact absurd rfl occupied

theorem Faithful.keep (faithful : trace.Faithful) (steady : sys.Steady)
    (current : sys.sched.current = trace.sys.sched.current)
    (kept : ∀ i, (sys.sched.tasks i).state ≠ .empty →
      (trace.sys.tasks i).state ≠ .empty ∧
        (sys.sched.tasks i).savedRsp =
          (trace.sys.tasks i).savedRsp) : { trace with sys }.Faithful := by
  refine ⟨steady, ?_, faithful.known, ?_, faithful.fresh, faithful.runs, ?_⟩
  · exact (congrArg trace.taskIn current).trans faithful.here
  · intro i j different occupied either
    refine faithful.distinct i j different (kept i occupied).1 ?_
    rcases either with occupiedToo | isCurrent
    · exact .inl (kept j occupiedToo).1
    · exact .inr (isCurrent.trans current)
  · intro i other occupied
    rw [current] at other
    obtain ⟨before, pointer⟩ := kept i occupied
    rw [pointer]
    exact faithful.saved i other before

theorem Faithful.modify (faithful : trace.Faithful) (steady : sys.Steady) {slot : Slot}
    {change : Task → Task}
    (same : sys.sched = trace.sys.sched.modify slot change)
    (saved : (change (trace.sys.sched.tasks slot)).state ≠ .empty →
      (trace.sys.sched.tasks slot).state ≠ .empty ∧
        (change (trace.sys.sched.tasks slot)).savedRsp =
          (trace.sys.tasks slot).savedRsp) : { trace with sys }.Faithful := by
  refine faithful.keep steady (by rw [same]; rfl) fun i => ?_
  rw [same]
  by_cases isSlot : i = slot
  · rw [isSlot, tasks_modify_self]
    exact saved
  · rw [tasks_modify_of_ne _ _ isSlot]
    exact fun occupied => ⟨occupied, rfl⟩

/-- A spawned task gets a slot, a number and a frame of its own. -/
theorem Faithful.spawn (faithful : trace.Faithful) {slot : Slot} {stackBase : Nat}
    {frames : FrameAllocator} (priority : TaskPriority) (steady : sys.Steady)
    (active : trace.sys.control = .active) (found : trace.sys.sched.freeSlot = some slot)
    (allocated : trace.sys.state.frames.allocateContiguousFrames taskStackPages =
      (some stackBase, frames))
    (same : sys.sched = Scheduler.modify
      { trace.sys.sched with nextId := trace.sys.sched.nextId + 1 } slot
      fun _ => Task.spawned trace.sys.sched.nextId stackBase priority) :
    { trace.recordSpawn with sys }.Faithful := by
  have running := faithful.steady.active active
  have other : trace.sys.sched.current ≠ slot := by
    intro isSlot
    rw [isSlot, freeSlot_empty found] at running
    cases running
  have recorded : { trace.recordSpawn with sys } =
      { trace with
        sys
        spawned := trace.spawned + 1
        taskIn := update trace.taskIn slot trace.spawned
        frame := update trace.frame trace.spawned (spawnFrame stackBase) } := by
    unfold recordSpawn
    rw [found, allocated]
  have current : sys.sched.current = trace.sys.sched.current := by
    rw [same]
    rfl
  have self : sys.sched.tasks slot = Task.spawned trace.sys.sched.nextId stackBase priority := by
    rw [same, tasks_modify_self]
  have kept {i : Slot} (away : i ≠ slot) : sys.sched.tasks i = trace.sys.tasks i := by
    rw [same, tasks_modify_of_ne _ _ away]
  have older (i : Slot) : trace.taskIn i ≠ trace.spawned := Nat.ne_of_lt (faithful.known i)
  rw [recorded]
  refine ⟨steady, ?_, ?_, ?_, ?_, faithful.runs, ?_⟩
  all_goals dsimp only
  · rw [current, update_of_ne other]
    exact faithful.here
  · intro i
    by_cases isSlot : i = slot
    · rw [isSlot, update_self]
      exact Nat.lt_succ_self _
    · rw [update_of_ne isSlot]
      exact Nat.lt_succ_of_lt (faithful.known i)
  · intro i j different occupied either
    by_cases first : i = slot
    · rw [first, update_self, update_of_ne (first ▸ different.symm)]
      exact (older j).symm
    by_cases second : j = slot
    · rw [second, update_self, update_of_ne first]
      exact older i
    rw [kept first] at occupied
    rw [kept second, current] at either
    rw [update_of_ne first, update_of_ne second]
    exact faithful.distinct i j different occupied either
  · intro n later
    exact faithful.fresh n (Nat.le_of_succ_le later)
  · intro i away occupied
    unfold ResumePoint
    by_cases isSlot : i = slot
    · rw [isSlot, update_self, self, faithful.fresh _ le_rfl, update_self]
      rfl
    · rw [kept isSlot] at occupied ⊢
      rw [update_of_ne isSlot, update_of_ne (older i)]
      exact faithful.saved i (current ▸ away) occupied

/-! ## Timer interrupts -/

end Traced

namespace Scheduler

variable {sched : Scheduler}

/-- What a timer interrupt does to saved pointers, with `charged` before the choice of a task. -/
structure Resumed (sched charged : Scheduler) (result : StackPointer × Scheduler) : Prop where
  saved : ∀ i, i ≠ result.2.current → (result.2.tasks i).state ≠ .empty →
    (charged.tasks i).state ≠ .empty ∧ (result.2.tasks i).savedRsp = (charged.tasks i).savedRsp
  current : (charged.tasks result.2.current).state ≠ .empty ∨ result.2.current = sched.current
  switched : sched.TookSwitch result.2 → (charged.tasks result.2.current).state ≠ .empty ∧
    result.1 = (charged.tasks result.2.current).savedRsp

theorem charged_saved (other : i ≠ sched.current)
    (occupied : (sched.tasks i).state ≠ .empty) (pointer : StackPointer) (tick : UInt64) :
    ((sched.charged pointer tick).tasks i).state ≠ .empty ∧
      (sched.tasks i).savedRsp = ((sched.charged pointer tick).tasks i).savedRsp := by
  rw [charged_of_ne other]
  unfold Task.wake
  split
  · exact ⟨nofun, rfl⟩
  · exact ⟨occupied, rfl⟩

theorem retired_saved (occupied : (sched.retired.tasks i).state ≠ .empty) :
    (sched.tasks i).state ≠ .empty ∧
      (sched.retired.tasks i).savedRsp = (sched.tasks i).savedRsp := by
  by_cases isCurrent : i = sched.current
  · rw [isCurrent, retired_self] at occupied ⊢
    unfold Task.retire at occupied ⊢
    split
    next exited =>
      rw [if_pos exited] at occupied
      exact absurd rfl occupied
    next stays =>
      split
      · next running => exact ⟨by rw [running]; exact nofun, rfl⟩
      next stopped =>
        rw [if_neg stays, if_neg stopped] at occupied
        exact ⟨occupied, rfl⟩
  · rw [retired_of_ne isCurrent] at occupied ⊢
    exact ⟨occupied, rfl⟩

theorem not_tookSwitch {before after : Scheduler}
    (counted : after.contextSwitches = before.contextSwitches)
    (current : after.current = before.current) : ¬ before.TookSwitch after := by
  rintro (counts | moves)
  · exact counts counted
  · exact moves current

theorem timerTickLocked_resumed (started : sched.initialized = true)
    (stopped : ∀ i, i ≠ sched.current → (sched.tasks i).state ≠ .running)
    (pointer : StackPointer) (tick : UInt64) :
    Resumed sched (sched.charged pointer tick) (sched.timerTickLocked pointer tick) := by
  have outcome := timerTickLocked_outcome started pointer tick
  generalize sched.timerTickLocked pointer tick = result at outcome
  cases outcome with
  | stays goesOn =>
    exact ⟨fun i _ occupied => ⟨occupied, rfl⟩, .inr rfl,
      fun switched => absurd switched (not_tookSwitch rfl rfl)⟩
  | @switches next spent picked =>
    have occupied : ((sched.charged pointer tick).retired.tasks next).state ≠ .empty := by
      rw [pickNext_ready picked]
      exact nofun
    refine ⟨?_, .inl (retired_saved occupied).1, fun _ => ⟨(retired_saved occupied).1, ?_⟩⟩
    · intro i other occupiedToo
      have kept : ((sched.charged pointer tick).retired.switchTo next).tasks i =
          (sched.charged pointer tick).retired.tasks i := switchTo_of_ne other
      rw [kept] at occupiedToo ⊢
      exact retired_saved occupiedToo
    · rw [switchTo_self]
      exact (retired_saved occupied).2
  | idles spent idle =>
    exact ⟨fun i _ occupied => retired_saved occupied, .inr rfl,
      fun switched => absurd switched (not_tookSwitch rfl rfl)⟩
  | fallsBack spent idle running =>
    exact absurd running (retired_stopped stopped pointer tick firstSlot)

end Scheduler

namespace Traced

variable {trace next : Traced}

section

variable (faithful : trace.Faithful)
include faithful

/-- Once the current task is charged, every occupied slot is saved. -/
theorem Faithful.charged (pointer : StackPointer) (tick : UInt64)
    (occupied : ((trace.sys.sched.charged pointer tick).tasks i).state ≠ .empty) :
    ResumePoint trace.frame trace.ran
      (update trace.interrupted trace.executing (some pointer)) (trace.taskIn i)
      ((trace.sys.sched.charged pointer tick).tasks i).savedRsp := by
  unfold ResumePoint
  by_cases isCurrent : i = trace.sys.current
  · rw [isCurrent, faithful.here, faithful.runs, update_self, charged_self]
    rfl
  rw [charged_state] at occupied
  have before := mt (wake_state_iff .empty nofun nofun).mpr occupied
  have apart : trace.taskIn i ≠ trace.executing := by
    rw [← faithful.here]
    exact faithful.distinct i _ isCurrent before (.inr rfl)
  rw [charged_of_ne isCurrent, update_of_ne apart, (wake_kept ..).2.2.2]
  exact faithful.saved i isCurrent before

/-- The slot holds a task, or it is the slot of the executing one. -/
def Holds (trace : Traced) (i : Slot) : Prop :=
  (trace.sys.state.scheduler.tasks i).state ≠ .empty ∨ i = trace.sys.state.scheduler.current

theorem Faithful.apart {j : Slot} (different : i ≠ j)
    (first : trace.Holds i) (second : trace.Holds j) : trace.taskIn i ≠ trace.taskIn j := by
  rcases first with occupied | isCurrent
  · exact faithful.distinct i j different occupied second
  · have occupied := second.resolve_right fun same => different (isCurrent.trans same.symm)
    exact (faithful.distinct j i different.symm occupied (.inr isCurrent)).symm

/-- The history after a timer interrupt that left the scheduler as `sys` has it. -/
theorem Faithful.resume (rsp : Nat) (tick : UInt64) {charged : Scheduler}
    (charging : trace.sys.sched.charged ⟨rsp, trace.sys.cpu.stack⟩ tick = charged)
    (steady : sys.Steady)
    (saved : ∀ i, i ≠ sys.sched.current →
      (sys.sched.tasks i).state ≠ .empty → (charged.tasks i).state ≠ .empty ∧
        (sys.sched.tasks i).savedRsp = (charged.tasks i).savedRsp)
    (current : (charged.tasks sys.current).state ≠ .empty ∨
      sys.sched.current = trace.sys.current) :
    { trace.recordTick rsp sys.sched with sys }.Faithful := by
  have executing : (trace.recordTick rsp sys.sched).executing = trace.taskIn sys.sched.current := by
    unfold recordTick
    split
    · rfl
    next stays =>
      rw [← faithful.here, not_not.mp fun moved => stays (.inr moved)]
  have before {i : Slot} (occupied : (charged.tasks i).state ≠ .empty) :
      (trace.sys.tasks i).state ≠ .empty := by
    rw [← charging] at occupied
    exact mt (charged_state_iff _ _ tick i .empty nofun nofun).mpr occupied
  have holds {i : Slot} (either : (sys.tasks i).state ≠ .empty ∨
      i = sys.current) : trace.Holds i := by
    by_cases isCurrent : i = sys.sched.current
    · rw [isCurrent]
      exact current.imp before id
    · exact .inl (before (saved i isCurrent (either.resolve_right isCurrent)).1)
  refine ⟨steady, executing.symm, faithful.known, ?_, ?_, ?_, ?_⟩
  · intro i j different occupied either
    exact faithful.apart different (holds (.inl occupied)) (holds either)
  · intro n later
    have isNew : n ≠ (trace.recordTick rsp sys.sched).executing := by
      rw [executing]
      exact ne_of_gt (lt_of_lt_of_le (faithful.known _) later)
    exact (update_of_ne isNew ..).trans (faithful.fresh n later)
  · exact update_self ..
  · intro i other occupied
    obtain ⟨occupiedThen, pointer⟩ := saved i other occupied
    have apart : trace.taskIn i ≠ (trace.recordTick rsp sys.sched).executing := by
      rw [executing]
      exact faithful.apart other (holds (.inl occupied)) (holds (.inr rfl))
    rw [← charging] at occupiedThen pointer
    have resumes := faithful.charged _ tick occupiedThen
    have ran : (trace.recordTick rsp sys.sched).ran (trace.taskIn i) =
        trace.ran (trace.taskIn i) := update_of_ne apart ..
    rw [pointer]
    change if (trace.recordTick rsp sys.sched).ran (trace.taskIn i) = true then _ else _
    rw [ran]
    exact resumes

/-- A timer interrupt that gets the lock resumes a task where it was left. -/
theorem Faithful.tick (rsp : Nat) (tick : UInt64) :
    (trace.record (.timerTick rsp tick false) (trace.sys.tick rsp tick false)).Faithful ∧
      (trace.sys.sched.TookSwitch (trace.sys.tick rsp tick false).state.scheduler →
        ResumePoint trace.frame trace.ran
          (update trace.interrupted trace.executing (some ⟨rsp, trace.sys.cpu.stack⟩))
          (trace.taskIn (trace.sys.tick rsp tick false).state.scheduler.current)
          (trace.sys.tick rsp tick false).cpu) := by
  have resumed := timerTickLocked_resumed faithful.steady.started
    faithful.steady.stopped ⟨rsp, trace.sys.cpu.stack⟩ tick
  have steady := faithful.steady.tick rsp tick false
  obtain ⟨sched, cpu⟩ := tick_locked trace.sys rsp tick
  have pair := Prod.ext cpu.symm sched.symm
  rw [pair] at resumed
  constructor
  · exact faithful.resume rsp tick rfl steady resumed.saved resumed.current
  · intro switched
    obtain ⟨occupied, pointer⟩ := resumed.switched switched
    have resumes := faithful.charged ⟨rsp, trace.sys.cpu.stack⟩ tick occupied
    rw [← pointer] at resumes
    exact resumes

/-- A timer interrupt that finds the lock held only interrupts the executing task. -/
theorem Faithful.tickHeld (rsp : Nat) (tick : UInt64) :
    (trace.record (.timerTick rsp tick true) (trace.sys.tick rsp tick true)).Faithful ∧
      ¬ trace.sys.sched.TookSwitch (trace.sys.tick rsp tick true).sched := by
  have kept : (trace.sys.tick rsp tick true).sched = _ := (tick_lockHeld trace.sys rsp tick).1
  have steady := faithful.steady.tick rsp tick true
  constructor
  · refine faithful.resume rsp tick rfl steady ?_ ?_
    · rw [kept]
      exact fun i other occupied => charged_saved other occupied _ _
    · rw [kept]
      exact .inr rfl
  · rw [kept]
    exact not_tookSwitch rfl rfl

/-- Spawning is recorded exactly if it takes place. -/
theorem spawn_faithful {priority : TaskPriority} (steady : sys.Steady)
    (advanced : trace.sys.advance (.spawn priority) = some sys) :
    (trace.record (.spawn priority) sys).Faithful := by
  obtain ⟨active, rfl⟩ := call_eq_some advanced
  have spawned := trace.sys.state.spawnWithPriority_spawned priority
  generalize (trace.sys.state.spawnWithPriority priority).2 = after at spawned steady
  cases spawned with
  | refused reason =>
    have unrecorded : trace.recordSpawn = trace := by
      unfold recordSpawn
      rcases reason with ⟨full, _⟩ | noFrames
      · rw [full]
      · split <;> simp_all
    unfold record
    rw [unrecorded]
    exact faithful.keep steady rfl fun _ occupied => ⟨occupied, rfl⟩
  | spawned found allocated => exact faithful.spawn priority steady active found allocated rfl

theorem step_faithful {event : SchedEvent}
    (others : trace.sys.KillsOthers event) (stepped : trace.step event = some next) :
    next.Faithful := by
  obtain ⟨sys, advanced, rfl⟩ := map_eq_some_iff.mp stepped
  have effect := advance_effect advanced
  have steady := advance_steady faithful.steady others advanced
  have occupied (active : trace.sys.control = .active) : (trace.sys.state.scheduler.tasks
      trace.sys.state.scheduler.current).state ≠ .empty := by
    rw [faithful.steady.active active]
    exact nofun
  generalize same : sys.state.scheduler = after at effect
  cases effect with
  | spawned active found allocated => exact spawn_faithful faithful steady advanced
  | killed active nonzero found =>
    exact faithful.modify steady same fun occupied => absurd rfl occupied
  | exited active => exact faithful.modify steady same fun _ => ⟨occupied active, rfl⟩
  | slept active currentTick ms =>
    exact faithful.modify steady same fun _ => ⟨occupied active, rfl⟩
  | prioritised active priority found =>
    exact faithful.modify steady same fun occupied => ⟨occupied, rfl⟩
  | yielded active => exact faithful.modify steady same fun occupied => ⟨occupied, rfl⟩
  | ticked rsp tick =>
    cases advanced
    exact (faithful.tick rsp tick).1
  | unchanged event waits =>
    cases event with
    | spawn priority => exact spawn_faithful faithful steady advanced
    | timerTick rsp tick lockHeld =>
      cases lockHeld with
      | false => exact absurd rfl (waits rsp tick)
      | true =>
        cases advanced
        exact (faithful.tickHeld rsp tick).1
    | _ =>
      exact faithful.keep steady (congrArg _ same) fun i occupied => by
        have kept : sys.sched = trace.sys.sched := same
        rw [kept] at occupied ⊢
        exact ⟨occupied, rfl⟩

end

end Traced

/--
In every run in which the running task is never killed, a timer interrupt that
switches to a task returns the frame that `spawn` built for it if the task has
never run, and otherwise the stack pointer that was passed to the last timer
interrupt of that task.
-/
theorem switch_resumes_saved_context (memoryMap : MemoryMap) (cpu : StackPointer)
    (events : List SchedEvent) (trace next : Traced) (rsp : Nat) (tick : UInt64) (lockHeld : Bool)
    (reached : Transition.run Traced.step (Traced.start memoryMap cpu) events = some trace)
    (others : Transition.Meets Traced.step (fun trace => trace.sys.KillsOthers)
      (Traced.start memoryMap cpu) events)
    (ticked : trace.step (.timerTick rsp tick lockHeld) = some next)
    (switched : trace.sys.state.scheduler.TookSwitch next.sys.state.scheduler) :
    ResumePoint next.frame trace.ran next.interrupted
      (trace.taskIn next.sys.state.scheduler.current) next.sys.cpu := by
  have faithful := Transition.run_preserves
    (fun _ _ _ faithful others stepped => Traced.step_faithful faithful others stepped)
    (Traced.start_faithful memoryMap cpu) others reached
  obtain ⟨sys, advanced, rfl⟩ := map_eq_some_iff.mp ticked
  cases advanced
  cases lockHeld with
  | true => exact absurd switched (faithful.tickHeld rsp tick).2
  | false => exact (faithful.tick rsp tick).2 switched

/-- A task is spawned and runs until it yields. -/
def shortTurn : List SchedEvent :=
  [.spawn .normal, .yieldNow, .timerTick 0xFFFFFFFF8000FF00 1 false, .yieldNow]

/-- The timer interrupt that ends the task's turn resumes the boot thread where it was left. -/
theorem switch_resumes_bootThread : ∃ trace next,
    Transition.run Traced.step (Traced.start eightFrameMap bootPointer) shortTurn = some trace ∧
      trace.step (.timerTick 0x104F00 2 false) = some next ∧
      trace.ran 0 = true ∧
      ResumePoint next.frame trace.ran next.interrupted
        (trace.taskIn next.sys.state.scheduler.current) next.sys.cpu := by
  have seen : ∃ trace ∈ Transition.run Traced.step (Traced.start eightFrameMap bootPointer)
      shortTurn, trace.ran 0 = true ∧ trace.sys.sched.TookSwitch
        (trace.sys.tick 0x104F00 2 false).state.scheduler := by
    decide +kernel
  obtain ⟨trace, reached, ran, switched⟩ := seen
  exact ⟨trace, _, reached, rfl, ran, switch_resumes_saved_context eightFrameMap bootPointer
    shortTurn trace _ 0x104F00 2 false reached (by decide +kernel) rfl switched⟩

end CantayaOS.Sched
