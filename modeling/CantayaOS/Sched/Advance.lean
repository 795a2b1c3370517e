import CantayaOS.Sched.StackLedger
import CantayaOS.Sched.TickOutcome

/-!
# Events and what they do

The scheduler with the CPU it runs on: calls come from the running context,
which after `exit_current_task` and during `sleep_ms` only waits for the timer,
and every timer interrupt hands in a stack pointer, which may be required to lie
in the stack that the CPU is on.  Other components use the same frame allocator
at any time.
-/

namespace CantayaOS.Sched

open Lib Memory Shared Scheduler Option

/-- What the code that the CPU executes is doing. -/
inductive Control where
  | active
  | sleeping
  | exited
  deriving DecidableEq, Repr

/-- The scheduler, the CPU's stack pointer, and the parts other components hold. -/
structure SchedSystem where
  state : SchedState
  cpu : StackPointer
  control : Control
  others : List (Finset Nat)

abbrev SchedSystem.sched (sys : SchedSystem) : Scheduler :=
  sys.state.scheduler

abbrev SchedSystem.tasks (sys : SchedSystem) : Slot → Task :=
  sys.state.scheduler.tasks

abbrev SchedSystem.current (sys : SchedSystem) : Slot :=
  sys.state.scheduler.current

/-- The events: calls of the running context, timer interrupts, allocator calls of others. -/
inductive SchedEvent where
  | spawn (priority : TaskPriority)
  | kill (taskId : UInt32)
  | exitCurrentTask
  | sleepMs (currentTick ms : UInt64)
  | setPriority (taskId : UInt32) (priority : TaskPriority)
  | yieldNow
  | timerTick (rsp : Nat) (currentTick : UInt64) (lockHeld : Bool)
  | otherFrames (call : FrameCall) (result : Option Nat)

inductive SchedState.Spawned (state : SchedState) (priority : TaskPriority) :
    SchedState → Prop where
  | refused {frames : FrameAllocator}
      (reason : state.scheduler.freeSlot = none ∧ frames = state.frames ∨
        state.frames.allocateContiguousFrames taskStackPages = (none, frames)) :
      Spawned state priority { state with frames }
  | spawned {slot : Slot} {stackBase : Nat} {frames : FrameAllocator}
      (found : state.scheduler.freeSlot = some slot)
      (allocated : state.frames.allocateContiguousFrames taskStackPages =
        (some stackBase, frames)) :
      Spawned state priority
        ⟨Scheduler.modify { state.scheduler with nextId := state.scheduler.nextId + 1 } slot
          fun _ => Task.spawned state.scheduler.nextId stackBase priority,
          state.deferredFree, frames⟩

theorem SchedState.spawnWithPriority_spawned (state : SchedState) (priority : TaskPriority) :
    Spawned state priority (state.spawnWithPriority priority).2 := by
  unfold spawnWithPriority
  split
  · next full => exact .refused (.inl ⟨full, rfl⟩)
  next slot found =>
    split
    · next frames allocated => exact .refused (.inr allocated)
    · next stackBase frames allocated => exact .spawned found allocated

variable {memoryMap : MemoryMap} {cpu : StackPointer} {control : Control} {task : Task}

theorem Scheduler.freeSlot_empty {sched : Scheduler} {slot : Slot}
    (found : sched.freeSlot = some slot) : (sched.tasks slot).state = .empty := by
  have chosen := List.find?_some found
  exact of_decide_eq_true chosen

theorem SchedState.processDeferredFree_scheduler (state : SchedState) :
    state.processDeferredFree.scheduler = state.scheduler := by
  unfold processDeferredFree
  split <;> rfl

namespace SchedSystem

/-- After initialisation the CPU is on the boot stack. -/
def start (memoryMap : MemoryMap) (cpu : StackPointer) : SchedSystem where
  state := ⟨Scheduler.init, none, FrameAllocator.init memoryMap⟩
  cpu := cpu
  control := .active
  others := []

def call (sys : SchedSystem) (state : SchedState) : Option SchedSystem :=
  if sys.control = .active then some { sys with state } else none

/--
One event.  A timer interrupt comes with a pointer into the CPU's stack; a
context that waits in `sleep_ms` goes on once its task is running.
-/
def step (sys : SchedSystem) : SchedEvent → Option SchedSystem
  | .spawn priority => sys.call (sys.state.spawnWithPriority priority).2
  | .kill taskId => sys.call (sys.state.kill taskId).2
  | .exitCurrentTask =>
    (sys.call sys.state.exitCurrentTask).map fun sys => { sys with control := .exited }
  | .sleepMs currentTick ms =>
    (sys.call (sys.state.sleepMs currentTick ms)).map fun sys => { sys with control := .sleeping }
  | .setPriority taskId priority => sys.call (sys.state.setPriority taskId priority).2
  | .yieldNow => sys.call sys.state.yieldNow
  | .timerTick rsp currentTick lockHeld =>
    let pointer : StackPointer := ⟨rsp, sys.cpu.stack⟩
    if pointer.Inside then
      let (next, state) := sys.state.timerTick pointer currentTick lockHeld
      let task := state.scheduler.tasks state.scheduler.current
      some { sys with
        state
        cpu := next
        control := if task.state = .running then .active else sys.control }
    else none
  | .otherFrames call result =>
    (FrameClient.step ⟨sys.state.frames, sys.others⟩ (call, result)).map fun client =>
      { sys with state := { sys.state with frames := client.allocator }, others := client.live }

theorem start_tasks_of_ne {i : Slot} (other : i ≠ firstSlot) :
    (start memoryMap cpu).state.scheduler.tasks i = Task.empty := by
  simp [start, init, other]

theorem start_stackBase (i : Slot) :
    ((start memoryMap cpu).state.scheduler.tasks i).stackBase = 0 := by
  by_cases same : i = firstSlot
  · rw [same]
    rfl
  · rw [start_tasks_of_ne same]
    rfl

theorem call_eq_some {sys next : SchedSystem} {state : SchedState}
    (called : sys.call state = some next) :
    sys.control = .active ∧ next = { sys with state } := by
  unfold call at called
  split at called
  · next active => exact ⟨active, (Option.some.inj called).symm⟩
  · cases called

/-- The context that the CPU executes after a tick is active only if its task runs. -/
theorem resumes (before : control = .active → task.state = .running) :
    (if task.state = .running then .active else control) = .active → task.state = .running := by
  split
  · next running => exact fun _ => running
  · exact before

/-- A timer interrupt with an arbitrary stack pointer. -/
def tick (sys : SchedSystem) (rsp : Nat) (currentTick : UInt64) (lockHeld : Bool) : SchedSystem :=
  let (next, state) := sys.state.timerTick ⟨rsp, sys.cpu.stack⟩ currentTick lockHeld
  let task := state.scheduler.tasks state.scheduler.current
  { sys with
    state
    cpu := next
    control := if task.state = .running then .active else sys.control }

/-- One event, where the stack pointer at a timer interrupt may be any number. -/
def advance (sys : SchedSystem) : SchedEvent → Option SchedSystem
  | .timerTick rsp currentTick lockHeld => some (sys.tick rsp currentTick lockHeld)
  | event => sys.step event

theorem tick_locked (sys : SchedSystem) (rsp : Nat) (currentTick : UInt64) :
    (sys.tick rsp currentTick false).state.scheduler =
        (sys.sched.timerTickLocked ⟨rsp, sys.cpu.stack⟩ currentTick).2 ∧
      (sys.tick rsp currentTick false).cpu =
        (sys.sched.timerTickLocked ⟨rsp, sys.cpu.stack⟩ currentTick).1 := by
  have kept := sys.state.processDeferredFree_scheduler
  unfold tick SchedState.timerTick
  dsimp only
  rw [kept]
  exact ⟨rfl, rfl⟩

theorem tick_lockHeld (sys : SchedSystem) (rsp : Nat) (currentTick : UInt64) :
    (sys.tick rsp currentTick true).state.scheduler = sys.sched ∧
      (sys.tick rsp currentTick true).cpu = ⟨rsp, sys.cpu.stack⟩ :=
  ⟨sys.state.processDeferredFree_scheduler, rfl⟩

inductive Effect (sys : SchedSystem) : SchedEvent → Scheduler → Prop where
  | unchanged (event : SchedEvent) (waits : ∀ rsp tick, event ≠ .timerTick rsp tick false) :
      Effect sys event sys.state.scheduler
  | spawned {priority : TaskPriority} {slot : Slot} {stackBase : Nat} {frames : FrameAllocator}
      (active : sys.control = .active)
      (found : sys.state.scheduler.freeSlot = some slot)
      (allocated : sys.state.frames.allocateContiguousFrames taskStackPages =
        (some stackBase, frames)) :
      Effect sys (.spawn priority)
        (Scheduler.modify { sys.state.scheduler with nextId := sys.state.scheduler.nextId + 1 }
          slot fun _ => Task.spawned sys.state.scheduler.nextId stackBase priority)
  | killed {taskId : UInt32} {i : Slot} (active : sys.control = .active) (nonzero : taskId ≠ 0)
      (found : sys.state.scheduler.findTask taskId = some i) :
      Effect sys (.kill taskId) (sys.state.scheduler.modify i fun _ => Task.empty)
  | exited (active : sys.control = .active) :
      Effect sys .exitCurrentTask
        (sys.state.scheduler.modify sys.state.scheduler.current fun task =>
          { task with state := .exited })
  | slept (active : sys.control = .active) (currentTick ms : UInt64) :
      Effect sys (.sleepMs currentTick ms)
        (sys.state.scheduler.modify sys.state.scheduler.current fun task =>
          { task with state := .blocked, wakeTick := currentTick + ms, quantumRemaining := 0 })
  | prioritised {taskId : UInt32} {i : Slot} (active : sys.control = .active)
      (priority : TaskPriority) (found : sys.state.scheduler.findTask taskId = some i) :
      Effect sys (.setPriority taskId priority)
        (sys.state.scheduler.modify i fun task =>
          { task with priority := priority, quantumRemaining := priority.quantum })
  | yielded (active : sys.control = .active) :
      Effect sys .yieldNow
        (sys.state.scheduler.modify sys.state.scheduler.current fun task =>
          { task with quantumRemaining := 0 })
  | ticked (rsp : Nat) (tick : UInt64) :
      Effect sys (.timerTick rsp tick false)
        (sys.state.scheduler.timerTickLocked ⟨rsp, sys.cpu.stack⟩ tick).2

theorem findTask_occupied {sched : Scheduler} {taskId : UInt32} {i : Slot}
    (found : sched.findTask taskId = some i) :
    (sched.tasks i).state ≠ .empty ∧ (sched.tasks i).state ≠ .exited := by
  have chosen := List.find?_some found
  exact (of_decide_eq_true chosen).2

/-- Every event has one of the effects. -/
theorem advance_effect {sys next : SchedSystem} {event : SchedEvent}
    (stepped : sys.advance event = some next) : Effect sys event next.state.scheduler := by
  cases event with
  | spawn priority =>
    obtain ⟨active, rfl⟩ := call_eq_some stepped
    have spawned := sys.state.spawnWithPriority_spawned priority
    generalize (sys.state.spawnWithPriority priority).2 = after at spawned
    cases spawned with
    | refused reason => exact .unchanged _ nofun
    | spawned found allocated => exact .spawned active found allocated
  | kill taskId =>
    obtain ⟨active, rfl⟩ := call_eq_some stepped
    unfold SchedState.kill
    split
    · exact .unchanged _ nofun
    next nonzero =>
      split
      · exact .unchanged _ nofun
      · next i found => exact .killed active nonzero found
  | exitCurrentTask =>
    obtain ⟨called, returned, rfl⟩ := map_eq_some_iff.mp stepped
    obtain ⟨active, rfl⟩ := call_eq_some returned
    exact .exited active
  | sleepMs currentTick ms =>
    obtain ⟨called, returned, rfl⟩ := map_eq_some_iff.mp stepped
    obtain ⟨active, rfl⟩ := call_eq_some returned
    exact .slept active currentTick ms
  | setPriority taskId priority =>
    obtain ⟨active, rfl⟩ := call_eq_some stepped
    unfold SchedState.setPriority
    split
    · exact .unchanged _ nofun
    · next i found => exact .prioritised active priority found
  | yieldNow =>
    obtain ⟨active, rfl⟩ := call_eq_some stepped
    exact .yielded active
  | timerTick rsp currentTick lockHeld =>
    cases stepped
    cases lockHeld with
    | true =>
      rw [(tick_lockHeld sys rsp currentTick).1]
      exact .unchanged _ nofun
    | false =>
      rw [(tick_locked sys rsp currentTick).1]
      exact .ticked rsp currentTick
  | otherFrames call result =>
    obtain ⟨client, _, rfl⟩ := map_eq_some_iff.mp stepped
    exact .unchanged _ nofun

/-- After an event other than a timer interrupt the context is active only if it was before. -/
theorem advance_control {sys next : SchedSystem} {event : SchedEvent}
    (stepped : sys.advance event = some next)
    (waits : ∀ rsp tick lockHeld, event ≠ .timerTick rsp tick lockHeld)
    (active : next.control = .active) :
    sys.control = .active ∧ event ≠ .exitCurrentTask ∧ ∀ tick ms, event ≠ .sleepMs tick ms := by
  cases event with
  | exitCurrentTask =>
    obtain ⟨called, _, rfl⟩ := map_eq_some_iff.mp stepped
    cases active
  | sleepMs currentTick ms =>
    obtain ⟨called, _, rfl⟩ := map_eq_some_iff.mp stepped
    cases active
  | timerTick rsp tick lockHeld => exact absurd rfl (waits rsp tick lockHeld)
  | otherFrames call result =>
    obtain ⟨client, _, rfl⟩ := map_eq_some_iff.mp stepped
    exact ⟨active, nofun, nofun⟩
  | spawn priority => exact ⟨(call_eq_some stepped).1, nofun, nofun⟩
  | kill taskId => exact ⟨(call_eq_some stepped).1, nofun, nofun⟩
  | setPriority taskId priority => exact ⟨(call_eq_some stepped).1, nofun, nofun⟩
  | yieldNow => exact ⟨(call_eq_some stepped).1, nofun, nofun⟩

/-! ## The running task -/

end SchedSystem

/-- After a timer interrupt only the current task may run, and it does if it did before. -/
theorem Scheduler.timerTickLocked_stopped {sched : Scheduler} (started : sched.initialized = true)
    (stopped : ∀ i, i ≠ sched.current → (sched.tasks i).state ≠ .running)
    (pointer : StackPointer) (tick : UInt64) :
    (∀ i, i ≠ (sched.timerTickLocked pointer tick).2.current →
        ((sched.timerTickLocked pointer tick).2.tasks i).state ≠ .running) ∧
      ((sched.tasks sched.current).state = .running →
        ((sched.timerTickLocked pointer tick).2.tasks
          (sched.timerTickLocked pointer tick).2.current).state = .running) := by
  have outcome := timerTickLocked_outcome started pointer tick
  have allStopped := retired_stopped stopped pointer tick
  have runs := (charged_state_iff sched pointer tick sched.current .running nofun nofun).mpr
  generalize sched.timerTickLocked pointer tick = result at outcome
  cases outcome with
  | stays goesOn =>
    refine ⟨fun i other => ?_, runs⟩
    rw [Ne, charged_state_iff sched pointer tick i .running nofun nofun]
    exact stopped i other
  | @switches next spent picked =>
    refine ⟨fun i other => ?_, fun _ => congrArg Task.state (switchTo_self _ next)⟩
    exact (congrArg Task.state (switchTo_of_ne other)).trans_ne (allStopped i)
  | idles spent idle =>
    exact ⟨fun i _ => allStopped i, fun running => absurd (retired_ready (runs running)) (idle _)⟩
  | fallsBack spent idle running => exact absurd running (allStopped firstSlot)

namespace SchedSystem

/-- Only the current task may run, and it does while the context is active. -/
structure Steady (sys : SchedSystem) : Prop where
  started : sys.state.scheduler.initialized = true
  stopped : ∀ i, i ≠ sys.state.scheduler.current →
    (sys.state.scheduler.tasks i).state ≠ .running
  active : sys.control = .active →
    (sys.state.scheduler.tasks sys.state.scheduler.current).state = .running

variable {sys next : SchedSystem}

theorem start_steady (memoryMap : MemoryMap) (cpu : StackPointer) :
    (start memoryMap cpu).Steady := by
  refine ⟨rfl, fun i other => ?_, fun _ => rfl⟩
  rw [start_tasks_of_ne other]
  exact nofun

theorem Steady.modify (steady : sys.Steady) {slot : Slot} {change : Task → Task} {nextId : UInt32}
    (same : next.state.scheduler = Scheduler.modify { sys.sched with nextId } slot change)
    (stopped : slot ≠ sys.current →
      (change (sys.tasks slot)).state ≠ .running)
    (active : next.control = .active → sys.control = .active ∧
      (slot = sys.current →
        (change (sys.tasks slot)).state = .running)) : next.Steady := by
  refine ⟨same ▸ steady.started, ?_, ?_⟩
  · rw [same]
    intro i other
    by_cases isSlot : i = slot
    · rw [isSlot, tasks_modify_self]
      exact stopped (isSlot ▸ other)
    · rw [tasks_modify_of_ne _ _ isSlot]
      exact steady.stopped i other
  · rw [same]
    intro isActive
    obtain ⟨wasActive, stays⟩ := active isActive
    change ((Scheduler.modify _ slot change).tasks sys.current).state = _
    by_cases isSlot : sys.current = slot
    · rw [isSlot, tasks_modify_self]
      exact stays isSlot.symm
    · rw [tasks_modify_of_ne _ _ isSlot]
      exact steady.active wasActive

/-- Only tasks other than the running one are killed. -/
def KillsOthers (sys : SchedSystem) : SchedEvent → Prop
  | .kill taskId =>
    taskId ≠ 0 → sys.state.scheduler.findTask taskId ≠ some sys.state.scheduler.current
  | _ => True

instance decidableKillsOthers (sys : SchedSystem) : ∀ event, Decidable (sys.KillsOthers event)
  | .kill taskId => inferInstanceAs (Decidable (taskId ≠ 0 →
      sys.state.scheduler.findTask taskId ≠ some sys.state.scheduler.current))
  | .spawn _ | .exitCurrentTask | .sleepMs _ _ | .setPriority _ _ | .yieldNow | .timerTick _ _ _
  | .otherFrames _ _ => isTrue trivial

theorem advance_steady {event : SchedEvent} (steady : sys.Steady) (others : sys.KillsOthers event)
    (advanced : sys.advance event = some next) : next.Steady := by
  have effect := advance_effect advanced
  have control := advance_control advanced
  generalize same : next.state.scheduler = after at effect
  cases effect with
  | @spawned priority slot stackBase frames active found allocated =>
    refine steady.modify same (fun _ => nofun) fun _ => ⟨active, ?_⟩
    rintro rfl
    cases (freeSlot_empty found).symm.trans (steady.active active)
  | killed active nonzero found =>
    refine steady.modify same (fun _ => nofun) fun _ => ⟨active, ?_⟩
    rintro rfl
    exact absurd found (others nonzero)
  | exited active =>
    exact steady.modify same (fun other => absurd rfl other)
      fun isActive => absurd rfl (control nofun isActive).2.1
  | slept active currentTick ms =>
    exact steady.modify same (fun other => absurd rfl other)
      fun isActive => absurd rfl ((control nofun isActive).2.2 currentTick ms)
  | @prioritised taskId i active priority found =>
    exact steady.modify same (steady.stopped i)
      fun _ => ⟨active, fun isCurrent => isCurrent ▸ steady.active active⟩
  | yielded active =>
    exact steady.modify same (fun other => absurd rfl other)
      fun _ => ⟨active, fun _ => steady.active active⟩
  | ticked rsp tick =>
    obtain ⟨stopped, runs⟩ := timerTickLocked_stopped steady.started steady.stopped
      ⟨rsp, sys.cpu.stack⟩ tick
    have started := timerTickLocked_initialized steady.started ⟨rsp, sys.cpu.stack⟩ tick
    rw [← same] at stopped runs started
    cases advanced
    exact ⟨started, stopped, resumes fun active => runs (steady.active active)⟩
  | unchanged event waits =>
    refine ⟨same ▸ steady.started, same ▸ steady.stopped, ?_⟩
    cases event with
    | timerTick rsp tick lockHeld =>
      cases advanced
      exact resumes fun active => same ▸ steady.active active
    | _ => exact fun isActive => same ▸ steady.active (control nofun isActive).1

theorem Steady.tick (steady : sys.Steady) (rsp : Nat) (tick : UInt64) (lockHeld : Bool) :
    (sys.tick rsp tick lockHeld).Steady :=
  @advance_steady _ _ (.timerTick rsp tick lockHeld) steady trivial rfl

end SchedSystem

/-! ## A small machine -/

theorem eightFrameMap_fits : [MemoryRegion.mk 0x100000 0x8000 .usable].length ≤ maxMemoryRegions := by
  decide

/-- A map with eight usable frames from 1 MiB on. -/
def eightFrameMap : MemoryMap := ⟨[⟨0x100000, 0x8000, .usable⟩], eightFrameMap_fits⟩

/-- The boot thread's pointer near the top of a boot stack of 64 KiB. -/
def bootPointer : StackPointer := ⟨0xFFFFFFFF8000FFF8, ⟨0xFFFFFFFF80000000, 0x10000⟩⟩

/-- A machine of eight frames after its initialisation. -/
abbrev booted : SchedSystem :=
  SchedSystem.start eightFrameMap bootPointer

end CantayaOS.Sched
