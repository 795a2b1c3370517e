import CantayaOS.Memory.FrameAllocator

/-!
# The task scheduler

Tasks sit in a fixed array of slots.  The timer interrupt saves the stack
pointer of the interrupted task, may pick another one, and returns the stack
pointer to continue on.  A stack pointer is modelled together with the stack it
points into: the scheduler only stores and returns such pointers, apart from
the first one of a task, which it forms itself.
-/

namespace CantayaOS.Sched

open Memory

/-- Pages of a task's stack: four usable ones and a guard. -/
def taskStackPages : Nat := 5

def taskStackSize : Nat := taskStackPages * 4096

/-- Registers and interrupt frame that a context switch keeps on the stack. -/
def contextSlots : Nat := 15 + 5

inductive TaskPriority where
  | idle
  | low
  | normal
  | high
  | realtime
  deriving DecidableEq, Repr

namespace TaskPriority

def rank : TaskPriority → Nat
  | idle => 0
  | low => 1
  | normal => 2
  | high => 3
  | realtime => 4

def baseQuantum : UInt64 := 10

def quantum : TaskPriority → UInt64
  | idle => 2
  | low => 5
  | normal => baseQuantum
  | high => 20
  | realtime => 50

end TaskPriority

inductive TaskState where
  | empty
  | ready
  | running
  | blocked
  | exited
  deriving DecidableEq, Repr

structure Stack where
  base : Nat
  size : Nat
  deriving DecidableEq, Repr

structure StackPointer where
  rsp : Nat
  stack : Stack
  deriving DecidableEq, Repr

def StackPointer.Inside (pointer : StackPointer) : Prop :=
  pointer.stack.base ≤ pointer.rsp ∧ pointer.rsp < pointer.stack.base + pointer.stack.size

instance (pointer : StackPointer) : Decidable pointer.Inside :=
  inferInstanceAs (Decidable (_ ∧ _))

structure Task where
  id : UInt32
  state : TaskState
  savedRsp : StackPointer
  stackBase : Nat
  stackSize : Nat
  priority : TaskPriority
  quantumRemaining : UInt64
  switches : UInt64
  cpuTicks : UInt64
  wakeTick : UInt64

def Task.empty : Task where
  id := 0
  state := .empty
  savedRsp := ⟨0, ⟨0, 0⟩⟩
  stackBase := 0
  stackSize := 0
  priority := .normal
  quantumRemaining := 0
  switches := 0
  cpuTicks := 0
  wakeTick := 0

/-- The boot thread: it runs on the boot stack, which the scheduler does not manage. -/
def Task.boot : Task :=
  { Task.empty with state := .running, quantumRemaining := TaskPriority.quantum .normal }

/-- The record of a new task; its first frame is placed at the top of its stack. -/
def Task.spawned (taskId : UInt32) (stackBase : Nat) (priority : TaskPriority) : Task :=
  let usableStackTop := stackBase + taskStackSize
  let frameBase := usableStackTop - contextSlots * 8
  { Task.empty with
    id := taskId
    state := .ready
    savedRsp := ⟨frameBase, ⟨stackBase, taskStackSize⟩⟩
    stackBase := stackBase
    stackSize := taskStackSize
    priority := priority
    quantumRemaining := priority.quantum }

namespace Task

def Due (task : Task) (currentTick : UInt64) : Prop :=
  task.state = .blocked ∧ task.wakeTick > 0 ∧ currentTick ≥ task.wakeTick

instance (task : Task) (currentTick : UInt64) : Decidable (task.Due currentTick) :=
  inferInstanceAs (Decidable (_ ∧ _ ∧ _))

def wake (currentTick : UInt64) (task : Task) : Task :=
  if task.Due currentTick then
    { task with state := .ready, wakeTick := 0, quantumRemaining := task.priority.quantum }
  else task

/-- Save the stack pointer of the interrupted task and charge it for the tick. -/
def charge (pointer : StackPointer) (task : Task) : Task :=
  { task with
    savedRsp := pointer
    cpuTicks := task.cpuTicks + 1
    quantumRemaining :=
      if task.quantumRemaining > 0 then task.quantumRemaining - 1 else task.quantumRemaining }

/-- Before a switch an exited task gives up its slot and a running one becomes ready. -/
def retire (task : Task) : Task :=
  if task.state = .exited then Task.empty
  else if task.state = .running then
    { task with state := .ready, quantumRemaining := task.priority.quantum }
  else task

def resume (task : Task) : Task :=
  { task with
    state := .running
    quantumRemaining := task.priority.quantum
    switches := task.switches + 1 }

end Task

def maxTasks : Nat := 64

abbrev Slot : Type := Fin maxTasks

def firstSlot : Slot := ⟨0, by decide⟩

/-- Scheduler state: the slots, the running one, the next id and counters. -/
structure Scheduler where
  tasks : Slot → Task
  current : Slot
  nextId : UInt32
  contextSwitches : UInt64
  initialized : Bool

namespace Scheduler

/-- The task in the current slot. -/
abbrev running (sched : Scheduler) : Task :=
  sched.tasks sched.current

/-- After initialisation the boot thread is task 0. -/
def init : Scheduler where
  tasks := Function.update (fun _ => Task.empty) firstSlot Task.boot
  current := firstSlot
  nextId := 1
  contextSwitches := 0
  initialized := true

def modify (sched : Scheduler) (slot : Slot) (change : Task → Task) : Scheduler :=
  { sched with tasks := Function.update sched.tasks slot (change (sched.tasks slot)) }

def betterPriority (sched : Scheduler) (best : TaskPriority × Bool) (i : Slot) :
    TaskPriority × Bool :=
  if (sched.tasks i).state = .ready ∧ best.1.rank ≤ (sched.tasks i).priority.rank then
    ((sched.tasks i).priority, true)
  else best

/-- The next ready task of the highest priority, round-robin from the current one. -/
def pickNext (sched : Scheduler) : Option Slot :=
  let (bestPriority, foundAny) :=
    (List.finRange maxTasks).foldl sched.betterPriority (.idle, false)
  if !foundAny then none
  else
    ((List.range' 1 maxTasks).map fun offset =>
        (⟨(sched.current + offset) % maxTasks, Nat.mod_lt _ (by decide)⟩ : Slot)).find? fun idx =>
      decide ((sched.tasks idx).state = .ready ∧ (sched.tasks idx).priority = bestPriority)

def wakeSleepingTasks (sched : Scheduler) (currentTick : UInt64) : Scheduler :=
  { sched with tasks := fun i => (sched.tasks i).wake currentTick }

def switchTo (sched : Scheduler) (next : Slot) : Scheduler :=
  { sched.modify next Task.resume with
    contextSwitches := sched.contextSwitches + 1
    current := next }

/-- The choice of the next task at the end of a time slice. -/
def reschedule (sched : Scheduler) (pointer : StackPointer) : StackPointer × Scheduler :=
  let cur := sched.current
  let sched := sched.modify cur Task.retire
  match sched.pickNext with
  | some next =>
    let sched := sched.switchTo next
    ((sched.tasks next).savedRsp, sched)
  | none =>
    if (sched.tasks cur).state = .empty then
      if (sched.tasks firstSlot).state = .ready ∨ (sched.tasks firstSlot).state = .running then
        let sched := sched.modify firstSlot fun task => { task with state := .running }
        ((sched.tasks firstSlot).savedRsp, { sched with current := firstSlot })
      else (pointer, sched)
    else if (sched.tasks cur).state ≠ .blocked then
      (pointer, sched.modify cur fun task =>
        { task with state := .running, quantumRemaining := task.priority.quantum })
    else (pointer, sched)

/-- The part of the timer interrupt that holds the scheduler's lock. -/
def timerTickLocked (sched : Scheduler) (pointer : StackPointer) (currentTick : UInt64) :
    StackPointer × Scheduler :=
  if !sched.initialized then (pointer, sched)
  else
    let sched := sched.wakeSleepingTasks currentTick
    let sched := sched.modify sched.current (Task.charge pointer)
    let task := sched.tasks sched.current
    if task.quantumRemaining = 0 ∨ task.state = .exited ∨ task.state = .blocked then
      sched.reschedule pointer
    else (pointer, sched)

/-- The task that `kill` and `setPriority` act on. -/
def findTask (sched : Scheduler) (taskId : UInt32) : Option Slot :=
  (List.finRange maxTasks).find? fun i =>
    decide ((sched.tasks i).id = taskId ∧ (sched.tasks i).state ≠ .empty ∧
      (sched.tasks i).state ≠ .exited)

end Scheduler

/-- The scheduler, the stack whose release is deferred, and the frame allocator. -/
structure SchedState where
  scheduler : Scheduler
  deferredFree : Option (Nat × Nat)
  frames : FrameAllocator

namespace SchedState

def freeStack (frames : FrameAllocator) (base pages : Nat) : FrameAllocator :=
  (List.range pages).foldl (fun frames p => frames.freeFrame (base + p * 4096)) frames

def processDeferredFree (state : SchedState) : SchedState :=
  match state.deferredFree with
  | some (base, pages) =>
    { state with deferredFree := none, frames := freeStack state.frames base pages }
  | none => state

/-- The timer interrupt; `lockHeld` says that it interrupted a holder of the scheduler's lock. -/
def timerTick (state : SchedState) (pointer : StackPointer) (currentTick : UInt64)
    (lockHeld : Bool) : StackPointer × SchedState :=
  let state := state.processDeferredFree
  if lockHeld then (pointer, state)
  else
    let (next, sched) := state.scheduler.timerTickLocked pointer currentTick
    (next, { state with scheduler := sched })

/-- Spawn a task: find a slot, allocate a stack and place the first frame on it. -/
def spawnWithPriority (state : SchedState) (priority : TaskPriority) :
    Option UInt32 × SchedState :=
  match (List.finRange maxTasks).find? fun i =>
      decide ((state.scheduler.tasks i).state = .empty) with
  | none => (none, state)
  | some slot =>
    match state.frames.allocateContiguousFrames taskStackPages with
    | (none, frames) => (none, { state with frames })
    | (some stackBase, frames) =>
      let taskId := state.scheduler.nextId
      let sched := { state.scheduler with nextId := taskId + 1 }
      (some taskId,
        { state with
          frames
          scheduler := sched.modify slot fun _ => Task.spawned taskId stackBase priority })

def spawn (state : SchedState) : Option UInt32 × SchedState :=
  state.spawnWithPriority .normal

/-- The part of `exit_current_task` before it waits to be switched away from. -/
def exitCurrentTask (state : SchedState) : SchedState :=
  let cur := state.scheduler.current
  let task := state.scheduler.tasks cur
  { state with
    scheduler := state.scheduler.modify cur fun task => { task with state := .exited }
    deferredFree :=
      if task.stackBase ≠ 0 then some (task.stackBase, task.stackSize / 4096)
      else state.deferredFree }

/-- Kill a task and free its stack at once; the kernel task is spared. -/
def kill (state : SchedState) (taskId : UInt32) : Bool × SchedState :=
  if taskId = 0 then (false, state)
  else
    match state.scheduler.findTask taskId with
    | none => (false, state)
    | some i =>
      let task := state.scheduler.tasks i
      (true,
        { state with
          frames :=
            if task.stackBase ≠ 0 then
              freeStack state.frames task.stackBase (task.stackSize / 4096)
            else state.frames
          scheduler := state.scheduler.modify i fun _ => Task.empty })

def sleepMs (state : SchedState) (currentTick ms : UInt64) : SchedState :=
  { state with
    scheduler := state.scheduler.modify state.scheduler.current fun task =>
      { task with state := .blocked, wakeTick := currentTick + ms, quantumRemaining := 0 } }

def setPriority (state : SchedState) (taskId : UInt32) (priority : TaskPriority) :
    Bool × SchedState :=
  match state.scheduler.findTask taskId with
  | none => (false, state)
  | some i =>
    (true,
      { state with
        scheduler := state.scheduler.modify i fun task =>
          { task with priority := priority, quantumRemaining := priority.quantum } })

def yieldNow (state : SchedState) : SchedState :=
  { state with
    scheduler := state.scheduler.modify state.scheduler.current fun task =>
      { task with quantumRemaining := 0 } }

end SchedState

end CantayaOS.Sched
