import CantayaOS.Sched.Advance

/-!
# Every stack is freed exactly once

The frames of a task's stack pass from the frame allocator to a slot, when the
task exits on to the cell of deferred releases, and back to the allocator.  A
history beside the scheduler notes which task each frame was last given to and
counts the calls that free it.
-/

namespace CantayaOS.Sched

open Lib Memory Shared List Option Function
open SchedState FrameAllocator Sched.Task Scheduler SchedSystem

def stackPages (base pages : Nat) : List Nat := (List.range pages).map fun p => base + p * 4096

/-- The addresses that the scheduler passes to `free_frame` during an event. -/
def SchedState.freeCalls (state : SchedState) : SchedEvent → List Nat
  | .kill taskId =>
    if taskId = 0 then []
    else
      match state.scheduler.findTask taskId with
      | none => []
      | some i =>
        let task := state.scheduler.tasks i
        if task.stackBase ≠ 0 then stackPages task.stackBase (task.stackSize / 4096) else []
  | .timerTick _ _ _ =>
    match state.deferredFree with
    | some (base, pages) => stackPages base pages
    | none => []
  | _ => []

variable {i slot : Slot}

theorem freeStack_eq_foldl (frames : FrameAllocator) (base pages : Nat) :
    freeStack frames base pages = (stackPages base pages).foldl freeFrame frames := by
  unfold freeStack stackPages
  rw [foldl_map]

/-- Killing frees the frames that are noted, one after the other. -/
theorem kill_frames_eq_freeCalls (state : SchedState) (taskId : UInt32) :
    (state.kill taskId).2.frames = (state.freeCalls (.kill taskId)).foldl freeFrame state.frames := by
  unfold kill freeCalls
  dsimp only
  split
  · rfl
  cases state.scheduler.findTask taskId with
  | none => rfl
  | some i =>
    dsimp only
    split
    · exact freeStack_eq_foldl ..
    · rfl

/-- A timer interrupt frees the frames that are noted, one after the other. -/
theorem timerTick_frames_eq_freeCalls (state : SchedState) (pointer : StackPointer) (rsp : Nat)
    (tick : UInt64) (lockHeld : Bool) :
    (state.timerTick pointer tick lockHeld).2.frames =
      (state.freeCalls (.timerTick rsp tick lockHeld)).foldl freeFrame state.frames := by
  have kept : (state.timerTick pointer tick lockHeld).2.frames =
      state.processDeferredFree.frames := by
    cases lockHeld <;> rfl
  rw [kept]
  unfold processDeferredFree freeCalls
  cases state.deferredFree with
  | none => rfl
  | some stack => exact freeStack_eq_foldl ..

/-- The calls free each frame of the part once, and no other frame. -/
def FreesOnce (calls : List Nat) (part : Finset Nat) : Prop :=
  ∀ frame, (calls.map (· / pageSize)).count frame = if frame ∈ part then 1 else 0

theorem freesOnce_stackPages {base : Nat} (aligned : pageSize ∣ base) (pages : Nat) :
    FreesOnce (stackPages base pages) (frameRun (base / pageSize) pages) := by
  have frames : (stackPages base pages).map (· / pageSize) =
      List.range' (base / pageSize) pages := by
    obtain ⟨first, rfl⟩ := aligned
    unfold stackPages
    rw [range'_eq_map_range, List.map_map]
    apply map_congr_left
    intro p _
    simp only [comp_apply, pageSize]
    omega
  intro frame
  rw [frames, (nodup_range' 1).count]
  simp only [mem_range'_1, frameRun, Finset.mem_Ico]

/-! ## The history -/

structure StackTrace where
  sys : SchedSystem
  spawned : Nat
  taskIn : Slot → Nat
  firstFrame : Nat → Nat
  owner : Nat → Option Nat
  frees : Nat → Nat → Nat
  left : Nat → Bool
  awaiting : Option Nat

namespace StackTrace

def frames (trace : StackTrace) (task : Nat) : Finset Nat :=
  frameRun (trace.firstFrame task) taskStackPages

def start (memoryMap : MemoryMap) (cpu : StackPointer) : StackTrace where
  sys := SchedSystem.start memoryMap cpu
  spawned := 1
  taskIn := fun _ => 0
  firstFrame := fun _ => 0
  owner := fun _ => none
  frees := fun _ _ => 0
  left := fun _ => false
  awaiting := none

/-- A spawned task gets the next number, and its frames become its own. -/
def recordSpawn (trace : StackTrace) : StackTrace :=
  match trace.sys.state.scheduler.freeSlot,
      (trace.sys.state.frames.allocateContiguousFrames taskStackPages).1 with
  | some slot, some stackBase =>
    { trace with
      spawned := trace.spawned + 1
      taskIn := Function.update trace.taskIn slot trace.spawned
      firstFrame := Function.update trace.firstFrame trace.spawned (stackBase / pageSize)
      owner := fun frame =>
        if frame ∈ frameRun (stackBase / pageSize) taskStackPages then some trace.spawned
        else trace.owner frame }
  | _, _ => trace

/-- A spawned task that exits has left, and its stack awaits the next timer interrupt. -/
def recordExit (trace : StackTrace) : StackTrace :=
  let sched := trace.sys.state.scheduler
  if (sched.tasks sched.current).stackBase ≠ 0 then
    { trace with
      left := Function.update trace.left (trace.taskIn sched.current) true
      awaiting := some (trace.taskIn sched.current) }
  else trace

def recordKill (trace : StackTrace) (taskId : UInt32) : StackTrace :=
  match trace.sys.state.scheduler.findTask taskId with
  | some i =>
    if taskId ≠ 0 ∧ (trace.sys.state.scheduler.tasks i).stackBase ≠ 0 then
      { trace with left := Function.update trace.left (trace.taskIn i) true }
    else trace
  | none => trace

/-- Count the calls that free frames for the tasks the frames were last given to. -/
def countFrees (trace : StackTrace) (calls : List Nat) : StackTrace :=
  { trace with
    frees := fun task frame =>
      trace.frees task frame +
        if trace.owner frame = some task then (calls.map (· / pageSize)).count frame else 0 }

/-- The history after an event that led to the system `next`. -/
def record (trace : StackTrace) (event : SchedEvent) (next : SchedSystem) : StackTrace :=
  let counted := trace.countFrees (trace.sys.state.freeCalls event)
  match event with
  | .spawn _ => { counted.recordSpawn with sys := next }
  | .exitCurrentTask => { counted.recordExit with sys := next }
  | .kill taskId => { counted.recordKill taskId with sys := next }
  | .timerTick _ _ _ => { counted with sys := next, awaiting := none }
  | _ => { counted with sys := next }

def step (trace : StackTrace) (event : SchedEvent) : Option StackTrace :=
  (trace.sys.advance event).map (trace.record event)

end StackTrace

theorem Ledger.same {memoryMap : MemoryMap} {frames : FrameAllocator} {held : Slot → Finset Nat}
    {others : List (Finset Nat)} {part : Finset Nat}
    (ledger : Ledger memoryMap frames held others) (same : part = held slot) :
    Ledger memoryMap frames (update held slot part) others := by
  rw [same, update_eq_self]
  exact ledger

/-- A stack that has not been freed: its frames, and whether its task has exited. -/
abbrev Holding : Type := Option (Finset Nat × Bool)

def Holding.frames (held : Holding) : Finset Nat := held.elim ∅ Prod.fst

/-- The stack of a task, unless the task has exited and no release is pending. -/
def Task.holding (deferred : Option (Nat × Nat)) (task : Task) : Holding :=
  if task.stackBase ≠ 0 ∧ (task.state = .exited → deferred ≠ none) then
    some (task.stackFrames, decide (task.state = .exited))
  else none

def SchedState.holding (state : SchedState) (i : Slot) : Holding :=
  (state.scheduler.tasks i).holding state.deferredFree

section

variable {task changed : Task} {deferred : Option (Nat × Nat)}

theorem Task.holding_of_stays (stays : task.state ≠ .exited) (deferred : Option (Nat × Nat)) :
    task.holding deferred =
      if task.stackBase ≠ 0 then some (task.stackFrames, false) else none := by
  unfold Task.holding
  simp [stays]

theorem Task.holding_congr (base : changed.stackBase = task.stackBase)
    (size : changed.stackSize = task.stackSize) (stays : task.state ≠ .exited)
    (staysToo : changed.state ≠ .exited) (after before : Option (Nat × Nat)) :
    changed.holding after = task.holding before := by
  rw [holding_of_stays stays, holding_of_stays staysToo, base, stackFrames_congr base size]

theorem Task.holding_of_bare (task : Task) (bare : task.stackBase = 0) :
    task.holding deferred = none :=
  if_neg fun held => held.1 bare

theorem Task.holding_exited (owned : task.stackBase ≠ 0) (stack : Nat × Nat) :
    { task with state := .exited }.holding (some stack) = some (task.stackFrames, true) :=
  if_pos ⟨owned, fun _ => nofun⟩

theorem Task.frames_holding (stays : task.state ≠ .exited) :
    (task.holding deferred).frames = task.stackFrames := by
  rw [holding_of_stays stays]
  split
  · rfl
  · next bare => exact (if_pos (not_not.mp bare)).symm

end

theorem SchedState.holding_modify {state : SchedState}
    (stay : ∀ i, (state.scheduler.tasks i).state ≠ .exited) (slot : Slot) (change : Task → Task)
    (nextId : UInt32) (deferred : Option (Nat × Nat)) (frames : FrameAllocator) :
    holding
        ⟨Scheduler.modify { state.scheduler with nextId } slot change, deferred, frames⟩ =
      update state.holding slot
        ((change (state.scheduler.tasks slot)).holding deferred) := by
  funext i
  by_cases isSlot : i = slot
  · rw [isSlot, update_self]
    exact congrArg (Task.holding deferred) (tasks_modify_self ..)
  · rw [update_of_ne isSlot]
    exact (congrArg (Task.holding deferred) (tasks_modify_of_ne _ _ isSlot)).trans
      (holding_congr rfl rfl (stay i) (stay i) ..)

/-! ## The invariant -/

/-- The stack of a task that has exited, as its release is noted. -/
def Task.Leaves (task : Task) (stack : Nat × Nat) : Prop :=
  task.state = .exited ∧ task.stackBase ≠ 0 ∧ stack = (task.stackBase, task.stackSize / 4096)

namespace SchedSystem

structure Sound (memoryMap : MemoryMap) (sys : SchedSystem) : Prop where
  steady : sys.Steady
  ledger : Ledger memoryMap sys.state.frames (Holding.frames ∘ sys.state.holding) sys.others
  formed : ∀ i, (sys.state.scheduler.tasks i).Formed
  stays : ∀ i, i ≠ sys.state.scheduler.current → (sys.state.scheduler.tasks i).state ≠ .exited
  deferred : ∀ stack, sys.state.deferredFree = some stack →
    (sys.state.scheduler.tasks sys.state.scheduler.current).Leaves stack

section

variable {memoryMap : MemoryMap} {sys next : SchedSystem} (sound : Sound memoryMap sys)
  (active : sys.control = .active)
include sound active

theorem Sound.none_exited (i : Slot) : (sys.tasks i).state ≠ .exited := by
  by_cases isCurrent : i = sys.current
  · rw [isCurrent, sound.steady.active active]
    exact nofun
  · exact sound.stays i isCurrent

theorem Sound.deferred_none : sys.state.deferredFree = none := by
  cases pending : sys.state.deferredFree with
  | none => rfl
  | some stack => exact absurd (sound.deferred stack pending).1 (sound.none_exited active _)

theorem Sound.none_leaves (i : Slot) (part : Finset Nat) :
    sys.state.holding i ≠ some (part, true) := by
  rw [SchedState.holding, holding_of_stays (sound.none_exited active i)]
  split
  · rintro ⟨⟩
  · exact nofun

end

end SchedSystem

namespace StackTrace

@[simp] theorem countFrees_nil (trace : StackTrace) : trace.countFrees [] = trace := by
  simp [countFrees]

/-- What the history says of a stack that a slot holds. -/
structure Owned (trace : StackTrace) (task : Nat) (part : Finset Nat) (exited : Bool) : Prop where
  positive : 0 < task
  known : task < trace.spawned
  frames : trace.frames task = part
  owner : ∀ frame ∈ part, trace.owner frame = some task
  unfreed : ∀ frame ∈ part, trace.frees task frame = 0
  left : trace.left task = exited
  awaits : trace.awaiting = some task ↔ exited = true

/-- What it says of a task whose stack has been freed. -/
structure Freed (trace : StackTrace) (task : Nat) : Prop where
  left : trace.left task = true
  settled : trace.awaiting ≠ some task
  once : ∀ frame ∈ trace.frames task, trace.frees task frame = 1

/-- The history accounts for the stacks that the slots hold and for the tasks that have left. -/
structure Accounted (trace : StackTrace) (holding : Slot → Holding) : Prop where
  counted : 0 < trace.spawned
  owned : ∀ i part exited, holding i = some (part, exited) →
    trace.Owned (trace.taskIn i) part exited
  unique : ∀ i j, holding i ≠ none → holding j ≠ none → trace.taskIn i = trace.taskIn j → i = j
  gone : ∀ task, 0 < task → task < trace.spawned →
    (∀ i, holding i ≠ none → trace.taskIn i ≠ task) → trace.Freed task
  fresh : ∀ task, trace.spawned ≤ task →
    trace.left task = false ∧ ∀ frame, trace.frees task frame = 0
  awaits : ∀ task, trace.awaiting = some task → 0 < task ∧ task < trace.spawned

structure Agrees (before after : StackTrace) (task : Nat) : Prop where
  firstFrame : after.firstFrame task = before.firstFrame task
  frees : ∀ frame, after.frees task frame = before.frees task frame
  left : after.left task = before.left task
  awaits : after.awaiting = some task ↔ before.awaiting = some task

variable {trace after : StackTrace} {task : Nat} {part : Finset Nat} {exited : Bool}
  {holding : Slot → Holding}

theorem Agrees.frames (agrees : trace.Agrees after task) : after.frames task = trace.frames task :=
  congrArg (frameRun · taskStackPages) agrees.firstFrame

theorem Owned.congr (owned : trace.Owned task part exited) (agrees : trace.Agrees after task)
    (known : task < after.spawned) (owner : ∀ frame ∈ part, after.owner frame = trace.owner frame) :
    after.Owned task part exited := by
  refine ⟨owned.positive, known, agrees.frames.trans owned.frames, ?_, ?_,
    agrees.left.trans owned.left, agrees.awaits.trans owned.awaits⟩
  · exact fun frame inside => (owner frame inside).trans (owned.owner frame inside)
  · exact fun frame inside => (agrees.frees frame).trans (owned.unfreed frame inside)

theorem Freed.congr (freed : trace.Freed task) (agrees : trace.Agrees after task) :
    after.Freed task := by
  refine ⟨agrees.left.trans freed.left, mt agrees.awaits.mp freed.settled, ?_⟩
  rw [agrees.frames]
  exact fun frame inside => (agrees.frees frame).trans (freed.once frame inside)

section

variable (accounted : trace.Accounted holding)
include accounted

theorem Accounted.withSys (sys : SchedSystem) : { trace with sys }.Accounted holding := by
  have agrees (task : Nat) : trace.Agrees { trace with sys } task :=
    ⟨rfl, fun _ => rfl, rfl, .rfl⟩
  refine ⟨accounted.counted, ?_, accounted.unique, ?_, accounted.fresh, accounted.awaits⟩
  · intro i part exited held
    have owned := accounted.owned i part exited held
    exact owned.congr (agrees _) owned.known fun _ _ => rfl
  · exact fun task positive known absent =>
      (accounted.gone task positive known absent).congr (agrees task)

theorem Accounted.awaiting_none (stay : ∀ i part, holding i ≠ some (part, true)) :
    trace.awaiting = none := by
  cases awaits : trace.awaiting with
  | none => rfl
  | some task =>
    obtain ⟨positive, known⟩ := accounted.awaits task awaits
    refine absurd awaits (accounted.gone task positive known fun i held same => ?_).settled
    obtain ⟨⟨part, exited⟩, holds⟩ := ne_none_iff_exists'.mp held
    subst same
    have leaves := (accounted.owned i part exited holds).awaits.mp awaits
    exact stay i part (leaves ▸ holds)

/-- The stack of one slot changes, and with it what the history says of one task. -/
theorem Accounted.update {held : Holding} (positive : 0 < task) (next : task ≤ trace.spawned)
    (spawned : after.spawned = max trace.spawned (task + 1))
    (taskIn : after.taskIn = update trace.taskIn slot task)
    (agrees : ∀ other, other ≠ task → trace.Agrees after other)
    (owner : ∀ i, i ≠ slot → ∀ frame ∈ (holding i).frames, after.owner frame = trace.owner frame)
    (apart : ∀ i, i ≠ slot → holding i ≠ none → trace.taskIn i ≠ task)
    (same : holding slot ≠ none → trace.taskIn slot = task)
    (owned : ∀ part exited, held = some (part, exited) → after.Owned task part exited)
    (freed : held = none → after.Freed task) : after.Accounted (update holding slot held) := by
  have others {i : Slot} (other : i ≠ slot) : after.taskIn i = trace.taskIn i := by
    rw [taskIn, update_of_ne other]
  have self : after.taskIn slot = task := by
    rw [taskIn, update_self]
  refine ⟨by omega, ?_, ?_, ?_, ?_, ?_⟩
  · intro i part exited holds
    by_cases isSlot : i = slot
    · rw [isSlot, update_self] at holds
      rw [isSlot, self]
      exact owned part exited holds
    rw [update_of_ne isSlot] at holds
    rw [others isSlot]
    have before := accounted.owned i part exited holds
    have known := before.known
    refine before.congr (agrees _ (apart i isSlot (by rw [holds]; exact nofun))) (by omega) ?_
    have owners := owner i isSlot
    rwa [holds] at owners
  · intro i j first second equal
    by_cases isFirst : i = slot
    · by_cases isSecond : j = slot
      · rw [isFirst, isSecond]
      · rw [update_of_ne isSecond] at second
        rw [isFirst, self, others isSecond] at equal
        exact absurd equal.symm (apart j isSecond second)
    rw [update_of_ne isFirst] at first
    rw [others isFirst] at equal
    by_cases isSecond : j = slot
    · rw [isSecond, self] at equal
      exact absurd equal (apart i isFirst first)
    · rw [update_of_ne isSecond] at second
      rw [others isSecond] at equal
      exact accounted.unique i j first second equal
  · intro other otherPositive known absent
    by_cases isTask : other = task
    · rw [isTask] at absent ⊢
      refine freed (by_contra fun holds => ?_)
      exact absent slot (by rwa [update_self]) self
    refine (accounted.gone other otherPositive (by omega) fun i holds => ?_).congr
      (agrees other isTask)
    by_cases isSlot : i = slot
    · rw [isSlot] at holds ⊢
      rw [same holds]
      exact Ne.symm isTask
    · have absentNow := absent i
      rw [update_of_ne isSlot, others isSlot] at absentNow
      exact absentNow holds
  · intro other later
    have agree := agrees other (by omega)
    obtain ⟨stays, unfreed⟩ := accounted.fresh other (by omega)
    exact ⟨agree.left.trans stays, fun frame => (agree.frees frame).trans (unfreed frame)⟩
  · intro other awaits
    by_cases isTask : other = task
    · omega
    · have before := accounted.awaits other ((agrees other isTask).awaits.mp awaits)
      omega

/-- What the history says of the task in a slot with a stack changes. -/
theorem Accounted.revise {held : Holding} (holds : holding slot = some (part, exited))
    (spawned : after.spawned = trace.spawned) (taskIn : after.taskIn = trace.taskIn)
    (owner : after.owner = trace.owner)
    (agrees : ∀ other, other ≠ trace.taskIn slot → trace.Agrees after other)
    (owned : ∀ part exited, held = some (part, exited) →
      after.Owned (trace.taskIn slot) part exited)
    (freed : held = none → after.Freed (trace.taskIn slot)) :
    after.Accounted (Function.update holding slot held) := by
  have before := accounted.owned slot part exited holds
  refine accounted.update before.positive before.known.le
    (spawned.trans (max_eq_left before.known).symm) (taskIn.trans (update_eq_self ..).symm) agrees
    (fun _ _ _ _ => owner ▸ rfl) (fun i other heldToo same => other ?_) (fun _ => rfl) owned freed
  exact accounted.unique i slot heldToo (holds ▸ nofun) same

/-- The stack of one slot is freed, each of its frames once. -/
theorem Accounted.release (held : holding slot = some (part, exited)) {calls : List Nat}
    (once : FreesOnce calls part)
    {awaiting : Option Nat} (settled : awaiting ≠ some (trace.taskIn slot))
    (others : ∀ task, task ≠ trace.taskIn slot →
      (awaiting = some task ↔ trace.awaiting = some task)) :
    { trace.countFrees calls with
      left := Function.update trace.left (trace.taskIn slot) true
      awaiting }.Accounted (Function.update holding slot none) := by
  have owned := accounted.owned slot part exited held
  refine accounted.revise held rfl rfl rfl ?_ nofun fun _ => ⟨update_self .., settled, ?_⟩
  · intro task other
    refine ⟨rfl, fun frame => ?_, update_of_ne other .., others task other⟩
    change trace.frees task frame + (if trace.owner frame = some task then _ else 0) = _
    split
    next owner =>
      have outside : frame ∉ part := fun inside =>
        other (Option.some.inj (owner.symm.trans (owned.owner frame inside)))
      rw [once, if_neg outside, add_zero]
    · rfl
  · intro frame inside
    have member : frame ∈ part := owned.frames ▸ inside
    change trace.frees _ frame + (if trace.owner frame = some _ then _ else 0) = 1
    rw [owned.unfreed frame member, if_pos (owned.owner frame member), once, if_pos member]

/-- The task in a slot leaves; its stack awaits the next timer interrupt. -/
theorem Accounted.leave (held : holding slot = some (part, false)) (idle : trace.awaiting = none) :
    { trace with
      left := Function.update trace.left (trace.taskIn slot) true
      awaiting := some (trace.taskIn slot) }.Accounted
      (Function.update holding slot (some (part, true))) := by
  have owned := accounted.owned slot part false held
  refine accounted.revise held rfl rfl rfl ?_ ?_ nofun
  · intro task other
    refine ⟨rfl, fun _ => rfl, update_of_ne other .., ?_⟩
    rw [idle]
    exact ⟨fun same => absurd (Option.some.inj same).symm other, nofun⟩
  · rintro part exited ⟨rfl⟩
    exact ⟨owned.positive, owned.known, owned.frames, owned.owner, owned.unfreed,
      update_self .., ⟨fun _ => rfl, fun _ => rfl⟩⟩

/-- A spawned task gets a slot, a number and five frames that no slot holds. -/
theorem Accounted.spawn {stackBase : Nat} {frames : FrameAllocator}
    (found : trace.sys.sched.freeSlot = some slot)
    (allocated : trace.sys.state.frames.allocateContiguousFrames taskStackPages =
      (some stackBase, frames)) (vacant : holding slot = none)
    (unheld : ∀ i, Disjoint (holding i).frames
      (frameRun (stackBase / pageSize) taskStackPages)) :
    trace.recordSpawn.Accounted (Function.update holding slot
      (some (frameRun (stackBase / pageSize) taskStackPages, false))) := by
  obtain ⟨present, unfreed⟩ := accounted.fresh trace.spawned le_rfl
  simp only [recordSpawn, found, allocated]
  refine accounted.update accounted.counted le_rfl (max_eq_right (Nat.le_succ _)).symm
    rfl ?_ ?_ ?_ (fun held => absurd vacant held) ?_ nofun
  · exact fun other isOld => ⟨update_of_ne isOld .., fun _ => rfl, rfl, .rfl⟩
  · exact fun i _ frame inside => if_neg (Finset.disjoint_left.mp (unheld i) inside)
  · intro i _ held
    obtain ⟨⟨part, exited⟩, holds⟩ := ne_none_iff_exists'.mp held
    exact (accounted.owned i part exited holds).known.ne
  · rintro part exited ⟨rfl⟩
    refine ⟨accounted.counted, Nat.lt_succ_self _, ?_, fun _ inside => if_pos inside,
      fun frame _ => unfreed frame, present, ?_⟩
    · exact congrArg (frameRun · taskStackPages) (update_self ..)
    · exact ⟨fun awaits => absurd (accounted.awaits _ awaits).2 (lt_irrefl _), nofun⟩

end

/-! ## Calls of the running context -/

/-- The scheduler is sound and the history accounts for every stack. -/
structure Inv (memoryMap : MemoryMap) (trace : StackTrace) : Prop where
  sound : trace.sys.Sound memoryMap
  accounted : trace.Accounted trace.sys.state.holding

variable {memoryMap : MemoryMap} {next : SchedSystem}

theorem start_inv (memoryMap : MemoryMap) (cpu : StackPointer) :
    (start memoryMap cpu).Inv memoryMap := by
  have vacant : (start memoryMap cpu).sys.state.holding = fun _ => none :=
    funext fun i => if_neg fun held => held.1 (start_stackBase i)
  refine ⟨⟨start_steady memoryMap cpu, ?_, ?_, ?_, nofun⟩, ?_⟩
  · rw [vacant]
    exact Ledger.start memoryMap
  · intro i
    have bare : ((start memoryMap cpu).sys.sched.tasks i).stackBase = 0 := start_stackBase i
    exact ⟨fun owned => absurd bare owned, fun _ => bare⟩
  · intro i other
    have empty : (start memoryMap cpu).sys.sched.tasks i = Task.empty := start_tasks_of_ne other
    rw [empty]
    exact nofun
  · rw [vacant]
    refine ⟨one_pos, nofun, fun i _ held => absurd rfl held, ?_, fun _ _ => ⟨rfl, fun _ => rfl⟩,
      nofun⟩
    intro task positive known
    exact absurd known (Nat.not_lt_of_le positive)

/-- What a call of `kill` does: nothing, or it empties a slot and frees its stack. -/
theorem kill_cases (trace : StackTrace) (taskId : UInt32) :
    ((trace.sys.state.kill taskId).2 = trace.sys.state ∧
      (trace.countFrees (trace.sys.state.freeCalls (.kill taskId))).recordKill taskId = trace) ∨
    ∃ i task, trace.sys.tasks i = task ∧
      trace.sys.sched.findTask taskId = some i ∧
      (trace.sys.state.kill taskId).2 =
        ⟨trace.sys.sched.modify i fun _ => Task.empty, trace.sys.state.deferredFree,
          if task.stackBase ≠ 0 then
            freeStack trace.sys.state.frames task.stackBase (task.stackSize / 4096)
          else trace.sys.state.frames⟩ ∧
      (trace.countFrees (trace.sys.state.freeCalls (.kill taskId))).recordKill taskId =
        if task.stackBase ≠ 0 then
          { trace.countFrees (stackPages task.stackBase (task.stackSize / 4096)) with
            left := update trace.left (trace.taskIn i) true }
        else trace := by
  by_cases zero : taskId = 0
  · refine .inl ⟨by rw [kill, if_pos zero], ?_⟩
    simp only [freeCalls, if_pos zero, countFrees_nil, recordKill]
    split
    · exact if_neg fun both => both.1 zero
    · rfl
  cases found : trace.sys.sched.findTask taskId with
  | none =>
    refine .inl ⟨?_, ?_⟩
    · rw [kill, if_neg zero, found]
    · simp only [freeCalls, if_neg zero, found, countFrees_nil, recordKill]
  | some i =>
    refine .inr ⟨i, _, rfl, rfl, ?_, ?_⟩
    · rw [kill, if_neg zero, found]
    · have kept : (trace.countFrees (trace.sys.state.freeCalls (.kill taskId))).sys = trace.sys := rfl
      unfold recordKill
      rw [kept]
      by_cases owned : (trace.sys.tasks i).stackBase ≠ 0
      · simp only [freeCalls, if_neg zero, found]
        rw [if_pos ⟨zero, owned⟩, if_pos owned, if_pos owned]
        rfl
      · simp only [freeCalls, if_neg zero, found]
        rw [if_neg fun both => owned both.2, if_neg owned, if_neg owned, countFrees_nil]

theorem recordSpawn_refused (refused : trace.sys.sched.freeSlot = none ∨
    (trace.sys.state.frames.allocateContiguousFrames taskStackPages).1 = none) :
    trace.recordSpawn = trace := by
  unfold recordSpawn
  rcases refused with full | noFrames
  · rw [full]
  · rw [noFrames]
    split
    · next stackBase absurdly => cases absurdly
    · rfl

section

variable (inv : trace.Inv memoryMap)
include inv

theorem Inv.same (steady : next.Steady) (state : next.state = trace.sys.state)
    (others : next.others = trace.sys.others) : Inv memoryMap { trace with sys := next } := by
  refine ⟨⟨steady, ?_, ?_, ?_, ?_⟩, ?_⟩
  all_goals rw [state]
  · rw [others]
    exact inv.sound.ledger
  · exact inv.sound.formed
  · exact inv.sound.stays
  · exact inv.sound.deferred
  · exact inv.accounted.withSys next

/-- The stack that killing a task frees is the one its slot holds. -/
theorem Inv.kill_frees {taskId : UInt32} (found : trace.sys.sched.findTask taskId = some i)
    (owned : (trace.sys.tasks i).stackBase ≠ 0) :
    trace.sys.state.holding i = some ((trace.sys.tasks i).stackFrames, false) ∧
      FreesOnce (stackPages (trace.sys.tasks i).stackBase ((trace.sys.tasks i).stackSize / 4096))
        (trace.sys.tasks i).stackFrames := by
  refine ⟨(holding_of_stays (findTask_occupied found).2 _).trans (if_pos owned), ?_⟩
  rw [stackFrames, if_neg owned]
  exact freesOnce_stackPages ((inv.sound.formed i).sized owned).2 _

variable {change : Task → Task} (active : trace.sys.control = .active) (steady : next.Steady)
include active steady

/-- A call changes one slot, and the history accounts for it. -/
theorem Inv.modify {nextId : UInt32} {deferred : Option (Nat × Nat)} {frames : FrameAllocator}
    (state : next.state =
      ⟨Scheduler.modify { trace.sys.sched with nextId } slot change, deferred, frames⟩)
    (others : next.others = trace.sys.others)
    (formed : (change (trace.sys.tasks slot)).Formed)
    (stays : slot ≠ trace.sys.current →
      (change (trace.sys.tasks slot)).state ≠ .exited)
    (leaves : ∀ stack, deferred = some stack → slot = trace.sys.current ∧
      (change (trace.sys.tasks slot)).Leaves stack)
    (ledger : Ledger memoryMap frames
      (update (Holding.frames ∘ trace.sys.state.holding) slot
        ((change (trace.sys.tasks slot)).holding deferred).frames)
      trace.sys.others)
    (accounted : after.Accounted (update trace.sys.state.holding slot
      ((change (trace.sys.tasks slot)).holding deferred))) :
    Inv memoryMap { after with sys := next } := by
  have holding := holding_modify (inv.sound.none_exited active) slot change nextId
    deferred frames
  refine ⟨⟨steady, ?_, ?_, ?_, ?_⟩, ?_⟩
  all_goals rw [state]
  · rw [others, holding, comp_update]
    exact ledger
  · intro i
    by_cases isSlot : i = slot
    · rw [isSlot, tasks_modify_self]
      exact formed
    · rw [tasks_modify_of_ne _ _ isSlot]
      exact inv.sound.formed i
  · intro i other
    by_cases isSlot : i = slot
    · rw [isSlot, tasks_modify_self]
      exact stays (isSlot ▸ other)
    · rw [tasks_modify_of_ne _ _ isSlot]
      exact inv.sound.stays i other
  · intro stack pending
    obtain ⟨rfl, leaving⟩ := leaves stack pending
    exact (tasks_modify_self ..).symm ▸ leaving
  · exact holding.symm ▸ accounted.withSys next

/-- A call that lets a slot hold what it held before. -/
theorem Inv.keep {deferred : Option (Nat × Nat)}
    (state : next.state = ⟨trace.sys.sched.modify slot change, deferred,
      trace.sys.state.frames⟩) (others : next.others = trace.sys.others)
    (base : ∀ task, (change task).stackBase = task.stackBase)
    (size : ∀ task, (change task).stackSize = task.stackSize)
    (empty : (change (trace.sys.tasks slot)).state = .empty →
      (trace.sys.tasks slot).state = .empty)
    (stays : slot ≠ trace.sys.current →
      (change (trace.sys.tasks slot)).state ≠ .exited) (settled : deferred = none)
    (same : (change (trace.sys.tasks slot)).holding deferred =
      trace.sys.state.holding slot) : Inv memoryMap { trace with sys := next } := by
  refine inv.modify active steady state others
    ((inv.sound.formed slot).congr (base _) (size _) empty) stays ?_ ?_ ?_
  · intro stack pending
    cases settled.symm.trans pending
  · exact inv.sound.ledger.same (congrArg Holding.frames same)
  · rw [same, update_eq_self]
    exact inv.accounted

theorem Inv.quiet
    (state : next.state = { trace.sys.state with
      scheduler := trace.sys.sched.modify slot change })
    (others : next.others = trace.sys.others)
    (base : ∀ task, (change task).stackBase = task.stackBase)
    (size : ∀ task, (change task).stackSize = task.stackSize)
    (stays : (change (trace.sys.tasks slot)).state ≠ .exited)
    (empty : (change (trace.sys.tasks slot)).state = .empty →
      (trace.sys.tasks slot).state = .empty) :
    Inv memoryMap { trace with sys := next } :=
  inv.keep active steady state others base size empty (fun _ => stays)
    (inv.sound.deferred_none active)
    (holding_congr (base _) (size _) (inv.sound.none_exited active slot) stays ..)

/-- The stack of a task that exits stays held until the next timer interrupt. -/
theorem exitCurrentTask_inv (state : next.state = trace.sys.state.exitCurrentTask)
    (others : next.others = trace.sys.others) :
    Inv memoryMap { trace.recordExit with sys := next } := by
  have stays := inv.sound.none_exited active trace.sys.current
  unfold exitCurrentTask at state
  unfold recordExit
  dsimp only at state ⊢
  split
  next owned =>
    rw [if_pos owned] at state
    have held : trace.sys.state.holding trace.sys.current = _ :=
      (holding_of_stays stays _).trans (if_pos owned)
    refine inv.modify active steady state others ((inv.sound.formed _).congr rfl rfl nofun)
      (fun away => absurd rfl away) ?_ ?_ ?_
    · rintro stack ⟨rfl⟩
      exact ⟨rfl, rfl, owned, rfl⟩
    · rw [holding_exited owned]
      exact inv.sound.ledger.same (congrArg Holding.frames held).symm
    · rw [holding_exited owned]
      exact inv.accounted.leave held
        (inv.accounted.awaiting_none (inv.sound.none_leaves active))
  next bare =>
    rw [if_neg bare] at state
    refine inv.keep active steady state others (fun _ => rfl) (fun _ => rfl) nofun
      (fun away => absurd rfl away) (inv.sound.deferred_none active) ?_
    have unheld : trace.sys.state.holding trace.sys.current = none :=
      holding_of_bare _ (not_not.mp bare)
    rw [unheld]
    exact holding_of_bare _ (not_not.mp bare)

/-- Killing a task of another slot frees its stack at once. -/
theorem kill_inv {taskId : UInt32} (state : next.state = (trace.sys.state.kill taskId).2)
    (others : next.others = trace.sys.others) :
    Inv memoryMap
      { (trace.countFrees (trace.sys.state.freeCalls (.kill taskId))).recordKill taskId with
        sys := next } := by
  rcases trace.kill_cases taskId with ⟨unchanged, recorded⟩ | ⟨i, _, rfl, found, killed, recorded⟩
  · rw [recorded]
    rw [unchanged] at state
    exact inv.same steady state others
  have stays := (findTask_occupied found).2
  have formed := inv.sound.formed i
  rw [recorded]
  refine inv.modify active steady (state.trans killed) others ?_ (fun _ => nofun) ?_ ?_ ?_
  · exact ⟨fun owned => absurd rfl owned, fun _ => rfl⟩
  · intro stack pending
    cases (inv.sound.deferred_none active).symm.trans pending
  · exact inv.sound.ledger.freeTask formed (frames_holding stays)
  · rw [holding_of_bare _ rfl]
    split
    next owned =>
      obtain ⟨held, once⟩ := inv.kill_frees found owned
      refine inv.accounted.release held once (fun awaits => ?_) fun _ _ => .rfl
      cases ((inv.accounted.owned i _ _ held).awaits.mp awaits)
    next bare =>
      have unheld : trace.sys.state.holding i = none := holding_of_bare _ (not_not.mp bare)
      rw [← unheld, update_eq_self]
      exact inv.accounted

/-- A spawned task gets a stack of its own. -/
theorem spawn_inv {priority : TaskPriority}
    (state : next.state = (trace.sys.state.spawnWithPriority priority).2)
    (others : next.others = trace.sys.others) :
    Inv memoryMap { trace.recordSpawn with sys := next } := by
  have spawned := trace.sys.state.spawnWithPriority_spawned priority
  rw [← state] at spawned
  generalize shape : next.state = after at spawned
  cases spawned with
  | refused reason =>
    rw [reason.elim And.right inv.sound.ledger.refuse] at shape
    rw [recordSpawn_refused (reason.imp And.left (congrArg Prod.fst))]
    exact inv.same steady shape others
  | @spawned slot stackBase frames found allocated =>
    have empty := freeSlot_empty found
    have vacant : trace.sys.state.holding slot = none :=
      holding_of_bare _ ((inv.sound.formed slot).vacant empty)
    obtain ⟨ledger, owned, aligned, part, unheld⟩ := inv.sound.ledger.spawn
      (congrArg Holding.frames vacant) allocated trace.sys.sched.nextId priority
    have stays : (Task.spawned trace.sys.sched.nextId stackBase priority).state ≠ .exited := nofun
    have held := (holding_of_stays stays trace.sys.state.deferredFree).trans (if_pos owned)
    refine inv.modify active steady shape others ?_ (fun _ => nofun) ?_ ?_ ?_
    · exact spawned_formed _ priority aligned
    · intro stack pending
      cases (inv.sound.deferred_none active).symm.trans pending
    · rw [frames_holding stays]
      exact ledger
    · rw [held, part]
      exact inv.accounted.spawn found allocated vacant unheld

end

/-! ## Timer interrupts -/

end StackTrace

/-- A task before and after a step that empties its slot if it has exited. -/
def Task.Passes (before after : Task) : Prop :=
  if before.state = .exited then after = Task.empty
  else after.stackBase = before.stackBase ∧ after.stackSize = before.stackSize ∧
    after.state ≠ .exited ∧ (after.state = .empty → before.state = .empty)

namespace Scheduler

variable {sched : Scheduler}

theorem retired_passes (stopped : ∀ i, i ≠ sched.current → (sched.tasks i).state ≠ .exited)
    (i : Slot) : (sched.tasks i).Passes (sched.retired.tasks i) := by
  unfold Task.Passes
  by_cases isCurrent : i = sched.current
  · rw [isCurrent, retired_self]
    unfold Task.retire
    split
    · rfl
    next stays =>
      split
      · exact ⟨rfl, rfl, nofun, nofun⟩
      · exact ⟨rfl, rfl, stays, id⟩
  · rw [retired_of_ne isCurrent, if_neg (stopped i isCurrent)]
    exact ⟨rfl, rfl, stopped i isCurrent, id⟩

/-- What a timer interrupt does to the stacks of the slots. -/
theorem timerTickLocked_passes (started : sched.initialized = true)
    (stopped : ∀ i, i ≠ sched.current → (sched.tasks i).state ≠ .running)
    (stays : ∀ i, i ≠ sched.current → (sched.tasks i).state ≠ .exited)
    (pointer : StackPointer) (tick : UInt64) (i : Slot) :
    (sched.tasks i).Passes ((sched.timerTickLocked pointer tick).2.tasks i) := by
  have outcome := timerTickLocked_outcome started pointer tick
  obtain ⟨base, size, _⟩ := charged_kept sched pointer tick i
  have exits (i : Slot) := charged_state_iff sched pointer tick i .exited nofun nofun
  have empties := (charged_state_iff sched pointer tick i .empty nofun nofun).mp
  have passes : (sched.tasks i).Passes ((sched.charged pointer tick).retired.tasks i) := by
    have retires := retired_passes (fun j other => mt (exits j).mp (stays j other)) i
    unfold Task.Passes at retires ⊢
    rw [base, size] at retires
    simp only [exits] at retires
    split
    · next exited => rwa [if_pos exited] at retires
    next stays =>
      rw [if_neg stays] at retires
      exact ⟨retires.1, retires.2.1, retires.2.2.1, fun empty => empties (retires.2.2.2 empty)⟩
  generalize sched.timerTickLocked pointer tick = result at outcome
  cases outcome with
  | stays goesOn =>
    unfold Task.Passes
    split
    next exited =>
      have isCurrent : i = sched.current := by
        by_contra other
        exact stays i other exited
      subst isCurrent
      exact absurd (.inr (.inl ((exits _).mpr exited))) goesOn
    · next stayed => exact ⟨base, size, mt (exits i).mp stayed, empties⟩
  | @switches next spent picked =>
    by_cases isNext : i = next
    · have ready := pickNext_ready picked
      unfold Task.Passes at passes ⊢
      rw [← isNext] at ready ⊢
      rw [switchTo_self]
      split
      next exited =>
        rw [if_pos exited] at passes
        rw [passes] at ready
        cases ready
      next stayed =>
        rw [if_neg stayed] at passes
        exact ⟨passes.1, passes.2.1, nofun, nofun⟩
    · rw [switchTo_of_ne isNext]
      exact passes
  | idles spent idle => exact passes
  | fallsBack spent idle running =>
    exact absurd running (retired_stopped stopped pointer tick firstSlot)

end Scheduler

namespace SchedSystem

variable {memoryMap : MemoryMap} {sys after : SchedSystem}

/-- What a timer interrupt does to the slots: no slot holds the stack of an exited task any more. -/
structure Settled (before after : SchedSystem) : Prop where
  formed : ∀ i, (after.state.scheduler.tasks i).Formed
  stays : ∀ i, i ≠ after.state.scheduler.current →
    (after.state.scheduler.tasks i).state ≠ .exited
  holding : ∀ i, after.state.holding i =
    if (before.state.scheduler.tasks i).state = .exited then none else before.state.holding i

theorem tick_deferredFree (sys : SchedSystem) (rsp : Nat) (tick : UInt64) (lockHeld : Bool) :
    (sys.tick rsp tick lockHeld).state.deferredFree = none := by
  have cleared : sys.state.processDeferredFree.deferredFree = none := by
    unfold processDeferredFree
    cases pending : sys.state.deferredFree with
    | none => exact pending
    | some stack => rfl
  cases lockHeld <;> exact cleared

/-- A timer interrupt that finds the lock held only frees what is pending. -/
theorem Sound.tickHeld (sound : Sound memoryMap sys) (rsp : Nat) (tick : UInt64) :
    Settled sys (sys.tick rsp tick true) := by
  have same := (tick_lockHeld sys rsp tick).1
  have released := tick_deferredFree sys rsp tick true
  refine ⟨?_, ?_, fun i => ?_⟩
  · rw [same]
    exact sound.formed
  · rw [same]
    exact sound.stays
  · unfold SchedState.holding
    rw [same, released]
    split
    · next exited => exact if_neg fun held => held.2 exited rfl
    · next stayed => exact holding_congr rfl rfl stayed stayed ..

/-- A timer interrupt that gets the lock also empties the slot of a task that has exited. -/
theorem Sound.tickLocked (sound : Sound memoryMap sys) (rsp : Nat) (tick : UInt64) :
    Settled sys (sys.tick rsp tick false) := by
  have passes := timerTickLocked_passes sound.steady.started sound.steady.stopped
    sound.stays ⟨rsp, sys.cpu.stack⟩ tick
  rw [← (tick_locked sys rsp tick).1] at passes
  unfold Task.Passes at passes
  refine ⟨fun i => ?_, fun i _ => ?_, fun i => ?_⟩
  all_goals
    have passed := passes i
    split at passed
  · rw [passed]
    exact ⟨fun owned => absurd rfl owned, fun _ => rfl⟩
  · exact (sound.formed i).congr passed.1 passed.2.1 passed.2.2.2
  · rw [passed]
    exact nofun
  · exact passed.2.2.1
  · next exited =>
    rw [if_pos exited, SchedState.holding, passed]
    exact holding_of_bare _ rfl
  · next stayed =>
    rw [if_neg stayed]
    exact holding_congr passed.1 passed.2.1 stayed passed.2.2.1 ..

end SchedSystem

namespace StackTrace

variable {memoryMap : MemoryMap} {trace next : StackTrace} {part : Finset Nat} {exited : Bool}

section

variable (inv : trace.Inv memoryMap)
include inv

/-- The stack that a timer interrupt frees is the one the current slot holds. -/
theorem Inv.tick_frees {stack : Nat × Nat} (pending : trace.sys.state.deferredFree = some stack) :
    trace.sys.state.holding trace.sys.current =
        some ((trace.sys.tasks trace.sys.current).stackFrames, true) ∧
      FreesOnce (stackPages stack.1 stack.2) (trace.sys.tasks trace.sys.current).stackFrames := by
  obtain ⟨exited, owned, rfl⟩ := inv.sound.deferred _ pending
  constructor
  · rw [SchedState.holding, Task.holding, if_pos ⟨owned, fun _ => by rw [pending]; exact nofun⟩,
      decide_eq_true exited]
  · rw [stackFrames, if_neg owned]
    exact freesOnce_stackPages ((inv.sound.formed _).sized owned).2 _

/-- A timer interrupt frees the stack of a task that has exited. -/
theorem tick_inv (rsp : Nat) (tick : UInt64) (lockHeld : Bool) :
    Inv memoryMap
      { trace.countFrees (trace.sys.state.freeCalls (.timerTick rsp tick lockHeld)) with
        sys := trace.sys.tick rsp tick lockHeld
        awaiting := none } := by
  have settled : SchedSystem.Settled trace.sys (trace.sys.tick rsp tick lockHeld) := by
    cases lockHeld with
    | true => exact inv.sound.tickHeld rsp tick
    | false => exact inv.sound.tickLocked rsp tick
  have sound {holding : Slot → Holding}
      (holds : (trace.sys.tick rsp tick lockHeld).state.holding = holding)
      (ledger : Ledger memoryMap trace.sys.state.processDeferredFree.frames
        (Holding.frames ∘ holding) trace.sys.others) :
      (trace.sys.tick rsp tick lockHeld).Sound memoryMap := by
    refine ⟨inv.sound.steady.tick rsp tick lockHeld, ?_, settled.formed, settled.stays, ?_⟩
    · rw [holds]
      cases lockHeld <;> exact ledger
    · intro stack pending
      cases (tick_deferredFree ..).symm.trans pending
  unfold freeCalls
  unfold processDeferredFree at sound
  cases pending : trace.sys.state.deferredFree with
  | none =>
    rw [pending] at sound
    have unheld {i : Slot} (exited : (trace.sys.tasks i).state = .exited) :
        trace.sys.state.holding i = none := if_neg fun held => held.2 exited pending
    have holds : (trace.sys.tick rsp tick lockHeld).state.holding = trace.sys.state.holding := by
      funext i
      rw [settled.holding]
      split
      · next exited => exact (unheld exited).symm
      · rfl
    have quiet : trace.awaiting = none := by
      refine inv.accounted.awaiting_none fun i part held => ?_
      by_cases exited : (trace.sys.tasks i).state = .exited
      · cases (unheld exited).symm.trans held
      · rw [SchedState.holding, holding_of_stays exited] at held
        split at held <;> cases held
    refine ⟨sound holds inv.sound.ledger, ?_⟩
    rw [countFrees_nil, ← quiet]
    exact holds.symm ▸ inv.accounted.withSys _
  | some stack =>
    obtain ⟨held, once⟩ := inv.tick_frees pending
    obtain ⟨exited, owned, rfl⟩ := inv.sound.deferred _ pending
    have history := inv.accounted.owned _ _ _ held
    have settles (task : Nat) (other : task ≠ trace.taskIn trace.sys.current) :
        none = some task ↔ trace.awaiting = some task := by
      rw [history.awaits.mpr rfl]
      exact ⟨nofun, fun same => absurd (Option.some.inj same).symm other⟩
    have holds : (trace.sys.tick rsp tick lockHeld).state.holding =
        update trace.sys.state.holding trace.sys.current none := by
      funext i
      rw [settled.holding]
      by_cases isCurrent : i = trace.sys.current
      · rw [isCurrent, update_self, if_pos exited]
      · rw [update_of_ne isCurrent, if_neg (inv.sound.stays i isCurrent)]
    rw [pending] at sound
    refine ⟨sound holds ?_, ?_⟩
    · rw [comp_update]
      exact inv.sound.ledger.clear ((inv.sound.formed _).sized owned).2
        ((congrArg Holding.frames held).trans (if_neg owned))
    · have released := inv.accounted.release held once (some_ne_none _).symm settles
      nth_rewrite 1 [← history.left] at released
      rw [update_eq_self] at released
      exact holds.symm ▸ released.withSys _

theorem step_inv {event : SchedEvent}
    (others : trace.sys.KillsOthers event) (stepped : trace.step event = some next) :
    next.Inv memoryMap := by
  obtain ⟨sys, advanced, rfl⟩ := map_eq_some_iff.mp stepped
  have steady := advance_steady inv.sound.steady others advanced
  cases event with
  | kill taskId =>
    obtain ⟨active, rfl⟩ := call_eq_some advanced
    exact kill_inv inv active steady rfl rfl
  | timerTick rsp tick lockHeld =>
    cases advanced
    exact tick_inv inv rsp tick lockHeld
  | exitCurrentTask =>
    obtain ⟨called, returned, rfl⟩ := map_eq_some_iff.mp advanced
    obtain ⟨active, rfl⟩ := call_eq_some returned
    simp only [record, freeCalls, countFrees_nil]
    exact exitCurrentTask_inv inv active steady rfl rfl
  | sleepMs currentTick ms =>
    obtain ⟨called, returned, rfl⟩ := map_eq_some_iff.mp advanced
    obtain ⟨active, rfl⟩ := call_eq_some returned
    simp only [record, freeCalls, countFrees_nil]
    exact inv.quiet active steady rfl rfl (fun _ => rfl) (fun _ => rfl) nofun nofun
  | setPriority taskId priority =>
    obtain ⟨active, rfl⟩ := call_eq_some advanced
    simp only [record, freeCalls, countFrees_nil]
    unfold setPriority at steady ⊢
    split at steady
    next => exact inv.same steady rfl rfl
    next i found =>
      exact inv.quiet active steady rfl rfl (fun _ => rfl) (fun _ => rfl)
        (inv.sound.none_exited active i) id
  | yieldNow =>
    obtain ⟨active, rfl⟩ := call_eq_some advanced
    simp only [record, freeCalls, countFrees_nil]
    exact inv.quiet active steady rfl rfl (fun _ => rfl) (fun _ => rfl)
      (inv.sound.none_exited active _) id
  | otherFrames call result =>
    obtain ⟨client, ran, rfl⟩ := map_eq_some_iff.mp advanced
    simp only [record, freeCalls, countFrees_nil]
    exact ⟨⟨steady, inv.sound.ledger.other ran, inv.sound.formed, inv.sound.stays,
      inv.sound.deferred⟩, inv.accounted.withSys _⟩
  | spawn priority =>
    obtain ⟨active, rfl⟩ := call_eq_some advanced
    simp only [record, freeCalls, countFrees_nil]
    exact spawn_inv inv active steady rfl rfl

omit inv in
theorem mem_held (holds : trace.sys.state.holding i = some (part, exited)) {frame : Nat}
    (inside : frame ∈ part) : frame ∈ (Holding.frames ∘ trace.sys.state.holding) i := by
  rwa [comp_apply, holds]

theorem Inv.held (holds : trace.sys.state.holding i = some (part, exited)) {frame : Nat}
    (inside : frame ∈ trace.frames (trace.taskIn i)) :
    trace.sys.state.frames.isFree frame = false ∧ trace.frees (trace.taskIn i) frame = 0 := by
  have owned := inv.accounted.owned i part exited holds
  rw [owned.frames] at inside
  exact ⟨inv.sound.ledger.not_free (mem_held holds inside), owned.unfreed frame inside⟩

/-- A task's stack is held by a slot, or has been freed. -/
theorem Inv.held_or_freed {task : Nat} (positive : 0 < task) (spawned : task < trace.spawned) :
    (∃ i part exited, trace.sys.state.holding i = some (part, exited) ∧ trace.taskIn i = task) ∨
      trace.Freed task := by
  by_cases present : ∃ i, trace.sys.state.holding i ≠ none ∧ trace.taskIn i = task
  · obtain ⟨i, holds, same⟩ := present
    obtain ⟨⟨part, exited⟩, found⟩ := ne_none_iff_exists'.mp holds
    exact .inl ⟨i, part, exited, found, same⟩
  · exact .inr (inv.accounted.gone task positive spawned fun i holds same =>
      present ⟨i, holds, same⟩)

/-! ## The calls and the allocator -/

/-- The frames that an event frees are those of a stack that a slot holds. -/
theorem Inv.freeCalls_held (event : SchedEvent) : trace.sys.state.freeCalls event = [] ∨
    ∃ i part exited, trace.sys.state.holding i = some (part, exited) ∧
      FreesOnce (trace.sys.state.freeCalls event) part := by
  cases event with
  | kill taskId =>
    simp only [freeCalls]
    split
    · exact .inl rfl
    split
    · exact .inl rfl
    next i found =>
      split
      · next owned => exact .inr ⟨i, _, _, inv.kill_frees found owned⟩
      · exact .inl rfl
  | timerTick rsp tick lockHeld =>
    simp only [freeCalls]
    cases pending : trace.sys.state.deferredFree with
    | none => exact .inl rfl
    | some stack => exact .inr ⟨_, _, _, inv.tick_frees pending⟩
  | _ => exact .inl rfl

end

theorem record_sys (trace : StackTrace) (event : SchedEvent) (next : SchedSystem) :
    (trace.record event next).sys = next := by
  cases event <;> rfl

theorem record_frees (trace : StackTrace) (event : SchedEvent) (next : SchedSystem) :
    (trace.record event next).frees =
      (trace.countFrees (trace.sys.state.freeCalls event)).frees := by
  cases event with
  | spawn priority =>
    simp only [record, recordSpawn]
    split <;> rfl
  | exitCurrentTask =>
    simp only [record, recordExit]
    split <;> rfl
  | kill taskId =>
    simp only [record, recordKill]
    split
    · split <;> rfl
    · rfl
  | _ => rfl

/-- Apart from spawning, the scheduler changes the allocator by the noted calls. -/
theorem step_frames {event : SchedEvent} (stepped : trace.step event = some next)
    (spawns : ∀ priority, event ≠ .spawn priority)
    (others : ∀ call result, event ≠ .otherFrames call result) :
    next.sys.state.frames =
      (trace.sys.state.freeCalls event).foldl freeFrame trace.sys.state.frames := by
  obtain ⟨sys, advanced, rfl⟩ := map_eq_some_iff.mp stepped
  cases event with
  | spawn priority => exact absurd rfl (spawns priority)
  | otherFrames call result => exact absurd rfl (others call result)
  | kill taskId =>
    obtain ⟨_, rfl⟩ := call_eq_some advanced
    exact kill_frames_eq_freeCalls ..
  | timerTick rsp tick lockHeld =>
    cases advanced
    exact timerTick_frames_eq_freeCalls ..
  | exitCurrentTask | sleepMs _ _ =>
    obtain ⟨called, returned, rfl⟩ := map_eq_some_iff.mp advanced
    obtain ⟨_, rfl⟩ := call_eq_some returned
    rfl
  | setPriority taskId priority =>
    obtain ⟨_, rfl⟩ := call_eq_some advanced
    simp only [record, setPriority]
    split <;> rfl
  | yieldNow =>
    obtain ⟨_, rfl⟩ := call_eq_some advanced
    rfl

/-- A step that counts a frame as freed finds it allocated and leaves it free. -/
theorem Inv.step_frees (inv : trace.Inv memoryMap) {event : SchedEvent}
    (stepped : trace.step event = some next) {task frame : Nat}
    (inside : frame ∈ trace.frames task) (freed : next.frees task frame ≠ trace.frees task frame) :
    trace.sys.state.frames.isFree frame = false ∧ next.sys.state.frames.isFree frame = true := by
  have frames := step_frames stepped
  obtain ⟨sys, advanced, rfl⟩ := map_eq_some_iff.mp stepped
  rw [record_frees] at freed
  have calls : trace.sys.state.freeCalls event ≠ [] := by
    intro noCalls
    rw [noCalls, countFrees_nil] at freed
    exact freed rfl
  obtain ⟨i, part, exited, holds, once⟩ := (inv.freeCalls_held event).resolve_left calls
  have owned := inv.accounted.owned i part exited holds
  have owner : trace.owner frame = some task := by
    by_contra other
    exact freed ((congrArg _ (if_neg other)).trans (add_zero _))
  have member : frame ∈ part := by
    by_contra outside
    have count := once frame
    rw [if_neg outside] at count
    exact freed ((congrArg _ ((if_pos owner).trans count)).trans (add_zero _))
  cases owner.symm.trans (owned.owner frame member)
  refine ⟨(inv.held holds inside).1, ?_⟩
  rw [frames (by rintro _ rfl; exact calls rfl) (by rintro _ _ rfl; exact calls rfl)]
  refine (isFree_foldl_freeFrame ..).mpr
    (.inr ⟨?_, inv.sound.ledger.lt_maxFrames (mem_held holds member)⟩)
  rw [← count_pos_iff, once, if_pos member]
  exact one_pos

end StackTrace

theorem Ledger.disjoint {memoryMap : MemoryMap} {frames : FrameAllocator}
    {held : Slot → Finset Nat} {others : List (Finset Nat)}
    (ledger : Ledger memoryMap frames held others) {j : Slot} (different : i ≠ j) :
    Disjoint (held i) (held j) := by
  have apart := (pairwise_cons.mp (ledger.front i).partition.apart).1
  apply apart
  apply mem_append_left
  exact List.mem_map_of_mem ((mem_erase_of_ne different.symm).mpr (mem_finRange j))

/--
In every run in which the running task is never killed: the five frames of a
spawned task that has not left are allocated, have not been freed, and belong
to no other such task; those of a task that has left have been freed exactly
once, or are still allocated if the task exited and no timer interrupt has
occurred since.  Every event but spawning and the calls of other clients changes
the allocator by exactly the calls that are counted, and where it frees a frame
of the task, the frame was allocated before and is free afterwards.
-/
theorem stack_freed_exactly_once (memoryMap : MemoryMap) (cpu : StackPointer)
    (events : List SchedEvent) (trace : StackTrace)
    (reached : Transition.run StackTrace.step (StackTrace.start memoryMap cpu) events = some trace)
    (others : Transition.Meets StackTrace.step (fun trace => trace.sys.KillsOthers)
      (StackTrace.start memoryMap cpu) events) (task : Nat) (positive : 0 < task)
    (spawned : task < trace.spawned) :
    (trace.left task = false →
      (∀ frame ∈ trace.frames task,
        trace.sys.state.frames.isFree frame = false ∧ trace.frees task frame = 0) ∧
      ∀ other, 0 < other → other < trace.spawned → other ≠ task → trace.left other = false →
        Disjoint (trace.frames task) (trace.frames other)) ∧
    (trace.left task = true → trace.awaiting = some task →
      ∀ frame ∈ trace.frames task,
        trace.sys.state.frames.isFree frame = false ∧ trace.frees task frame = 0) ∧
    (trace.left task = true → trace.awaiting ≠ some task →
      ∀ frame ∈ trace.frames task, trace.frees task frame = 1) ∧
    ∀ event next, trace.step event = some next →
      ((∀ priority, event ≠ .spawn priority) → (∀ call result, event ≠ .otherFrames call result) →
        next.sys.state.frames =
          (trace.sys.state.freeCalls event).foldl freeFrame trace.sys.state.frames) ∧
      ∀ frame ∈ trace.frames task, next.frees task frame ≠ trace.frees task frame →
        trace.sys.state.frames.isFree frame = false ∧
          next.sys.state.frames.isFree frame = true := by
  have inv := Transition.run_preserves
    (fun _ _ _ inv others stepped => StackTrace.step_inv inv others stepped)
    (StackTrace.start_inv memoryMap cpu) others reached
  -- A task that has not left, or whose stack is still pending, is held by a slot.
  have held {task : Nat} (positive : 0 < task) (spawned : task < trace.spawned)
      (present : trace.left task = false ∨ trace.awaiting = some task) :
      ∃ i part exited, trace.sys.state.holding i = some (part, exited) ∧ trace.taskIn i = task := by
    refine (inv.held_or_freed positive spawned).resolve_right fun freed => ?_
    rcases present with stays | awaits
    · cases stays.symm.trans freed.left
    · exact freed.settled awaits
  refine ⟨fun stays => ⟨?_, ?_⟩, fun _ awaits => ?_, fun left waits => ?_, ?_⟩
  · obtain ⟨i, part, exited, holds, rfl⟩ := held positive spawned (.inl stays)
    exact fun frame inside => inv.held holds inside
  · intro other otherPositive otherSpawned different otherStays
    obtain ⟨i, part, exited, holds, rfl⟩ := held positive spawned (.inl stays)
    obtain ⟨j, partToo, exitedToo, holdsToo, rfl⟩ := held otherPositive otherSpawned
      (.inl otherStays)
    have apart := inv.sound.ledger.disjoint fun same : i = j => different (same ▸ rfl)
    rw [comp_apply, comp_apply, holds, holdsToo] at apart
    rw [(inv.accounted.owned i _ _ holds).frames, (inv.accounted.owned j _ _ holdsToo).frames]
    exact apart
  · obtain ⟨i, part, exited, holds, rfl⟩ := held positive spawned (.inr awaits)
    exact fun frame inside => inv.held holds inside
  · refine ((inv.held_or_freed positive spawned).resolve_left ?_).once
    rintro ⟨i, part, exited, holds, rfl⟩
    have owned := inv.accounted.owned i part exited holds
    exact waits (owned.awaits.mpr (owned.left.symm.trans left))
  · exact fun event next stepped => ⟨StackTrace.step_frames stepped,
      fun frame inside freed => inv.step_frees stepped inside freed⟩

/-- A task is spawned, runs and exits while the boot thread is ready. -/
def politeRun : List SchedEvent :=
  [.spawn .normal, .yieldNow, .timerTick 0xFFFFFFFF8000FF00 1 false, .exitCurrentTask,
    .timerTick 0x104F00 2 false]

/-- A task runs and exits; its five frames are allocated until the next timer interrupt frees
them. -/
theorem stack_freed_politeRun : ∃ trace next,
    Transition.run StackTrace.step (StackTrace.start eightFrameMap bootPointer)
        politeRun.dropLast = some trace ∧
      trace.step (.timerTick 0x104F00 2 false) = some next ∧
      ∀ frame ∈ frameRun 0x100 5,
        trace.sys.state.frames.isFree frame = false ∧ trace.frees 1 frame = 0 ∧
        next.sys.state.frames.isFree frame = true ∧ next.frees 1 frame = 1 := by
  have seen : ∃ trace ∈ Transition.run StackTrace.step (StackTrace.start eightFrameMap bootPointer)
      politeRun.dropLast, trace.spawned = 2 ∧ trace.left 1 = true ∧ trace.awaiting = some 1 ∧
        trace.firstFrame 1 = 0x100 ∧ ∃ next ∈ trace.step (.timerTick 0x104F00 2 false),
          ∀ frame ∈ frameRun 0x100 5, next.frees 1 frame = 1 := by
    decide +kernel
  obtain ⟨trace, reached, spawned, left, awaiting, first, next, stepped, counted⟩ := seen
  obtain ⟨_, pending, _, steps⟩ := stack_freed_exactly_once eightFrameMap bootPointer _ trace
    reached (by decide +kernel) 1 one_pos (by rw [spawned]; decide)
  refine ⟨trace, next, reached, stepped, fun frame inside => ?_⟩
  have member : frame ∈ trace.frames 1 := by rwa [StackTrace.frames, first]
  obtain ⟨allocated, unfreed⟩ := pending left awaiting frame member
  have once := counted frame inside
  refine ⟨allocated, unfreed, ((steps _ next stepped).2 frame member ?_).2, once⟩
  rw [once, unfreed]
  exact one_ne_zero

end CantayaOS.Sched
