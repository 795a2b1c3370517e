import CantayaOS.Sched.Scheduler

/-!
# What a timer interrupt can do

Once it has the lock, the timer interrupt lets the current task go on, switches
to the ready task that comes next, or finds no task that is ready.
-/

namespace CantayaOS.Sched

open List Function

/-! ## Picking a task -/

variable {task : Task} {slot : Slot} {tick : UInt64}

variable {i next : Slot}

namespace Scheduler

variable {sched : Scheduler}

theorem found_of_found (sched : Scheduler) (slots : List Slot) {best : TaskPriority × Bool}
    (found : best.2 = true) : (slots.foldl sched.betterPriority best).2 = true := by
  induction slots generalizing best with
  | nil => exact found
  | cons slot rest ih =>
    apply ih
    unfold betterPriority
    split
    · rfl
    · exact found

/-- The first pass finds a ready task's priority, or it has seen no ready task. -/
theorem firstPass_spec (sched : Scheduler) (slots : List Slot) (best : TaskPriority × Bool)
    (sound : best.2 = true → ∃ i, (sched.tasks i).state = .ready ∧ (sched.tasks i).priority = best.1)
    (low : best.2 = false → best.1 = .idle) :
    ((slots.foldl sched.betterPriority best).2 = true →
        ∃ i, (sched.tasks i).state = .ready ∧
          (sched.tasks i).priority = (slots.foldl sched.betterPriority best).1) ∧
      ((slots.foldl sched.betterPriority best).2 = false →
        ∀ i ∈ slots, (sched.tasks i).state ≠ .ready) := by
  induction slots generalizing best with
  | nil => exact ⟨sound, fun _ _ member => nomatch member⟩
  | cons slot rest ih =>
    by_cases taken : (sched.tasks slot).state = .ready ∧
        best.1.rank ≤ (sched.tasks slot).priority.rank
    · have stepped : sched.betterPriority best slot = ((sched.tasks slot).priority, true) := by
        unfold betterPriority
        rw [if_pos taken]
      have found := found_of_found sched rest
        (rfl : ((sched.tasks slot).priority, true).2 = true)
      rw [foldl_cons, stepped]
      refine ⟨(ih _ (fun _ => ⟨slot, taken.1, rfl⟩) (fun missed => by cases missed)).1, ?_⟩
      intro missed
      rw [found] at missed
      cases missed
    · have stepped : sched.betterPriority best slot = best := by
        unfold betterPriority
        rw [if_neg taken]
      rw [foldl_cons, stepped]
      obtain ⟨hit, missed⟩ := ih best sound low
      refine ⟨hit, ?_⟩
      intro unseen i member
      rcases mem_cons.mp member with rfl | member
      · intro ready
        cases flag : best.2 with
        | false =>
          apply taken
          rw [low flag]
          exact ⟨ready, Nat.zero_le _⟩
        | true =>
          rw [found_of_found sched rest flag] at unseen
          cases unseen
      · exact missed unseen i member

theorem pickNext_ready (picked : sched.pickNext = some next) :
    (sched.tasks next).state = .ready := by
  unfold pickNext at picked
  dsimp only at picked
  split at picked
  · cases picked
  · have chosen := find?_some picked
    exact (of_decide_eq_true chosen).1

/-- If no task is picked then none is ready. -/
theorem not_ready_of_pickNext_none (unpicked : sched.pickNext = none) (i : Slot) :
    (sched.tasks i).state ≠ .ready := by
  obtain ⟨hit, missed⟩ := firstPass_spec sched (List.finRange maxTasks) (.idle, false)
    (fun found => by cases found) (fun _ => rfl)
  unfold pickNext at unpicked
  dsimp only at unpicked
  split at unpicked
  next unfound =>
    rw [Bool.not_eq_true'] at unfound
    exact missed unfound i (mem_finRange i)
  next found =>
    rw [Bool.not_eq_true', Bool.not_eq_false] at found
    obtain ⟨best, ready, priority⟩ := hit found
    -- The second pass visits every slot, also the best one.
    have visited : best ∈ (List.range' 1 maxTasks).map fun offset =>
        (⟨(sched.current + offset) % maxTasks, Nat.mod_lt _ (by decide)⟩ : Slot) := by
      refine List.mem_map.mpr ⟨(best.val + maxTasks - sched.current.val - 1) % maxTasks + 1, ?_, ?_⟩
      · rw [mem_range'_1]
        have bound := Nat.mod_lt (best.val + maxTasks - sched.current.val - 1)
          (by decide : 0 < maxTasks)
        omega
      · apply Fin.ext
        dsimp only
        unfold maxTasks at *
        omega
    have refused := find?_eq_none.mp unpicked best visited
    exact absurd (decide_eq_true ⟨ready, priority⟩) refused

/-- No ready task among the slots seen outranks the priority that the first pass ends with. -/
theorem firstPass_max (sched : Scheduler) (slots : List Slot) (best : TaskPriority × Bool) :
    best.1.rank ≤ (slots.foldl sched.betterPriority best).1.rank ∧
      ∀ i ∈ slots, (sched.tasks i).state = .ready →
        (sched.tasks i).priority.rank ≤ (slots.foldl sched.betterPriority best).1.rank := by
  induction slots generalizing best with
  | nil => exact ⟨le_rfl, fun _ member => nomatch member⟩
  | cons slot rest ih =>
    obtain ⟨grows, highest⟩ := ih (sched.betterPriority best slot)
    have step : best.1.rank ≤ (sched.betterPriority best slot).1.rank ∧
        ((sched.tasks slot).state = .ready →
          (sched.tasks slot).priority.rank ≤ (sched.betterPriority best slot).1.rank) := by
      unfold betterPriority
      split
      · next taken => exact ⟨taken.2, fun _ => le_rfl⟩
      next refused =>
        refine ⟨le_rfl, fun ready => ?_⟩
        by_contra lower
        exact refused ⟨ready, by omega⟩
    refine ⟨step.1.trans grows, ?_⟩
    intro i member ready
    rcases mem_cons.mp member with rfl | member
    · exact (step.2 ready).trans grows
    · exact highest i member ready

/-- The picked task has the highest priority of the ready ones. -/
theorem pickNext_max (picked : sched.pickNext = some next)
    (ready : (sched.tasks i).state = .ready) :
    (sched.tasks i).priority.rank ≤ (sched.tasks next).priority.rank := by
  have highest := (firstPass_max sched (List.finRange maxTasks) (.idle, false)).2 i
    (mem_finRange i) ready
  unfold pickNext at picked
  dsimp only at picked
  split at picked
  · cases picked
  · have chosen := find?_some picked
    rw [(of_decide_eq_true chosen).2]
    exact highest

end Scheduler

/-! ## The outcomes -/

/-- The task's time slice is over, or it cannot go on. -/
def Task.SliceOver (task : Task) : Prop :=
  task.quantumRemaining = 0 ∨ task.state = .exited ∨ task.state = .blocked

instance (task : Task) : Decidable task.SliceOver := inferInstanceAs (Decidable (_ ∨ _ ∨ _))

/-- The tick ends the task's time slice: it is not woken now, and has no tick left or cannot go on. -/
def Task.SliceEnds (task : Task) (tick : UInt64) : Prop :=
  ¬ task.Due tick ∧
    (task.quantumRemaining ≤ 1 ∨ task.state = .exited ∨ task.state = .blocked)

instance (task : Task) (tick : UInt64) : Decidable (task.SliceEnds tick) :=
  inferInstanceAs (Decidable (_ ∧ _))

theorem TaskPriority.one_lt_quantum (priority : TaskPriority) : ¬ priority.quantum ≤ 1 := by
  cases priority <;> decide

theorem Task.charge_quantum_eq_zero (pointer : StackPointer) (task : Task) :
    (task.charge pointer).quantumRemaining = 0 ↔ task.quantumRemaining ≤ 1 := by
  change (if task.quantumRemaining > 0 then task.quantumRemaining - 1
    else task.quantumRemaining) = 0 ↔ _
  split <;> grind

theorem Task.sliceOver_iff_sliceEnds (pointer : StackPointer) (task : Task) (tick : UInt64) :
    ((task.wake tick).charge pointer).SliceOver ↔ task.SliceEnds tick := by
  unfold SliceOver SliceEnds
  rw [charge_quantum_eq_zero]
  unfold wake
  split
  next due =>
    constructor
    · rintro (short | exited | blocked)
      · exact absurd short (TaskPriority.one_lt_quantum _)
      · cases exited
      · cases blocked
    · exact fun ends => absurd due ends.1
  · next early => exact ⟨fun spent => ⟨early, spent⟩, fun ends => ends.2⟩

namespace Scheduler

variable {sched : Scheduler}

@[simp] theorem tasks_modify_self (sched : Scheduler) (slot : Slot) (change : Task → Task) :
    (sched.modify slot change).tasks slot = change (sched.tasks slot) :=
  update_self ..

theorem tasks_modify_of_ne (sched : Scheduler) {other : Slot} (change : Task → Task)
    (different : other ≠ slot) : (sched.modify slot change).tasks other = sched.tasks other :=
  update_of_ne different ..

/-- Waking only turns blocked tasks into ready ones. -/
theorem wake_state_iff (state : TaskState) (notReady : state ≠ .ready)
    (notBlocked : state ≠ .blocked) : (task.wake tick).state = state ↔ task.state = state := by
  unfold Task.wake
  split
  next due =>
    rw [due.1]
    exact ⟨fun ready => absurd ready.symm notReady, fun blocked => absurd blocked.symm notBlocked⟩
  · rfl

theorem wake_kept (task : Task) (tick : UInt64) :
    (task.wake tick).stackBase = task.stackBase ∧ (task.wake tick).stackSize = task.stackSize ∧
      (task.wake tick).priority = task.priority ∧ (task.wake tick).savedRsp = task.savedRsp := by
  unfold Task.wake
  split <;> exact ⟨rfl, rfl, rfl, rfl⟩

theorem wake_ready (wakes : task.state = .ready ∨ task.Due tick) :
    (task.wake tick).state = .ready := by
  unfold Task.wake
  split
  · rfl
  · next early => exact wakes.resolve_right early

/-- Sleeping tasks are woken, and the current task is saved and charged. -/
def charged (sched : Scheduler) (pointer : StackPointer) (tick : UInt64) : Scheduler :=
  (sched.wakeSleepingTasks tick).modify sched.current (Task.charge pointer)

def freeSlot (sched : Scheduler) : Option Slot :=
  (List.finRange maxTasks).find? fun i => decide ((sched.tasks i).state = .empty)

/-- The current task makes room for another one. -/
def retired (sched : Scheduler) : Scheduler := sched.modify sched.current Task.retire

/-- The kernel task, which is running, becomes the current one. -/
def fallBack (sched : Scheduler) : Scheduler :=
  { sched.modify firstSlot fun task => { task with state := .running } with current := firstSlot }

/-- The outcomes of a timer interrupt for a scheduler whose current task is charged. -/
inductive TickOutcome (charged : Scheduler) (pointer : StackPointer) :
    StackPointer × Scheduler → Prop where
  | stays (goesOn : ¬ (charged.tasks charged.current).SliceOver) :
      TickOutcome charged pointer (pointer, charged)
  | switches {next : Slot} (spent : (charged.tasks charged.current).SliceOver)
      (picked : charged.retired.pickNext = some next) :
      TickOutcome charged pointer
        (((charged.retired.switchTo next).tasks next).savedRsp, charged.retired.switchTo next)
  | idles (spent : (charged.tasks charged.current).SliceOver)
      (idle : ∀ i, (charged.retired.tasks i).state ≠ .ready) :
      TickOutcome charged pointer (pointer, charged.retired)
  | fallsBack (spent : (charged.tasks charged.current).SliceOver)
      (idle : ∀ i, (charged.retired.tasks i).state ≠ .ready)
      (running : (charged.retired.tasks firstSlot).state = .running) :
      TickOutcome charged pointer
        ((charged.retired.fallBack.tasks firstSlot).savedRsp, charged.retired.fallBack)

theorem retire_state_ne (task : Task) :
    task.retire.state ≠ .running ∧ task.retire.state ≠ .exited := by
  unfold Task.retire
  split
  · exact ⟨nofun, nofun⟩
  next stays =>
    split
    · exact ⟨nofun, nofun⟩
    · next stopped => exact ⟨stopped, stays⟩

theorem reschedule_outcome {pointer : StackPointer} (spent : sched.running.SliceOver) :
    TickOutcome sched pointer (sched.reschedule pointer) := by
  have self : sched.retired.tasks sched.current = sched.running.retire := tasks_modify_self ..
  have left := retire_state_ne sched.running
  rw [← self] at left
  unfold reschedule
  dsimp only
  rw [← retired]
  cases picked : sched.retired.pickNext with
  | some next => exact .switches spent picked
  | none =>
    have idle := not_ready_of_pickNext_none picked
    dsimp only
    split
    · split
      · next first => exact .fallsBack spent idle (first.resolve_left (idle _))
      · exact .idles spent idle
    next occupied =>
      split
      next awake =>
        change (sched.retired.tasks sched.current).state ≠ .empty at occupied
        cases state : (sched.retired.tasks sched.current).state with
        | ready => exact absurd state (idle _)
        | empty => exact absurd state occupied
        | blocked => exact absurd state awake
        | running => exact absurd state left.1
        | exited => exact absurd state left.2
      · exact .idles spent idle

/-- What the timer interrupt can do with an initialised scheduler. -/
theorem timerTickLocked_outcome (started : sched.initialized = true) (pointer : StackPointer)
    (tick : UInt64) :
    TickOutcome (sched.charged pointer tick) pointer (sched.timerTickLocked pointer tick) := by
  unfold timerTickLocked
  rw [started]
  simp only [Bool.not_true, Bool.false_eq_true, if_false]
  split
  next spent => exact reschedule_outcome spent
  next goesOn => exact .stays goesOn

@[simp] theorem charged_current (sched : Scheduler) (pointer : StackPointer) (tick : UInt64) :
    (sched.charged pointer tick).current = sched.current := rfl

theorem charged_self (sched : Scheduler) (pointer : StackPointer) (tick : UInt64) :
    (sched.charged pointer tick).tasks sched.current = (sched.running.wake tick).charge pointer :=
  tasks_modify_self ..

theorem charged_of_ne (other : i ≠ sched.current) (pointer : StackPointer)
    (tick : UInt64) : (sched.charged pointer tick).tasks i = (sched.tasks i).wake tick :=
  tasks_modify_of_ne _ _ other

variable (sched)

theorem charged_state (pointer : StackPointer) (tick : UInt64) (i : Slot) :
    ((sched.charged pointer tick).tasks i).state = ((sched.tasks i).wake tick).state := by
  by_cases same : i = sched.current
  · rw [same, charged_self]
    rfl
  · rw [charged_of_ne same]

theorem charged_state_iff (pointer : StackPointer) (tick : UInt64) (i : Slot)
    (state : TaskState) (notReady : state ≠ .ready) (notBlocked : state ≠ .blocked) :
    ((sched.charged pointer tick).tasks i).state = state ↔ (sched.tasks i).state = state := by
  rw [charged_state, wake_state_iff state notReady notBlocked]

theorem charged_kept (pointer : StackPointer) (tick : UInt64) (i : Slot) :
    ((sched.charged pointer tick).tasks i).stackBase = (sched.tasks i).stackBase ∧
      ((sched.charged pointer tick).tasks i).stackSize = (sched.tasks i).stackSize ∧
      ((sched.charged pointer tick).tasks i).priority = (sched.tasks i).priority := by
  obtain ⟨base, size, priority, _⟩ := wake_kept (sched.tasks i) tick
  by_cases same : i = sched.current
  · subst same
    rw [charged_self]
    exact ⟨base, size, priority⟩
  · rw [charged_of_ne same]
    exact ⟨base, size, priority⟩

@[simp] theorem retired_current : sched.retired.current = sched.current := rfl

theorem retired_self : sched.retired.tasks sched.current = sched.running.retire :=
  tasks_modify_self ..

variable {sched}

theorem retired_of_ne (other : i ≠ sched.current) : sched.retired.tasks i = sched.tasks i :=
  tasks_modify_of_ne _ _ other

theorem retired_ready (running : sched.running.state = .running) :
    (sched.retired.tasks sched.current).state = .ready := by
  rw [retired_self, Task.retire, if_neg (by rw [running]; exact nofun), if_pos running]

theorem retired_stopped (stopped : ∀ i, i ≠ sched.current → (sched.tasks i).state ≠ .running)
    (pointer : StackPointer) (tick : UInt64) (i : Slot) :
    ((sched.charged pointer tick).retired.tasks i).state ≠ .running := by
  by_cases same : i = (sched.charged pointer tick).current
  · rw [same, retired_self]
    exact (retire_state_ne _).1
  · rw [retired_of_ne same, Ne, charged_state_iff sched pointer tick i .running nofun nofun]
    exact stopped i same

theorem timerTickLocked_initialized (started : sched.initialized = true) (pointer : StackPointer)
    (tick : UInt64) : (sched.timerTickLocked pointer tick).2.initialized = true := by
  have outcome := timerTickLocked_outcome started pointer tick
  generalize sched.timerTickLocked pointer tick = result at outcome
  cases outcome <;> exact started

theorem switchTo_self (sched : Scheduler) (next : Slot) :
    (sched.switchTo next).tasks next = (sched.tasks next).resume :=
  tasks_modify_self ..

theorem switchTo_of_ne (other : i ≠ next) : (sched.switchTo next).tasks i = sched.tasks i :=
  tasks_modify_of_ne _ _ other

theorem fallBack_of_ne (other : i ≠ firstSlot) : sched.fallBack.tasks i = sched.tasks i :=
  update_of_ne other ..

end Scheduler

end CantayaOS.Sched
