import CantayaOS.Memory.FrameRefinement
import CantayaOS.Sched.Scheduler

/-!
# Stacks as parts of the frame allocator

Every slot holds the frames of its task's stack; other components hold further
parts.  Together with the free frames these parts partition the frames that the
allocator started with, and spawning and freeing stacks keep it so.
-/

namespace CantayaOS.Sched

open Lib Memory Shared FrameClient List Function FrameAllocator Sched.Task

def Stack.frames (stack : Stack) : Finset Nat :=
  frameRun (stack.base / pageSize) (stack.size / pageSize)

def Task.stackFrames (task : Task) : Finset Nat :=
  if task.stackBase = 0 then ∅ else Stack.frames ⟨task.stackBase, task.stackSize⟩

def slotParts (held : Slot → Finset Nat) : List (Finset Nat) := (List.finRange maxTasks).map held

/-- Free frames, the slots' parts and the parts of other components partition the memory. -/
def Ledger (memoryMap : MemoryMap) (frames : FrameAllocator) (held : Slot → Finset Nat)
    (others : List (Finset Nat)) : Prop :=
  FrameClient.Valid memoryMap ⟨frames, slotParts held ++ others⟩

variable {live : List (Finset Nat)} {count : Nat}

theorem slotParts_perm (held : Slot → Finset Nat) (slot : Slot) :
    (slotParts held).Perm (held slot :: ((List.finRange maxTasks).erase slot).map held) :=
  (perm_cons_erase (mem_finRange slot)).map held

theorem slotParts_update_perm (held : Slot → Finset Nat) (slot : Slot) (part : Finset Nat) :
    (slotParts (update held slot part)).Perm
      (part :: ((List.finRange maxTasks).erase slot).map held) := by
  have moved := slotParts_perm (update held slot part) slot
  rw [update_self] at moved
  have same : ((List.finRange maxTasks).erase slot).map (update held slot part) =
      ((List.finRange maxTasks).erase slot).map held := by
    apply map_congr_left
    intro other member
    apply update_of_ne
    rintro rfl
    exact (nodup_finRange maxTasks).not_mem_erase member
  rwa [same] at moved

theorem valid_cons_empty {memoryMap : MemoryMap} {frames : FrameAllocator}
    (valid : FrameClient.Valid memoryMap ⟨frames, ∅ :: live⟩) :
    FrameClient.Valid memoryMap ⟨frames, live⟩ :=
  ⟨valid.coherent, valid.tracked, Pool.partition_cons_empty_iff.mp valid.partition⟩

namespace Ledger

variable {memoryMap : MemoryMap} {frames after : FrameAllocator} {held : Slot → Finset Nat}
  {others : List (Finset Nat)} {slot : Slot} {part : Finset Nat}

theorem front (ledger : Ledger memoryMap frames held others) (slot : Slot) :
    FrameClient.Valid memoryMap
      ⟨frames, held slot :: (((List.finRange maxTasks).erase slot).map held ++ others)⟩ :=
  FrameClient.Valid.perm ledger ((slotParts_perm held slot).append_right others)

theorem start (memoryMap : MemoryMap) : Ledger memoryMap (init memoryMap) (fun _ => ∅) [] := by
  have vacant (slots : List Slot) : FrameClient.Valid memoryMap
      ⟨init memoryMap, slots.map fun _ => ∅⟩ := by
    induction slots with
    | nil => exact start_valid memoryMap
    | cons slot rest ih =>
      exact ⟨ih.coherent, ih.tracked, Pool.partition_cons_empty_iff.mpr ih.partition⟩
  unfold Ledger slotParts
  rw [append_nil]
  exact vacant _

theorem fill (vacant : held slot = ∅)
    (valid : FrameClient.Valid memoryMap ⟨after, part :: (slotParts held ++ others)⟩) :
    Ledger memoryMap after (update held slot part) others := by
  have opened : (part :: (slotParts held ++ others)).Perm
      (∅ :: part :: (((List.finRange maxTasks).erase slot).map held ++ others)) := by
    have moved := (slotParts_perm held slot).append_right others
    rw [vacant] at moved
    exact (moved.cons part).trans (List.Perm.swap ..)
  have dropped := valid_cons_empty (FrameClient.Valid.perm valid opened)
  exact FrameClient.Valid.perm dropped
    ((slotParts_update_perm held slot part).append_right others).symm

theorem freeFirst {first : Nat}
    (valid : FrameClient.Valid memoryMap ⟨frames, frameRun first (count + 1) :: live⟩) :
    FrameClient.Valid memoryMap
      ⟨frames.freeFrame (first * pageSize), frameRun (first + 1) count :: live⟩ := by
  have inside : first ∈ frameRun first (count + 1) := by
    rw [frameRun, Finset.mem_Ico]
    omega
  have shrunk : (frameRun first (count + 1)).erase first = frameRun (first + 1) count := by
    ext i
    simp only [frameRun, Finset.mem_erase, Finset.mem_Ico]
    omega
  have kept : live.map (fun other => other.erase first) = live := by
    have apart := (pairwise_cons.mp valid.partition.apart).1
    have same : ∀ other ∈ live, other.erase first = id other := by
      intro other member
      exact Finset.erase_eq_of_notMem (Finset.disjoint_left.mp (apart other member) inside)
    rw [map_congr_left same, List.map_id]
  have stepped : FrameClient.step ⟨frames, frameRun first (count + 1) :: live⟩
      (.freeFrame (first * pageSize), none) =
      some ⟨frames.freeFrame (first * pageSize), frameRun (first + 1) count :: live⟩ := by
    have held : ∃ part ∈ frameRun first (count + 1) :: live,
        first * pageSize / pageSize ∈ part :=
      ⟨_, mem_cons_self .., by rwa [address_div]⟩
    simp only [FrameClient.step]
    rw [if_pos ⟨held, trivial⟩, address_div, map_cons, shrunk, kept]
  exact (step_simulates valid stepped).2

/-- Freeing a stack page by page gives its whole run back. -/
theorem freeStack {first : Nat}
    (valid : FrameClient.Valid memoryMap ⟨frames, frameRun first count :: live⟩) :
    FrameClient.Valid memoryMap
      ⟨SchedState.freeStack frames (first * pageSize) count, live⟩ := by
  have freed (k : Nat) (few : k ≤ count) : FrameClient.Valid memoryMap
      ⟨SchedState.freeStack frames (first * pageSize) k,
        frameRun (first + k) (count - k) :: live⟩ := by
    induction k with
    | zero => exact valid
    | succ k ih =>
      have rest : count - k = count - (k + 1) + 1 := by omega
      have before := ih (by omega)
      rw [rest] at before
      have after := freeFirst before
      have address : (first + k) * pageSize = first * pageSize + k * 4096 := by
        unfold pageSize
        omega
      rw [address] at after
      unfold SchedState.freeStack at after ⊢
      rw [List.range_succ, List.foldl_append]
      exact after
  have all := freed count le_rfl
  have noneLeft : frameRun (first + count) (count - count) = ∅ := by
    rw [Nat.sub_self, frameRun, Nat.add_zero, Finset.Ico_self]
  rw [noneLeft] at all
  exact valid_cons_empty all

section

variable (ledger : Ledger memoryMap frames held others)
include ledger

theorem clear {base : Nat} (aligned : pageSize ∣ base)
    (holds : held slot = frameRun (base / pageSize) count) :
    Ledger memoryMap (SchedState.freeStack frames base count)
      (Function.update held slot ∅) others := by
  have valid := ledger.front slot
  rw [holds] at valid
  have freed := freeStack valid
  rw [Nat.div_mul_cancel aligned] at freed
  have widened : FrameClient.Valid memoryMap ⟨_, ∅ :: _⟩ :=
    ⟨freed.coherent, freed.tracked, Pool.partition_cons_empty_iff.mpr freed.partition⟩
  exact FrameClient.Valid.perm widened
    ((slotParts_update_perm held slot ∅).append_right others).symm

theorem not_free {i : Nat} (inside : i ∈ held slot) : frames.isFree i = false := by
  have fresh := (ledger.front slot).partition.fresh (held slot) (mem_cons_self ..)
  have notFree := Finset.disjoint_left.mp fresh inside
  cases free : frames.isFree i with
  | false => rfl
  | true => exact absurd (mem_freeSet.mpr free) notFree

theorem lt_maxFrames {i : Nat} (inside : i ∈ held slot) : i < maxFrames :=
  isFree_lt (mem_freeSet.mp
    ((ledger.front slot).partition.live_subset (mem_cons_self ..) inside))

theorem other {call : FrameCall × Option Nat} {client : FrameClient}
    (stepped : FrameClient.step ⟨frames, others⟩ call = some client) :
    Ledger memoryMap client.allocator held client.live := by
  have swapped := FrameClient.Valid.perm ledger perm_append_comm
  have together := step_beside swapped stepped
  exact FrameClient.Valid.perm (step_simulates swapped together).2
    perm_append_comm

end

end Ledger

/-! ## Tasks and their stacks -/

variable {task changed : Task} {slot : Slot} {stackBase : Nat}

/-- Allocated stacks have the fixed size, and an empty slot has no stack. -/
structure Task.Formed (task : Task) : Prop where
  sized : task.stackBase ≠ 0 → task.stackSize = taskStackSize ∧ pageSize ∣ task.stackBase
  vacant : task.state = .empty → task.stackBase = 0

theorem Task.Formed.congr (formed : task.Formed)
    (base : changed.stackBase = task.stackBase) (size : changed.stackSize = task.stackSize)
    (state : changed.state = .empty → task.state = .empty) : changed.Formed := by
  refine ⟨?_, ?_⟩
  · rw [base, size]
    exact formed.sized
  · intro empty
    rw [base]
    exact formed.vacant (state empty)

theorem Task.stackFrames_congr (base : changed.stackBase = task.stackBase)
    (size : changed.stackSize = task.stackSize) : changed.stackFrames = task.stackFrames := by
  unfold stackFrames
  rw [base, size]

theorem Task.spawned_formed (taskId : UInt32) (priority : TaskPriority)
    (aligned : pageSize ∣ stackBase) : (spawned taskId stackBase priority).Formed :=
  ⟨fun _ => ⟨rfl, aligned⟩, nofun⟩

section

variable {memoryMap : MemoryMap} {frames after : FrameAllocator} {held : Slot → Finset Nat}
  {others : List (Finset Nat)} (ledger : Ledger memoryMap frames held others)
include ledger

/-- The stack of a new task goes to a slot that held nothing. -/
theorem Ledger.spawn (vacant : held slot = ∅)
    (allocated : frames.allocateContiguousFrames taskStackPages = (some stackBase, after))
    (taskId : UInt32) (priority : TaskPriority) :
    Ledger memoryMap after
        (Function.update held slot (spawned taskId stackBase priority).stackFrames) others ∧
      stackBase ≠ 0 ∧ pageSize ∣ stackBase ∧
      (spawned taskId stackBase priority).stackFrames =
        frameRun (stackBase / pageSize) taskStackPages ∧
      ∀ j, Disjoint (held j) (frameRun (stackBase / pageSize) taskStackPages) := by
  rcases frames.allocateContiguousFrames_cases (by decide : 0 < taskStackPages)
    ledger.coherent.bounded with ⟨start, free, _, taken⟩ | ⟨refused, _⟩
  · cases taken.symm.trans allocated
    have valid := (step_simulates ledger
      (step_allocateContiguousFrames (by decide) taken)).2
    have owned : start * pageSize ≠ 0 := by
      have positive := FrameClient.Valid.pos_of_isFree ledger (free 0 (by decide))
      unfold pageSize
      omega
    have part : (spawned taskId (start * pageSize) priority).stackFrames =
        frameRun start taskStackPages := by
      unfold stackFrames spawned Stack.frames
      dsimp only
      rw [if_neg owned, address_div]
      rfl
    rw [part, address_div]
    refine ⟨Ledger.fill vacant valid, owned, dvd_mul_left .., rfl, fun j => ?_⟩
    have apart := (List.pairwise_cons.mp valid.partition.apart).1
    exact (apart _ (List.mem_append_left _ (List.mem_map_of_mem (List.mem_finRange j)))).symm
  · cases refused.symm.trans allocated

theorem Ledger.refuse (allocated : frames.allocateContiguousFrames taskStackPages = (none, after)) :
    after = frames := by
  rcases frames.allocateContiguousFrames_cases (by decide : 0 < taskStackPages)
    ledger.coherent.bounded with ⟨_, _, _, taken⟩ | ⟨refused, _⟩
  · cases taken.symm.trans allocated
  · exact (Prod.mk.inj (refused.symm.trans allocated)).2.symm

theorem Ledger.freeTask (formed : task.Formed) (holds : held slot = task.stackFrames) :
    Ledger memoryMap
      (if task.stackBase ≠ 0 then
        SchedState.freeStack frames task.stackBase (task.stackSize / 4096)
      else frames) (Function.update held slot ∅) others := by
  unfold stackFrames at holds
  split
  next owned =>
    rw [if_neg owned] at holds
    exact ledger.clear (formed.sized owned).2 holds
  next boots =>
    rw [if_pos (not_not.mp boots)] at holds
    rw [← holds, Function.update_eq_self]
    exact ledger

end

end CantayaOS.Sched
