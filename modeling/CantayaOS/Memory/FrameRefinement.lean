import CantayaOS.Lib.Pool
import CantayaOS.Lib.Transition
import CantayaOS.Memory.FrameAllocator

/-!
# The bitmap allocator refines a pool of frames

The abstract allocator is a pool whose resources are frame numbers.  A client
calls the three allocator functions and keeps the parts it was given; a trace
lists its calls with the values they returned.  Every trace of the bitmap
allocator is a trace of the pool.
-/

namespace CantayaOS.Memory

open Lib Shared FrameAllocator Option Finset

/-- The calls a client can make: single frame, contiguous run, freeing one address. -/
inductive FrameCall where
  | allocateFrame
  | allocateContiguousFrames (count : Nat)
  | freeFrame (physicalAddr : Nat)
  deriving DecidableEq, Repr

def frameRun (start count : Nat) : Finset Nat := Finset.Ico start (start + count)

/-- What a call may return and do, stated on a pool of frames. -/
inductive PoolCall : Pool Nat → FrameCall × Option Nat → Pool Nat → Prop where
  | frame {pool : Pool Nat} (i : Nat) (available : i ∈ pool.free) :
      PoolCall pool (.allocateFrame, some (i * pageSize)) (pool.take {i})
  | noFrame {pool : Pool Nat} (exhausted : pool.free = ∅) :
      PoolCall pool (.allocateFrame, none) pool
  | run {pool : Pool Nat} (start count : Nat) (available : frameRun start count ⊆ pool.free) :
      PoolCall pool (.allocateContiguousFrames count, some (start * pageSize))
        (pool.take (frameRun start count))
  | noRun {pool : Pool Nat} (count : Nat) (absent : ∀ start, ¬ frameRun start count ⊆ pool.free) :
      PoolCall pool (.allocateContiguousFrames count, none) pool
  | free {pool : Pool Nat} (physicalAddr : Nat) (held : pool.Holds (physicalAddr / pageSize)) :
      PoolCall pool (.freeFrame physicalAddr, none) (pool.release (physicalAddr / pageSize))

inductive PoolTrace : Pool Nat → List (FrameCall × Option Nat) → Pool Nat → Prop where
  | nil (pool : Pool Nat) : PoolTrace pool [] pool
  | cons {first middle last : Pool Nat} {call : FrameCall × Option Nat}
      {rest : List (FrameCall × Option Nat)} (here : PoolCall first call middle)
      (later : PoolTrace middle rest last) : PoolTrace first (call :: rest) last

variable {call : FrameCall × Option Nat} {count frame : Nat} {memoryMap : MemoryMap}
  {result : Option Nat}

theorem PoolCall.partition {whole : Finset Nat} {first last : Pool Nat}
    (stepped : PoolCall first call last)
    (partition : first.Partition whole) : last.Partition whole := by
  cases stepped with
  | frame i available => exact partition.take (singleton_subset_iff.mpr available)
  | noFrame exhausted => exact partition
  | run start count available => exact partition.take available
  | noRun count absent => exact partition
  | free physicalAddr held => exact partition.release held

/-! ## The bitmap allocator with its client -/

/-- The allocator together with the parts its client holds. -/
structure FrameClient where
  allocator : FrameAllocator
  live : List (Finset Nat)

namespace FrameClient

variable {client next : FrameClient}

/-- The state after initialisation from a memory map. -/
def start (memoryMap : MemoryMap) : FrameClient := ⟨FrameAllocator.init memoryMap, []⟩

theorem start_allocator (memoryMap : MemoryMap) :
    (start memoryMap).allocator = FrameAllocator.init memoryMap := rfl

def pool (client : FrameClient) : Pool Nat := ⟨client.allocator.freeSet, client.live⟩

/-- The frames that a returned address of a run of `count` frames stands for. -/
def grant (count : Nat) : Option Nat → List (Finset Nat) → List (Finset Nat)
  | some address, live => frameRun (address / pageSize) count :: live
  | none, live => live

/--
One call with its returned value.  A contiguous call asks for at least one
frame, and only a frame that is currently handed out is freed.
-/
def step (client : FrameClient) : FrameCall × Option Nat → Option FrameClient
  | (.allocateFrame, result) =>
    let (returned, allocator) := client.allocator.allocateFrame
    if returned = result then some ⟨allocator, grant 1 returned client.live⟩ else none
  | (.allocateContiguousFrames count, result) =>
    if 1 ≤ count then
      let (returned, allocator) := client.allocator.allocateContiguousFrames count
      if returned = result then some ⟨allocator, grant count returned client.live⟩ else none
    else none
  | (.freeFrame physicalAddr, result) =>
    if (∃ part ∈ client.live, physicalAddr / pageSize ∈ part) ∧ result = none then
      some ⟨client.allocator.freeFrame physicalAddr,
        client.live.map fun part => part.erase (physicalAddr / pageSize)⟩
    else none

/-- The bitmap is coherent and partitions the initially free frames with the live parts. -/
structure Valid (memoryMap : MemoryMap) (client : FrameClient) : Prop where
  coherent : client.allocator.Coherent
  tracked : client.allocator.totalFrames = (FrameAllocator.init memoryMap).totalFrames
  partition : client.pool.Partition (FrameAllocator.init memoryMap).freeSet

theorem start_valid (memoryMap : MemoryMap) : Valid memoryMap (start memoryMap) :=
  ⟨(init_spec memoryMap).1, rfl, Pool.partition_initial _⟩

theorem frameRun_one (i : Nat) : frameRun i 1 = {i} := by
  ext j
  simp only [frameRun, Finset.mem_Ico, Finset.mem_singleton]
  omega

theorem frameRun_subset_iff {fa : FrameAllocator} {start : Nat} :
    frameRun start count ⊆ fa.freeSet ↔ fa.FreeRun start count := by
  constructor
  · intro inside offset bound
    apply mem_freeSet.mp
    apply inside
    rw [frameRun, Finset.mem_Ico]
    omega
  · intro free i member
    rw [frameRun, Finset.mem_Ico] at member
    rw [mem_freeSet]
    have shape : i = start + (i - start) := by omega
    rw [shape]
    exact free (i - start) (by omega)

theorem freeSet_markRun (fa : FrameAllocator) (start count : Nat) :
    (fa.markRun start count).freeSet = fa.freeSet \ frameRun start count := by
  ext j
  rw [mem_freeSet, isFree_markRun, Finset.mem_sdiff, mem_freeSet, frameRun, Finset.mem_Ico]
  simp only [Bool.and_eq_true, Bool.not_eq_true', decide_eq_false_iff_not]

theorem freeSet_takeFrame (fa : FrameAllocator) (i : Nat) :
    (fa.takeFrame i).2.freeSet = fa.freeSet \ {i} := by
  ext j
  rw [mem_freeSet, isFree_takeFrame, Finset.mem_sdiff]
  simp

theorem address_div (i : Nat) : i * pageSize / pageSize = i :=
  Nat.mul_div_cancel i (by decide)

/-- A call of the pool, with what the allocator keeps. -/
abbrev Simulates (client : FrameClient) (call : FrameCall × Option Nat) (next : FrameClient) : Prop :=
  PoolCall client.pool call next.pool ∧ next.allocator.Coherent ∧
    next.allocator.totalFrames = client.allocator.totalFrames

section

variable (valid : Valid memoryMap client)
include valid

/-- Simulation of the single-frame call. -/
theorem allocateFrame_simulates (stepped : client.step (.allocateFrame, result) = some next) :
    client.Simulates (.allocateFrame, result) next := by
  simp only [step, ite_none_right_eq_some, some.injEq] at stepped
  obtain ⟨rfl, rfl⟩ := stepped
  rcases client.allocator.allocateFrame_cases with ⟨i, free, taken⟩ | ⟨refused, busy⟩
  · rw [taken]
    refine ⟨?_, valid.coherent.takeFrame i, ?_⟩
    · have call : PoolCall client.pool _ (client.pool.take {i}) :=
        PoolCall.frame i (mem_freeSet.mpr free)
      have granted : client.pool.take {i} = FrameClient.pool
          ⟨(client.allocator.takeFrame i).2, grant 1 (some (i * pageSize)) client.live⟩ := by
        simp only [pool, Pool.take, grant, address_div, frameRun_one, freeSet_takeFrame]
      rw [granted] at call
      exact call
    · exact totalFrames_markAllocated _ _
  · rw [refused]
    refine ⟨PoolCall.noFrame ?_, valid.coherent, rfl⟩
    apply Finset.eq_empty_of_forall_notMem
    intro i member
    have free := mem_freeSet.mp member
    rw [busy i (valid.coherent.bounded i free)] at free
    cases free

/-- Simulation of the contiguous call. -/
theorem allocateContiguousFrames_simulates
    (stepped : client.step (.allocateContiguousFrames count, result) = some next) :
    client.Simulates (.allocateContiguousFrames count, result) next := by
  simp only [step, ite_none_right_eq_some, some.injEq] at stepped
  obtain ⟨positive, rfl, rfl⟩ := stepped
  rcases client.allocator.allocateContiguousFrames_cases positive valid.coherent.bounded with
    ⟨first, free, _, taken⟩ | ⟨refused, absent⟩
  · rw [taken]
    refine ⟨?_, valid.coherent.markRun first count, ?_⟩
    · have call : PoolCall client.pool _ (client.pool.take (frameRun first count)) :=
        PoolCall.run first count (frameRun_subset_iff.mpr free)
      have granted : client.pool.take (frameRun first count) = FrameClient.pool
          ⟨client.allocator.markRun first count,
            grant count (some (first * pageSize)) client.live⟩ := by
        simp only [pool, Pool.take, grant, address_div, freeSet_markRun]
      rw [granted] at call
      exact call
    · exact totalFrames_markRun _ _ _
  · rw [refused]
    refine ⟨PoolCall.noRun count ?_, valid.coherent, rfl⟩
    intro first inside
    exact absent first (frameRun_subset_iff.mp inside)

/-- Simulation of freeing: a handed-out frame was free at the start, hence tracked. -/
theorem freeFrame_simulates {physicalAddr : Nat}
    (stepped : client.step (.freeFrame physicalAddr, result) = some next) :
    client.Simulates (.freeFrame physicalAddr, result) next := by
  simp only [step, ite_none_right_eq_some, some.injEq] at stepped
  obtain ⟨⟨⟨part, member, inside⟩, rfl⟩, rfl⟩ := stepped
  have initially := valid.partition.live_subset member inside
  have free := mem_freeSet.mp initially
  have tracked : physicalAddr / pageSize < client.allocator.totalFrames := by
    rw [valid.tracked]
    exact (init_spec memoryMap).1.bounded _ free
  refine ⟨?_, valid.coherent.freeFrame tracked, totalFrames_freeFrame _ _⟩
  have call : PoolCall client.pool _ (client.pool.release (physicalAddr / pageSize)) :=
    PoolCall.free physicalAddr ⟨part, member, inside⟩
  simpa only [pool, Pool.release, freeSet_freeFrame _ (isFree_lt free)] using call

/-- One call of the bitmap allocator is one call of the pool, and validity is kept. -/
theorem step_simulates (stepped : client.step call = some next) :
    PoolCall client.pool call next.pool ∧ Valid memoryMap next := by
  have simulated : client.Simulates call next := by
    obtain ⟨call, result⟩ := call
    cases call with
    | allocateFrame => exact allocateFrame_simulates valid stepped
    | allocateContiguousFrames count => exact allocateContiguousFrames_simulates valid stepped
    | freeFrame physicalAddr => exact freeFrame_simulates valid stepped
  obtain ⟨abstract, coherent, tracked⟩ := simulated
  exact ⟨abstract, coherent, tracked.trans valid.tracked, abstract.partition valid.partition⟩

end

theorem Valid.perm {allocator : FrameAllocator}
    {live live' : List (Finset Nat)} (valid : Valid memoryMap ⟨allocator, live⟩)
    (same : live.Perm live') : Valid memoryMap ⟨allocator, live'⟩ :=
  ⟨valid.coherent, valid.tracked, Pool.Partition.perm valid.partition same⟩

/-- A call of one client is a call of all clients together; parts of the others stay whole. -/
theorem step_beside {allocator : FrameAllocator} {live parts : List (Finset Nat)}
    (valid : Valid memoryMap ⟨allocator, live ++ parts⟩)
    (stepped : step ⟨allocator, live⟩ call = some next) :
    step ⟨allocator, live ++ parts⟩ call = some ⟨next.allocator, next.live ++ parts⟩ := by
  obtain ⟨call, result⟩ := call
  cases call with
  | allocateFrame =>
    simp only [step, ite_none_right_eq_some, some.injEq] at stepped ⊢
    obtain ⟨same, rfl⟩ := stepped
    refine ⟨same, ?_⟩
    cases (allocator.allocateFrame).1 <;> rfl
  | allocateContiguousFrames count =>
    simp only [step, ite_none_right_eq_some, some.injEq] at stepped ⊢
    obtain ⟨positive, same, rfl⟩ := stepped
    refine ⟨positive, same, ?_⟩
    cases (allocator.allocateContiguousFrames count).1 <;> rfl
  | freeFrame physicalAddr =>
    simp only [step, ite_none_right_eq_some, some.injEq] at stepped ⊢
    obtain ⟨⟨⟨part, member, inside⟩, same⟩, rfl⟩ := stepped
    have kept : parts.map (fun other => other.erase (physicalAddr / pageSize)) = parts := by
      have apart := (List.pairwise_append.mp valid.partition.apart).2.2
      have same : ∀ other ∈ parts, other.erase (physicalAddr / pageSize) = id other := by
        intro other beside
        exact erase_eq_of_notMem (disjoint_left.mp (apart part member other beside) inside)
      rw [List.map_congr_left same, List.map_id]
    refine ⟨⟨⟨part, List.mem_append_left _ member, inside⟩, same⟩, ?_⟩
    rw [List.map_append, kept]

/-- Every trace of the bitmap allocator is a trace of the pool, and validity is kept. -/
theorem run_simulates {trace : List (FrameCall × Option Nat)} {last : FrameClient}
    (valid : Valid memoryMap client) (reached : Transition.run step client trace = some last) :
    PoolTrace client.pool trace last.pool ∧ Valid memoryMap last := by
  induction trace generalizing client with
  | nil =>
    cases reached
    exact ⟨.nil _, valid⟩
  | cons call rest ih =>
    obtain ⟨next, stepped, later⟩ := Transition.run_cons_eq_some reached
    obtain ⟨here, nextValid⟩ := step_simulates valid stepped
    obtain ⟨abstract, lastValid⟩ := ih nextValid later
    exact ⟨.cons here abstract, lastValid⟩

theorem step_allocateFrame
    (taken : client.allocator.allocateFrame = client.allocator.takeFrame frame) :
    client.step (.allocateFrame, some (frame * pageSize)) =
      some ⟨(client.allocator.takeFrame frame).2, frameRun frame 1 :: client.live⟩ := by
  simp [step, taken, takeFrame, grant, address_div]

theorem step_allocateContiguousFrames {start : Nat} (positive : 1 ≤ count)
    (taken : client.allocator.allocateContiguousFrames count =
      (some (start * pageSize), client.allocator.markRun start count)) :
    client.step (.allocateContiguousFrames count, some (start * pageSize)) =
      some ⟨client.allocator.markRun start count, frameRun start count :: client.live⟩ := by
  simp [step, taken, positive, grant, address_div]

/-- Frame 0 is never free: initialisation skips the first mebibyte. -/
theorem Valid.pos_of_isFree (valid : Valid memoryMap client)
    (free : client.allocator.isFree frame = true) : 0 < frame := by
  have initially := (valid.partition.covers frame).mpr (.inl (mem_freeSet.mpr free))
  obtain ⟨_, region, _, frees⟩ := ((init_spec memoryMap).2 frame).mp
    (mem_freeSet.mp initially)
  have low := frees.2.1
  have first := frees.2.2.1
  rw [UInt64.lt_iff_toNat_lt] at low
  have bound : (0x100000 : UInt64).toNat = 0x100000 := rfl
  unfold pageSize at first
  omega

/-- Every free frame is returned after enough single-frame calls. -/
theorem exists_run_returning (valid : Valid memoryMap client)
    (free : client.allocator.isFree frame = true) :
    ∃ trace last, Transition.run step client trace = some last ∧
      last.allocator.allocateFrame.1 = some (frame * pageSize) := by
  -- Each call takes one frame, so the number of free frames bounds how long the frame is left.
  induction counted : client.allocator.freeSet.card using Nat.strong_induction_on
    generalizing client with
  | _ count ih =>
    rcases client.allocator.allocateFrame_cases with ⟨other, otherFree, taken⟩ | ⟨_, busy⟩
    · by_cases same : other = frame
      · refine ⟨[], client, rfl, ?_⟩
        rw [taken, same]
        rfl
      · have stepped := step_allocateFrame taken
        have nextValid := (step_simulates valid stepped).2
        have nextFree : (client.allocator.takeFrame other).2.isFree frame = true := by
          rw [isFree_takeFrame, free]
          simpa using Ne.symm same
        have fewer : (client.allocator.takeFrame other).2.freeSet.card < count := by
          rw [freeSet_takeFrame, ← counted]
          apply card_lt_card
          exact sdiff_ssubset (by simpa using otherFree) (singleton_nonempty _)
        obtain ⟨trace, last, ran, returned⟩ := ih _ fewer nextValid nextFree rfl
        refine ⟨(.allocateFrame, some (other * pageSize)) :: trace, last, ?_, returned⟩
        simp only [Transition.run, stepped]
        exact ran
    · rw [busy frame (valid.coherent.bounded frame free)] at free
      cases free

end FrameClient

/--
Refinement of the frame allocator.  Whatever the memory map and whatever calls
follow initialisation, the trace is one of the abstract pool started with the
frames that initialisation freed; live allocations are pairwise disjoint and
inside those frames, the counter is the number of clear bits, and live frames
plus free frames is constant.
-/
theorem frameAllocator_refines_pool (memoryMap : MemoryMap)
    (trace : List (FrameCall × Option Nat)) (client : FrameClient)
    (reached : Transition.run FrameClient.step (FrameClient.start memoryMap) trace = some client) :
    PoolTrace ⟨(FrameAllocator.init memoryMap).freeSet, []⟩ trace
        ⟨client.allocator.freeSet, client.live⟩ ∧
      client.live.Pairwise Disjoint ∧
      (∀ part ∈ client.live, part ⊆ (FrameAllocator.init memoryMap).freeSet) ∧
      client.allocator.freeFrames = client.allocator.freeSet.card ∧
      (client.live.map Finset.card).sum + client.allocator.freeFrames =
        (FrameAllocator.init memoryMap).freeFrames := by
  obtain ⟨abstract, valid⟩ := FrameClient.run_simulates (FrameClient.start_valid memoryMap) reached
  have total := valid.partition.card
  have counted := (init_spec memoryMap).1.counted
  refine ⟨abstract, valid.partition.apart, ?_, valid.coherent.counted, ?_⟩
  · intro part member
    exact valid.partition.live_subset member
  · rw [counted, valid.coherent.counted]
    exact total

/-! ## The lowest free frame -/

namespace FrameAllocator

variable {fa : FrameAllocator}

def plainScan (fa : FrameAllocator) : Option Nat := (List.range fa.totalFrames).find? fa.isFree

def Hinted (fa : FrameAllocator) : Prop := ∀ i < fa.nextFreeHint, fa.isFree i = false

/-- Nothing is found below the hint, so the search from the hint on is the plain one. -/
theorem Hinted.allocateFrame_eq (hinted : fa.Hinted) :
    fa.allocateFrame = match fa.plainScan with
      | some i => fa.takeFrame i
      | none => (none, fa) := by
  have nothing {n : Nat} (low : n ≤ fa.nextFreeHint) : (List.range n).find? fa.isFree = none := by
    rw [List.find?_eq_none]
    intro i member
    rw [hinted i (lt_of_lt_of_le (List.mem_range.mp member) low)]
    exact Bool.false_ne_true
  unfold allocateFrame plainScan
  dsimp only
  rw [nothing le_rfl]
  by_cases inside : fa.nextFreeHint ≤ fa.totalFrames
  · have split := @List.range'_append_1 0 fa.nextFreeHint (fa.totalFrames - fa.nextFreeHint)
    rw [zero_add, Nat.add_sub_of_le inside, ← List.range_eq_range', ← List.range_eq_range']
      at split
    rw [← split, List.find?_append, nothing le_rfl]
    rfl
  · rw [nothing (Nat.le_of_not_le inside), Nat.sub_eq_zero_of_le (Nat.le_of_not_le inside)]
    rfl

theorem plainScan_eq_some {i : Nat} (found : fa.plainScan = some i) :
    fa.isFree i = true ∧ ∀ lower < i, fa.isFree lower = false := by
  obtain ⟨free, _, lowest⟩ := List.find?_range_eq_some.mp found
  exact ⟨free, fun lower below => by simpa using lowest lower below⟩

variable (fa)

@[simp] theorem nextFreeHint_markAllocated (i : Nat) :
    (fa.markAllocated i).nextFreeHint = fa.nextFreeHint := by
  unfold markAllocated
  split
  · rfl
  · dsimp only
    split <;> rfl

theorem nextFreeHint_markFree (i : Nat) : (fa.markFree i).nextFreeHint = fa.nextFreeHint := by
  unfold markFree
  split
  · rfl
  · dsimp only
    split <;> rfl

@[simp] theorem nextFreeHint_markRun (start count : Nat) :
    (fa.markRun start count).nextFreeHint = fa.nextFreeHint := by
  induction count with
  | zero => rfl
  | succ count ih => rw [markRun_succ, nextFreeHint_markAllocated, ih]

variable {fa}

theorem Hinted.markRun (hinted : fa.Hinted) (start count : Nat) : (fa.markRun start count).Hinted := by
  intro i below
  rw [nextFreeHint_markRun] at below
  rw [isFree_markRun, hinted i below, Bool.false_and]

theorem Hinted.allocateFrame (hinted : fa.Hinted) : fa.allocateFrame.2.Hinted := by
  rw [hinted.allocateFrame_eq]
  cases found : fa.plainScan with
  | none => exact hinted
  | some i =>
    intro lower below
    rw [isFree_takeFrame]
    rcases Nat.lt_succ_iff_lt_or_eq.mp below with less | rfl
    · rw [(plainScan_eq_some found).2 lower less, Bool.false_and]
    · simp

/-- Freeing pulls the hint back to the frame if the frame lies below it. -/
theorem Hinted.freeFrame (hinted : fa.Hinted) (addr : Nat) : (fa.freeFrame addr).Hinted := by
  have hint := fa.nextFreeHint_markFree (addr / pageSize)
  intro i below
  have low : i < fa.nextFreeHint ∧ i ≠ addr / pageSize := by
    unfold FrameAllocator.freeFrame at below
    dsimp only at below
    split at below
    · next less =>
      dsimp only at below
      omega
    · omega
  rw [isFree_freeFrame, isFree_markFree, hinted i low.1, decide_eq_false low.2]
  rfl

theorem init_hinted (memoryMap : MemoryMap) : (init memoryMap).Hinted := by
  have region {fa : FrameAllocator} (zero : fa.nextFreeHint = 0) (region : MemoryRegion) :
      (fa.initRegion region).nextFreeHint = 0 := by
    unfold initRegion
    split
    · exact zero
    split
    · exact zero
    refine List.foldlRecOn (motive := (nextFreeHint · = 0)) _ _ zero fun fa zero frame _ => ?_
    unfold initFrame
    dsimp only
    split
    · split <;> exact (fa.nextFreeHint_markFree frame).trans zero
    · exact zero
  have zero : (init memoryMap).nextFreeHint = 0 :=
    List.foldlRecOn (motive := (nextFreeHint · = 0)) _ _ rfl fun _ zero usable _ =>
      region zero usable
  intro i below
  rw [zero] at below
  exact absurd below i.not_lt_zero

theorem allocateContiguousFrames_zero (fa : FrameAllocator) :
    (fa.allocateContiguousFrames 0).2 = fa := by
  unfold allocateContiguousFrames
  cases List.range fa.totalFrames with
  | nil => rfl
  | cons start rest =>
    rw [contiguousFrom]
    split <;> rfl

end FrameAllocator

/-- The bitmap is valid and no frame below the hint is free. -/
structure FrameClient.Searched (memoryMap : MemoryMap) (client : FrameClient) : Prop extends
    Valid memoryMap client where
  hinted : client.allocator.Hinted

theorem FrameClient.step_searched {client next : FrameClient} (inv : Searched memoryMap client)
    (stepped : client.step call = some next) : Searched memoryMap next := by
  obtain ⟨valid, hinted⟩ := inv
  refine ⟨(step_simulates valid stepped).2, ?_⟩
  obtain ⟨call, result⟩ := call
  cases call with
  | allocateFrame =>
    simp only [step, ite_none_right_eq_some, some.injEq] at stepped
    obtain ⟨-, rfl⟩ := stepped
    exact hinted.allocateFrame
  | allocateContiguousFrames count =>
    simp only [step, ite_none_right_eq_some, some.injEq] at stepped
    obtain ⟨positive, -, rfl⟩ := stepped
    rcases client.allocator.allocateContiguousFrames_cases positive valid.coherent.bounded with
      ⟨first, _, _, taken⟩ | ⟨refused, _⟩
    · rw [taken]
      exact hinted.markRun first count
    · rw [refused]
      exact hinted
  | freeFrame physicalAddr =>
    simp only [step, ite_none_right_eq_some, some.injEq] at stepped
    obtain ⟨-, rfl⟩ := stepped
    exact hinted.freeFrame physicalAddr

/--
In every state that the allocator reaches while only frames that are handed out
are freed, the search from the hint returns what the plain scan returns: the
lowest free frame, and nothing exactly if no frame is free.  A contiguous call
for no frames, which a run leaves out, would not change the state.
-/
theorem allocateFrame_lowest (memoryMap : MemoryMap) (trace : List (FrameCall × Option Nat))
    (client : FrameClient)
    (reached : Transition.run FrameClient.step (FrameClient.start memoryMap) trace = some client) :
    client.allocator.allocateFrame.1 = client.allocator.plainScan.map (· * pageSize) ∧
      (∀ i, client.allocator.allocateFrame.1 = some (i * pageSize) ↔
        client.allocator.isFree i = true ∧ ∀ lower < i, client.allocator.isFree lower = false) ∧
      (client.allocator.allocateFrame.1 = none ↔ ∀ i, client.allocator.isFree i = false) ∧
      (client.allocator.allocateContiguousFrames 0).2 = client.allocator := by
  obtain ⟨valid, hinted⟩ : FrameClient.Searched memoryMap client :=
    Transition.run_invariant (fun _ _ _ => FrameClient.step_searched)
      ⟨FrameClient.start_valid memoryMap, init_hinted memoryMap⟩ reached
  have same : client.allocator.allocateFrame.1 = client.allocator.plainScan.map (· * pageSize) := by
    rw [hinted.allocateFrame_eq]
    cases client.allocator.plainScan <;> rfl
  refine ⟨same, fun i => ?_, ?_, client.allocator.allocateContiguousFrames_zero⟩
  · rw [same, map_eq_some_iff]
    constructor
    · rintro ⟨found, scanned, equal⟩
      cases Nat.eq_of_mul_eq_mul_right (by decide) equal
      exact plainScan_eq_some scanned
    · rintro ⟨free, lowest⟩
      refine ⟨i, List.find?_range_eq_some.mpr ⟨free, ?_, fun lower below => ?_⟩, rfl⟩
      · exact List.mem_range.mpr (valid.coherent.bounded i free)
      · rw [lowest lower below]
        rfl
  · rw [same, map_eq_none_iff, plainScan, List.find?_range_eq_none]
    constructor
    · intro absent i
      by_cases tracked : i < client.allocator.totalFrames
      · simpa using absent i tracked
      · exact Bool.eq_false_iff.mpr (mt (valid.coherent.bounded i) tracked)
    · intro absent i _
      rw [absent i]
      rfl

/-- A map with four usable frames from 1 MiB on. -/
def fourFrameMap : MemoryMap := ⟨[⟨0x100000, 0x4000, .usable⟩], by decide⟩

/-- Taking a frame and a run of two, then freeing the frame, is such a trace. -/
theorem frameAllocator_refines_pool_fourFrames :
    ∃ client, Transition.run FrameClient.step (FrameClient.start fourFrameMap)
        [(.allocateFrame, some 0x100000), (.allocateContiguousFrames 2, some 0x101000),
          (.freeFrame 0x100000, none)] = some client ∧
      (client.live.map Finset.card).sum + client.allocator.freeFrames =
        (FrameAllocator.init fourFrameMap).freeFrames := by
  refine ⟨_, (some_get (by decide +kernel)).symm, ?_⟩
  exact (frameAllocator_refines_pool _ _ _ (some_get _).symm).2.2.2.2

/-- After taking three frames and freeing the second one, the second one is returned again. -/
theorem allocateFrame_lowest_fourFrames :
    ∃ client, Transition.run FrameClient.step (FrameClient.start fourFrameMap)
        [(.allocateFrame, some 0x100000), (.allocateContiguousFrames 2, some 0x101000),
          (.freeFrame 0x101000, none)] = some client ∧
      client.allocator.isFree 0x101 = true ∧
      client.allocator.allocateFrame.1 = client.allocator.plainScan.map (· * pageSize) := by
  refine ⟨_, (some_get (by decide +kernel)).symm, by decide +kernel, ?_⟩
  exact (allocateFrame_lowest _ _ _ (some_get _).symm).1

end CantayaOS.Memory
