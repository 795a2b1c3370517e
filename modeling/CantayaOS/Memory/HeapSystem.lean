import CantayaOS.Memory.FrameRefinement
import CantayaOS.Memory.HeapInvariant

/-!
# Runs of the heap

The heap serves allocations and deallocations while its callers write to the
memory they were given and other parts of the kernel use the same frame
allocator.  The invariant below holds in every run that never frees a pointer
which alignment padding separates from the start of its block.
-/

namespace CantayaOS.Memory

open Lib Shared FrameAllocator Span HeapMachine FreeBlock Segment List Option

/-- A live allocation: its pointer, its layout and the start of the block it was carved from. -/
structure Allocation where
  ptr : Nat
  layout : Layout
  block : Nat

namespace Allocation

def payload (a : Allocation) : Span := ⟨a.ptr, a.layout.size⟩

def storedSize (memory : Words) (a : Allocation) : Nat := memory (a.ptr - HeapMachine.headerSize)

/-- The block that was handed out: it starts where it was carved. -/
def span (memory : Words) (a : Allocation) : Span := ⟨a.block, a.storedSize memory⟩

/-- The block that deallocation will return: it starts at the header. -/
def headerBlock (memory : Words) (a : Allocation) : Span :=
  ⟨a.ptr - HeapMachine.headerSize, a.storedSize memory⟩

/-- The pointer follows the start of its block without padding. -/
def Unpadded (a : Allocation) : Prop := a.ptr = a.block + HeapMachine.headerSize

instance (a : Allocation) : Decidable a.Unpadded := inferInstanceAs (Decidable (_ = _))

end Allocation

/-- The heap, its live allocations, and the frames that other kernel code holds. -/
structure HeapSystem where
  machine : HeapMachine
  live : List Allocation
  others : List (Finset Nat)

/--
What can happen: allocation, deallocation of a live pointer, a store by kernel
code, and a frame allocator call of other kernel code.  The fuel bounds the
walks over the free list.
-/
inductive HeapEvent where
  | alloc (layout : Layout) (fuel : Nat)
  | dealloc (ptr fuel : Nat)
  | store (addr value : Nat)
  | frames (call : FrameCall × Option Nat)

/-- The block is reached from `head` by following next pointers. -/
inductive OnFreeList (memory : Words) : Option Nat → Nat → Prop where
  | here (block : Nat) : OnFreeList memory (some block) block
  | next {first block : Nat} (later : OnFreeList memory (FreeBlock.next memory first) block) :
      OnFreeList memory (some first) block

variable {memory before after : Words} {a : Allocation} {live : List Allocation} {free : List Span}
  {fuel : Nat} {layout : Layout} {next : HeapSystem}

namespace HeapSystem

/-- Frame allocator and heap are initialised from the memory map. -/
def start (memory : Words) (memoryMap : MemoryMap) : Option HeapSystem :=
  (HeapMachine.boot memory (FrameAllocator.init memoryMap)).map fun machine => ⟨machine, [], []⟩

/-- Kernel code writes words of live payloads and words outside the heap. -/
def Writable (system : HeapSystem) (addr : Nat) : Prop :=
  8 ∣ addr ∧ ((∃ a ∈ system.live, a.payload.Contains addr) ∨
    ∀ region ∈ system.machine.regions, ¬ region.Contains addr)

instance (system : HeapSystem) (addr : Nat) : Decidable (system.Writable addr) :=
  inferInstanceAs (Decidable (_ ∧ _))

/-- The live allocations after an allocation with the given result. -/
def grant (layout : Layout) : Option Placement → List Allocation → List Allocation
  | some placement, live => ⟨placement.ptr, layout, placement.block⟩ :: live
  | none, live => live

/-- One event; `none` when it cannot happen or its fuel is too small. -/
def step (system : HeapSystem) : HeapEvent → Option HeapSystem
  | .alloc layout fuel =>
    (system.machine.allocate fuel layout).map fun (placement, machine) =>
      { system with machine := machine, live := grant layout placement system.live }
  | .dealloc ptr fuel =>
    if ∃ a ∈ system.live, a.ptr = ptr then
      (system.machine.deallocate fuel ptr).map fun machine =>
        { system with machine := machine, live := system.live.eraseP (·.ptr = ptr) }
    else none
  | .store addr value =>
    if system.Writable addr then
      some { system with
        machine := { system.machine with
          memory := Function.update system.machine.memory addr value } }
    else none
  | .frames call =>
    (FrameClient.step ⟨system.machine.frames, system.others⟩ call).map fun client =>
      { system with
        machine := { system.machine with frames := client.allocator }
        others := client.live }

/--
Payloads are aligned as requested, pairwise disjoint, inside memory the heap
owns and disjoint from every block on the free list.
-/
structure Safe (system : HeapSystem) : Prop where
  aligned : ∀ a ∈ system.live, a.layout.align ∣ a.ptr
  disjoint : system.live.Pairwise fun a b => a.payload.Apart b.payload
  owned : ∀ a ∈ system.live, ∀ x, a.payload.Contains x →
    ∃ region ∈ system.machine.regions, region.Contains x
  notFree : ∀ a ∈ system.live, ∀ block,
    OnFreeList system.machine.memory system.machine.heap.freeList block →
    a.payload.Apart ⟨block, FreeBlock.size system.machine.memory block⟩

/-- Only pointers that follow the start of their block without padding are freed. -/
def FreesUnpadded (system : HeapSystem) : HeapEvent → Prop
  | .dealloc ptr _ => ∀ a ∈ system.live, a.ptr = ptr → a.Unpadded
  | _ => True

instance (system : HeapSystem) : ∀ event, Decidable (system.FreesUnpadded event)
  | .dealloc _ _ => inferInstanceAs (Decidable (∀ _ ∈ _, _))
  | .alloc _ _ | .store _ _ | .frames _ => isTrue trivial

def regionFrames (region : Span) : Finset Nat :=
  frameRun (region.base / pageSize) (region.size / pageSize)

/-- The pointer is aligned and its header and payload lie in the block that was handed out. -/
structure Placed (memory : Words) (a : Allocation) : Prop where
  header : a.block + HeapMachine.headerSize ≤ a.ptr
  room : a.ptr + max a.layout.size FreeBlock.minSize ≤ (a.span memory).stop
  aligned : a.layout.align ∣ a.ptr

structure Invariant (memoryMap : MemoryMap) (system : HeapSystem) : Prop where
  sound : ∃ free, system.machine.Sound free (system.live.map (Allocation.span system.machine.memory))
  placed : ∀ a ∈ system.live, Placed system.machine.memory a
  frames : FrameClient.Valid memoryMap
    ⟨system.machine.frames, system.others ++ system.machine.regions.map regionFrames⟩
  paged : ∀ region ∈ system.machine.regions, pageSize ∣ region.base ∧ pageSize ∣ region.size
  total : system.machine.heap.totalSize = (system.machine.regions.map Span.size).sum

theorem mem_regionFrames {region : Span} (paged : pageSize ∣ region.base ∧ pageSize ∣ region.size)
    {x : Nat} (inside : region.Contains x) : x / pageSize ∈ regionFrames region := by
  obtain ⟨⟨first, base⟩, count, size⟩ := paged
  unfold Span.Contains Span.stop at inside
  unfold regionFrames frameRun pageSize at *
  rw [Finset.mem_Ico]
  omega

/-- Frames that the allocator hands out are new to the heap. -/
theorem Invariant.supplied {memoryMap : MemoryMap} {system : HeapSystem}
    (invariant : Invariant memoryMap system) : system.machine.Supplied := by
  intro pages addr frames positive given
  have bounded := invariant.frames.coherent.bounded
  rcases system.machine.frames.allocateContiguousFrames_cases positive bounded with
    ⟨start, free, _, taken⟩ | ⟨refused, _⟩
  · rw [given] at taken
    obtain rfl : addr = start * pageSize := Option.some.inj (congrArg Prod.fst taken)
    have last := isFree_lt (free (pages - 1) (by omega))
    unfold maxFrames at last
    refine ⟨Nat.dvd_mul_left_of_dvd (by decide) start, by unfold pageSize at *; omega, ?_⟩
    intro x inside
    by_contra covered
    obtain ⟨region, member, owned⟩ := exists_of_cover_pos (pos_of_ne_zero covered)
    have held := mem_regionFrames (invariant.paged region member) owned
    have fresh := invariant.frames.partition.fresh (regionFrames region)
      (mem_append_right _ (List.mem_map_of_mem member))
    apply Finset.disjoint_left.mp fresh held
    simp only [Span.Contains, Span.stop] at inside
    have offset : x / pageSize = start + (x / pageSize - start) := by
      unfold pageSize at *
      omega
    rw [FrameClient.pool, mem_freeSet, offset]
    apply free
    unfold pageSize at *
    omega
  · rw [given] at refused
    cases congrArg Prod.fst refused

theorem Placed.header_inside (placed : Placed memory a) :
    (a.span memory).Contains (a.ptr - headerSize) := by
  have header := placed.header
  have room := placed.room
  unfold headerSize minSize at *
  exact ⟨by simp only [Allocation.span]; omega, by omega⟩

theorem Placed.payload_inside (placed : Placed memory a) {x : Nat}
    (inside : a.payload.Contains x) : (a.span memory).Contains x := by
  have header := placed.header
  have room := placed.room
  unfold Span.Contains at *
  simp only [Allocation.payload, Allocation.span, Span.stop] at *
  omega

theorem span_congr (same : after (a.ptr - headerSize) = before (a.ptr - headerSize)) :
    a.span after = a.span before := by
  unfold Allocation.span Allocation.storedSize
  rw [same]

theorem Placed.congr (placed : Placed before a)
    (same : after (a.ptr - headerSize) = before (a.ptr - headerSize)) : Placed after a := by
  refine ⟨placed.header, ?_, placed.aligned⟩
  rw [span_congr same]
  exact placed.room

theorem spans_congr
    (same : ∀ a ∈ live,
      after (a.ptr - headerSize) = before (a.ptr - headerSize)) :
    live.map (Allocation.span after) = live.map (Allocation.span before) :=
  map_congr_left fun a member => span_congr (same a member)

theorem header_outside {machine : HeapMachine}
    (sound : machine.Sound free (live.map (Allocation.span machine.memory)))
    (placed : ∀ a ∈ live, Placed machine.memory a) (member : a ∈ live) :
    Span.cover free (a.ptr - headerSize) = 0 :=
  sound.outside_of_used (List.mem_map_of_mem member) (placed a member).header_inside

theorem spans_apart {machine : HeapMachine}
    (sound : machine.Sound free (live.map (Allocation.span machine.memory))) {b : Allocation}
    (first : a ∈ live) (second : b ∈ live) (different : a ≠ b) :
    (a.span machine.memory).Apart (b.span machine.memory) := by
  exact (pairwise_map.mp sound.used_apart).forall first second different

/-! ## Every step keeps the invariant -/

variable {memoryMap : MemoryMap} {system : HeapSystem}

section

variable (invariant : Invariant memoryMap system)
include invariant

theorem Invariant.tryAllocate {result : Option Placement} {next : HeapMachine}
    (ran : system.machine.tryAllocate fuel layout = some (result, next)) :
    Invariant memoryMap
      { system with machine := next, live := grant layout result system.live } := by
  obtain ⟨free, sound⟩ := invariant.sound
  rcases tryAllocate_spec sound ran with
    ⟨rfl, rfl, _⟩ | ⟨pre, block, post, rfl, served⟩
  · exact invariant
  have kept := fun a member =>
    served.frame _ (header_outside sound invariant.placed (a := a) member)
  have low := served.low
  have same := served.holdings
  refine ⟨⟨HeapMachine.leftover layout block ++ (pre ++ post), ?_⟩, ?_, ?_, ?_, ?_⟩
  · simp only [grant, map_cons]
    rw [spans_congr kept]
    simpa only [Allocation.span, Allocation.storedSize, served.stored] using served.sound
  · refine forall_mem_cons.mpr
      ⟨⟨(alignedStart_spec low).1, ?_, (alignedStart_spec low).2.2⟩, ?_⟩
    · have needed : _ ≤ totalNeeded layout block.base :=
        le_totalNeeded low
      have large := served.large
      simp only [Allocation.span, Allocation.storedSize, served.stored, Span.stop]
      omega
    · intro a member
      exact (invariant.placed a member).congr (kept a member)
  · simp only [same.frames, same.regions]
    exact invariant.frames
  · simp only [same.regions]
    exact invariant.paged
  · simp only [same.totalSize, same.regions]
    exact invariant.total

theorem Invariant.grow {minBytes : Nat} {grown : Bool} {next : HeapMachine}
    (ran : system.machine.grow fuel minBytes = some (grown, next)) :
    Invariant memoryMap { system with machine := next } := by
  obtain ⟨free, sound⟩ := invariant.sound
  have positive := growPages_pos minBytes
  rcases grow_spec sound invariant.supplied ran with
    ⟨_, frames, refused, rfl⟩ | ⟨_, addr, given, regions, total, _, sound', frame⟩
  · have stepped : FrameClient.step
        ⟨system.machine.frames, system.others ++ system.machine.regions.map regionFrames⟩
        (.allocateContiguousFrames (growPages minBytes), none) =
          some ⟨frames, system.others ++ system.machine.regions.map regionFrames⟩ := by
      simp [FrameClient.step, refused, FrameClient.grant, Nat.succ_le_of_lt positive]
    exact ⟨⟨free, sound.chain, sound.tiling⟩, invariant.placed,
      (FrameClient.step_simulates invariant.frames stepped).2, invariant.paged, invariant.total⟩
  · have aligned : pageSize ∣ addr := by
      rcases system.machine.frames.allocateContiguousFrames_cases positive
          invariant.frames.coherent.bounded with ⟨start, _, _, taken⟩ | ⟨refused, _⟩
      · rw [given] at taken
        obtain rfl : addr = start * pageSize := Option.some.inj (congrArg Prod.fst taken)
        exact dvd_mul_left _ _
      · rw [given] at refused
        cases congrArg Prod.fst refused
    have stepped : FrameClient.step
        ⟨system.machine.frames, system.others ++ system.machine.regions.map regionFrames⟩
        (.allocateContiguousFrames (growPages minBytes), some addr) =
          some ⟨next.frames, regionFrames (freshRegion minBytes addr) ::
            (system.others ++ system.machine.regions.map regionFrames)⟩ := by
      simp [FrameClient.step, given, FrameClient.grant, Nat.succ_le_of_lt positive, regionFrames,
        freshRegion, FrameClient.address_div]
    have fresh := (invariant.supplied _ addr next.frames positive given).2.2
    have kept : ∀ a ∈ system.live, next.memory (a.ptr - headerSize) =
        system.machine.memory (a.ptr - headerSize) := by
      intro a member
      refine frame _ (header_outside sound invariant.placed member) fun inside => ?_
      have covered := cover_pos
        (mem_append_right free (List.mem_map_of_mem member))
        (invariant.placed a member).header_inside
      rw [sound.tiling.tiles, fresh _ inside] at covered
      cases covered
    refine ⟨⟨insertSorted free (freshRegion minBytes addr), ?_⟩, ?_, ?_, ?_, ?_⟩
    · simp only [spans_congr kept]
      exact sound'
    · intro a member
      exact (invariant.placed a member).congr (kept a member)
    · simp only [regions]
      exact (FrameClient.step_simulates invariant.frames stepped).2.perm perm_middle.symm
    · simp only [regions]
      exact forall_mem_cons.mpr ⟨⟨aligned, dvd_mul_left _ _⟩, invariant.paged⟩
    · simp only [regions, total, invariant.total]
      exact add_comm _ _

/-- The heap that a request is served from keeps the invariant. -/
theorem Invariant.servedFrom (fuel : Nat) (layout : Layout) :
    Invariant memoryMap { system with machine := system.machine.servedFrom fuel layout } := by
  unfold HeapMachine.servedFrom
  split
  next tried =>
    have unchanged := invariant.tryAllocate tried
    split
    · next grown => exact unchanged.grow grown
    · exact unchanged
  · exact invariant

/-- An allocation is an attempt on the heap that the request is served from. -/
theorem Invariant.alloc_cases (stepped : system.step (.alloc layout fuel) = some next) :
    ∃ result,
      (system.machine.servedFrom fuel layout).tryAllocate fuel layout =
        some (result, next.machine) ∧
      next = { system with machine := next.machine, live := grant layout result system.live } := by
  obtain ⟨⟨result, machine⟩, ran, rfl⟩ := map_eq_some_iff.mp stepped
  obtain ⟨free, sound⟩ := invariant.sound
  exact ⟨result, allocate_served sound invariant.supplied ran, rfl⟩

theorem Invariant.alloc
    (stepped : system.step (.alloc layout fuel) = some next) : Invariant memoryMap next := by
  obtain ⟨result, tried, shape⟩ := invariant.alloc_cases stepped
  rw [shape]
  exact (invariant.servedFrom fuel layout).tryAllocate tried

theorem alloc_unpadded (word : layout.align ≤ 8) (unpadded : ∀ a ∈ system.live, a.Unpadded)
    (stepped : system.step (.alloc layout fuel) = some next) : ∀ a ∈ next.live, a.Unpadded := by
  obtain ⟨result, tried, shape⟩ := invariant.alloc_cases stepped
  obtain ⟨free, sound⟩ := (invariant.servedFrom fuel layout).sound
  rw [shape]
  rcases tryAllocate_spec sound tried with ⟨rfl, _⟩ | ⟨pre, block, post, rfl, served⟩
  · exact unpadded
  · exact forall_mem_cons.mpr
      ⟨alignedStart_of_align_le served.low served.aligned word, unpadded⟩

end

/-- A live pointer without padding belongs to the block that its header describes. -/
theorem dealloc_front {ptr : Nat}
    (sound : system.machine.Sound free (system.live.map (Allocation.span system.machine.memory)))
    (unpadded : ∀ a ∈ system.live, a.ptr = ptr → a.Unpadded)
    (present : ∃ a ∈ system.live, a.ptr = ptr) :
    ∃ rest, system.live.eraseP (·.ptr = ptr) = rest ∧ (∀ b ∈ rest, b ∈ system.live) ∧
      system.machine.Sound free
        (⟨ptr - headerSize, system.machine.memory (ptr - headerSize)⟩ ::
          rest.map (Allocation.span system.machine.memory)) := by
  obtain ⟨found, member, same⟩ := present
  obtain ⟨a, before, after, _, hit, shape, erased⟩ :=
    List.exists_of_eraseP (p := fun a => decide (a.ptr = ptr)) member (by simpa using same)
  obtain rfl : a.ptr = ptr := by simpa using hit
  have exact : a.span system.machine.memory = ⟨a.ptr - headerSize,
      system.machine.memory (a.ptr - headerSize)⟩ := by
    have start := unpadded a (by simp [shape]) rfl
    unfold Allocation.Unpadded at start
    simp only [Allocation.span, Allocation.storedSize, start, Nat.add_sub_cancel]
  refine ⟨before ++ after, erased, ?_, ?_⟩
  · rw [shape]
    intro b inside
    simp only [List.mem_append] at inside ⊢
    tauto
  · rw [← exact]
    apply sound.perm
    rw [shape]
    exact List.perm_middle.map _

section

variable (invariant : Invariant memoryMap system)
include invariant

/-- A freed pointer without padding returns exactly the block that was handed out. -/
theorem Invariant.dealloc {ptr : Nat} (unpadded : ∀ a ∈ system.live, a.ptr = ptr → a.Unpadded)
    (stepped : system.step (.dealloc ptr fuel) = some next) : Invariant memoryMap next := by
  obtain ⟨present, stepped⟩ := ite_none_right_eq_some.mp stepped
  obtain ⟨machine, ran, rfl⟩ := map_eq_some_iff.mp stepped
  obtain ⟨free, sound⟩ := invariant.sound
  obtain ⟨rest, erased, remains, front⟩ := dealloc_front sound unpadded present
  have apart := (pairwise_cons.mp front.used_apart).1
  obtain ⟨sound', same, _, frame⟩ := deallocate_spec front ran
  have kept : ∀ b ∈ rest, machine.memory (b.ptr - headerSize) =
      system.machine.memory (b.ptr - headerSize) := by
    intro b inside
    have header := (invariant.placed b (remains b inside)).header_inside
    exact frame _ (header_outside sound invariant.placed (remains b inside))
      fun overlap => apart _ (List.mem_map_of_mem inside) _ overlap header
  rw [← spans_congr kept] at sound'
  rw [erased]
  refine ⟨⟨_, sound'⟩, ?_, ?_, ?_, ?_⟩
  · intro b inside
    exact (invariant.placed b (remains b inside)).congr (kept b inside)
  · simp only [same.frames, same.regions]
    exact invariant.frames
  · simp only [same.regions]
    exact invariant.paged
  · simp only [same.totalSize, same.regions]
    exact invariant.total

/-- A writable word lies neither in a free block nor in a size header. -/
theorem Invariant.writable_outside {addr : Nat}
    (sound : system.machine.Sound free (system.live.map (Allocation.span system.machine.memory)))
    (writable : system.Writable addr) :
    Span.cover free addr = 0 ∧ ∀ a ∈ system.live, a.ptr - headerSize ≠ addr := by
  rcases writable.2 with ⟨a, member, inside⟩ | unowned
  · have within := (invariant.placed a member).payload_inside inside
    refine ⟨sound.outside_of_used (List.mem_map_of_mem member) within, ?_⟩
    rintro b other rfl
    have header := (invariant.placed b other).header_inside
    by_cases same : b = a
    · have before := (invariant.placed b other).header
      subst same
      simp only [Span.Contains, Allocation.payload] at inside
      unfold headerSize at *
      omega
    · exact spans_apart sound other member same _ header within
  · have uncovered : Span.cover system.machine.regions addr = 0 := by
      by_contra covered
      obtain ⟨region, owned, inside⟩ := exists_of_cover_pos (pos_of_ne_zero covered)
      exact unowned region owned inside
    rw [← sound.tiling.tiles, cover_append] at uncovered
    refine ⟨by omega, ?_⟩
    rintro b other rfl
    have covered := cover_pos (List.mem_map_of_mem other)
      (invariant.placed b other).header_inside
    omega

/-- Stores of kernel code reach neither the free list nor a size header. -/
theorem Invariant.store {addr value : Nat}
    (stepped : system.step (.store addr value) = some next) : Invariant memoryMap next := by
  obtain ⟨writable, stepped⟩ := ite_none_right_eq_some.mp stepped
  cases stepped
  obtain ⟨free, sound⟩ := invariant.sound
  have outside := invariant.writable_outside sound writable
  have kept : ∀ a ∈ system.live,
      Function.update system.machine.memory addr value (a.ptr - headerSize) =
        system.machine.memory (a.ptr - headerSize) :=
    fun a member => Function.update_of_ne (outside.2 a member) _ _
  have stored := sound.store value outside.1
  rw [← spans_congr kept] at stored
  refine ⟨⟨free, stored⟩, ?_, invariant.frames, invariant.paged, invariant.total⟩
  intro a member
  exact (invariant.placed a member).congr (kept a member)

theorem Invariant.frameCall {call : FrameCall × Option Nat}
    (stepped : system.step (.frames call) = some next) : Invariant memoryMap next := by
  obtain ⟨client, ran, rfl⟩ := map_eq_some_iff.mp stepped
  have all := FrameClient.step_beside invariant.frames ran
  obtain ⟨free, sound⟩ := invariant.sound
  exact ⟨⟨free, sound.chain, sound.tiling⟩, invariant.placed,
    (FrameClient.step_simulates invariant.frames all).2, invariant.paged, invariant.total⟩

/-- Every step that frees no padded pointer keeps the invariant. -/
theorem Invariant.step {event : HeapEvent} (unpadded : system.FreesUnpadded event)
    (stepped : system.step event = some next) : Invariant memoryMap next := by
  cases event with
  | alloc layout fuel => exact invariant.alloc stepped
  | dealloc ptr fuel => exact invariant.dealloc unpadded stepped
  | store addr value => exact invariant.store stepped
  | frames call => exact invariant.frameCall stepped

end

/-- After initialisation the heap is one free block. -/
theorem start_invariant (started : start memory memoryMap = some system) :
    Invariant memoryMap system := by
  obtain ⟨machine, booted, rfl⟩ := map_eq_some_iff.mp started
  have valid := FrameClient.start_valid memoryMap
  unfold HeapMachine.boot at booted
  split at booted
  · cases booted
  next addr frames given =>
    cases booted
    have positive : 0 < heapSize / pageSize := by decide
    rcases (init memoryMap).allocateContiguousFrames_cases positive
        valid.coherent.bounded with ⟨first, free, _, taken⟩ | ⟨refused, _⟩
    · rw [given] at taken
      obtain rfl : addr = first * pageSize := Option.some.inj (congrArg Prod.fst taken)
      have last := isFree_lt
        (free (heapSize / pageSize - 1) (by decide))
      have low : first * pageSize + heapSize ≤ 2 ^ 34 := by
        unfold maxFrames heapSize pageSize at *
        omega
      have stepped : FrameClient.step ⟨init memoryMap, []⟩
          (.allocateContiguousFrames (heapSize / pageSize), some (first * pageSize)) =
          some ⟨frames, [regionFrames ⟨first * pageSize, heapSize⟩]⟩ := by
        simp [FrameClient.step, given, FrameClient.grant, Nat.succ_le_of_lt positive, regionFrames]
      have empty : Tiling [] [] := ⟨by simp, by simp, by simp, by simp, by simp⟩
      have large : minSize ≤ heapSize := by decide
      have wordAligned : 8 ∣ heapSize := by decide
      have wholePages : pageSize ∣ heapSize := by decide
      have tiling := empty.grow ⟨first * pageSize, heapSize⟩ large
        ⟨Nat.dvd_mul_left_of_dvd (by decide) first, wordAligned⟩ low (by simp)
      refine ⟨⟨[⟨first * pageSize, heapSize⟩], ?_, tiling⟩, by simp [HeapMachine.init],
        (FrameClient.step_simulates valid stepped).2, ?_, rfl⟩
      · refine cons_iff.mpr ⟨rfl, ?_, ?_⟩
        · simp only [HeapMachine.init, size_setNext, size_setSize]
        · simp only [HeapMachine.init, next_setNext, nil_iff]
      · intro region member
        obtain rfl := mem_singleton.mp member
        exact ⟨dvd_mul_left _ _, wholePages⟩
    · rw [given] at refused
      cases congrArg Prod.fst refused

theorem mem_of_onFreeList {head : Option Nat} {block : Nat}
    (chain : Chain memory head free) (listed : OnFreeList memory head block) :
    ⟨block, FreeBlock.size memory block⟩ ∈ free := by
  induction listed generalizing free with
  | here block =>
    cases free with
    | nil => cases nil_iff.mp chain
    | cons first rest =>
      obtain ⟨same, size, _⟩ := cons_iff.mp chain
      cases same
      rw [size]
      exact .head _
  | next later ih =>
    cases free with
    | nil => cases nil_iff.mp chain
    | cons first rest =>
      obtain ⟨same, _, tail⟩ := cons_iff.mp chain
      cases same
      exact mem_cons_of_mem _ (ih tail)

theorem Invariant.safe (invariant : Invariant memoryMap system) : Safe system := by
  obtain ⟨free, sound⟩ := invariant.sound
  refine ⟨fun a member => (invariant.placed a member).aligned, ?_, ?_, ?_⟩
  · refine (pairwise_map.mp sound.used_apart).imp_of_mem ?_
    intro a b first second apart x inside overlap
    exact apart x ((invariant.placed a first).payload_inside inside)
      ((invariant.placed b second).payload_inside overlap)
  · intro a member x inside
    have covered := cover_pos (mem_append_right free (List.mem_map_of_mem member))
      ((invariant.placed a member).payload_inside inside)
    rw [sound.tiling.tiles] at covered
    exact exists_of_cover_pos covered
  · intro a member block listed x inside overlap
    have outside := sound.outside_of_used (List.mem_map_of_mem member)
      ((invariant.placed a member).payload_inside inside)
    have covered := cover_pos (mem_of_onFreeList sound.chain listed) overlap
    omega

/-- Allocating and freeing a live pointer end in every run that frees no padded pointer. -/
theorem calls_end {events : List HeapEvent} (started : start memory memoryMap = some system)
    (unpadded : Transition.Meets step FreesUnpadded system events)
    (reached : Transition.run step system events = some next) :
    ∃ free, Chain next.machine.memory next.machine.heap.freeList free ∧
      ∀ fuel > free.length + 1, (∀ layout, (next.step (.alloc layout fuel)).isSome) ∧
        ∀ a ∈ next.live, (next.step (.dealloc a.ptr fuel)).isSome := by
  have invariant := Transition.run_preserves (fun _ _ _ before => before.step)
    (start_invariant started) unpadded reached
  obtain ⟨free, sound⟩ := invariant.sound
  refine ⟨free, sound.chain, fun fuel enough => ⟨fun layout => ?_, fun a member => ?_⟩⟩
  · simp only [step, isSome_map]
    exact allocate_ends layout sound invariant.supplied enough
  · simp only [step]
    rw [if_pos ⟨a, member, rfl⟩, isSome_map]
    exact deallocate_ends a.ptr sound (Nat.lt_of_succ_lt enough)

end HeapSystem

open HeapSystem in
/--
Safety of the heap.  In every run from initialisation in which only pointers
without alignment padding are freed, every state reached is safe.
-/
theorem heap_safe_of_unpadded_frees (memory : Words) (memoryMap : MemoryMap)
    (events : List HeapEvent) (first last : HeapSystem)
    (started : start memory memoryMap = some first)
    (unpadded : Transition.Meets step FreesUnpadded first events)
    (reached : Transition.run step first events = some last) : last.Safe := by
  have invariant : Invariant memoryMap last := by
    apply Transition.run_preserves _ (start_invariant started) unpadded reached
    intro state event next before condition stepped
    exact before.step condition stepped
  exact invariant.safe

namespace HeapSystem

variable {memory : Words} {memoryMap : MemoryMap} {system next : HeapSystem}

/-- Allocations ask for at most word alignment. -/
def WordAligned : HeapEvent → Prop
  | .alloc layout _ => layout.align ≤ 8
  | _ => True

/-- The invariant of runs with word alignment: no live pointer is padded. -/
structure WordInvariant (memoryMap : MemoryMap) (system : HeapSystem) : Prop
    extends Invariant memoryMap system where
  unpadded : ∀ a ∈ system.live, a.Unpadded

/-- With word alignment no live pointer is padded, so no freed one is. -/
theorem WordInvariant.freesUnpadded (invariant : WordInvariant memoryMap system)
    (event : HeapEvent) : system.FreesUnpadded event := by
  cases event with
  | dealloc ptr fuel => exact fun a member _ => invariant.unpadded a member
  | alloc | store | frames => trivial

theorem WordInvariant.step {event : HeapEvent}
    (invariant : WordInvariant memoryMap system) (word : WordAligned event)
    (stepped : system.step event = some next) : WordInvariant memoryMap next := by
  have unpadded := invariant.unpadded
  refine ⟨invariant.toInvariant.step (invariant.freesUnpadded event) stepped, ?_⟩
  cases event with
  | alloc layout fuel => exact alloc_unpadded invariant.toInvariant word unpadded stepped
  | dealloc ptr fuel =>
    obtain ⟨machine, _, rfl⟩ := map_eq_some_iff.mp (ite_none_right_eq_some.mp stepped).2
    exact fun a member => unpadded a (mem_of_mem_eraseP member)
  | store addr value =>
    cases (ite_none_right_eq_some.mp stepped).2
    exact unpadded
  | frames call =>
    obtain ⟨client, _, rfl⟩ := map_eq_some_iff.mp stepped
    exact unpadded

theorem start_wordInvariant (started : start memory memoryMap = some system) :
    WordInvariant memoryMap system := by
  refine ⟨start_invariant started, ?_⟩
  obtain ⟨machine, _, rfl⟩ := map_eq_some_iff.mp started
  simp

theorem headerBlocks_eq (memory : Words) (unpadded : ∀ a ∈ live, a.Unpadded) :
    live.map (Allocation.headerBlock memory) = live.map (Allocation.span memory) := by
  apply List.map_congr_left
  intro a member
  have start := unpadded a member
  unfold Allocation.Unpadded at start
  simp only [Allocation.headerBlock, Allocation.span, start, Nat.add_sub_cancel]

end HeapSystem

open HeapSystem in
/--
With alignments of at most a word every address of the heap's regions belongs
to exactly one block, which is on the free list or is the block that one live
allocation's header describes; no other address belongs to a block.  The
regions add up to the heap's total size.
-/
theorem heap_blocks_tile (memory : Words) (memoryMap : MemoryMap) (events : List HeapEvent)
    (first last : HeapSystem) (started : start memory memoryMap = some first)
    (word : ∀ event ∈ events, WordAligned event)
    (reached : Transition.run step first events = some last) :
    ∃ free, Chain last.machine.memory last.machine.heap.freeList free ∧
      (∀ x, Span.cover
          (free ++ last.live.map (Allocation.headerBlock last.machine.memory)) x =
        if ∃ region ∈ last.machine.regions, region.Contains x then 1 else 0) ∧
      last.machine.heap.totalSize = (last.machine.regions.map Span.size).sum := by
  have meets : Transition.Meets step (fun _ event => WordAligned event) first events :=
    Transition.meets_of_forall (fun event member _ => word event member) first
  have invariant : WordInvariant memoryMap last := by
    apply Transition.run_preserves _ (start_wordInvariant started) meets reached
    intro state event next before condition stepped
    exact before.step condition stepped
  obtain ⟨free, sound⟩ := invariant.sound
  refine ⟨free, sound.chain, ?_, invariant.total⟩
  intro x
  rw [headerBlocks_eq _ invariant.unpadded, sound.tiling.tiles]
  split
  next owned =>
    obtain ⟨region, member, inside⟩ := owned
    exact le_antisymm (sound.tiling.once x) (cover_pos member inside)
  next unowned =>
    by_contra covered
    exact unowned (exists_of_cover_pos (pos_of_ne_zero covered))

/-! ## Concrete runs -/

/-- A map with two usable mebibytes from 1 MiB on. -/
def twoMiBMap : MemoryMap := ⟨[⟨0x100000, 0x200000, .usable⟩], by decide⟩

/-- A layout of 24 bytes with the alignment `2 ^ k`. -/
def smallLayout (k : Nat) (small : k < 32) : Layout where
  size := 24
  align := 2 ^ k
  isPow := ⟨k, by omega, rfl⟩
  fits := by
    have positive : 0 < 2 ^ k := Nat.two_pow_pos k
    have bound : 2 ^ k < 2 ^ 32 := Nat.pow_lt_pow_right (by decide) small
    have rounded := Nat.div_mul_le_self (24 + 2 ^ k - 1) (2 ^ k)
    omega

namespace HeapSystem

/-- The state after initialisation from the two-mebibyte map: the heap starts at 1 MiB. -/
def twoMiBStart : HeapSystem :=
  ⟨HeapMachine.init ⟨fun _ => 0, ⟨none, 0, 0⟩,
    (FrameAllocator.init twoMiBMap).markRun 256 256, []⟩ 0x100000 HeapMachine.heapSize, [], []⟩

theorem isFree_twoMiBMap (j : Nat) : (init twoMiBMap).isFree j = true ↔ 256 ≤ j ∧ j < 768 := by
  have region : FrameAllocator.Frees ⟨0x100000, 0x200000, .usable⟩ j ↔ 256 ≤ j ∧ j < 768 := by
    simp [FrameAllocator.Frees, pageSize]
  rw [(init_spec twoMiBMap).2 j]
  simp only [twoMiBMap, mem_singleton, exists_eq_left, region]
  unfold maxFrames pageSize
  omega

/-- A free run below which no frame is free is the one that is allocated. -/
theorem allocate_lowest {fa : FrameAllocator} {first count : Nat} (positive : 0 < count)
    (bounded : ∀ i, fa.isFree i = true → i < fa.totalFrames) (free : fa.FreeRun first count)
    (lowest : ∀ i, fa.isFree i = true → first ≤ i) :
    fa.allocateContiguousFrames count = (some (first * pageSize), fa.markRun first count) := by
  rcases fa.allocateContiguousFrames_cases positive bounded with
    ⟨start, run, minimal, taken⟩ | ⟨_, absent⟩
  · have above := lowest _ (run 0 positive)
    have least : ¬ first < start := fun below => minimal first below free
    obtain rfl : start = first := by omega
    exact taken
  · exact absurd free (absent first)

theorem allocate_twoMiBMap :
    (init twoMiBMap).allocateContiguousFrames (heapSize / pageSize) =
      (some 0x100000, (init twoMiBMap).markRun 256 256) := by
  have pages : heapSize / pageSize = 256 := by decide
  refine @allocate_lowest _ 256 _ (by decide) (init_spec twoMiBMap).1.bounded
    (fun offset bound => (isFree_twoMiBMap _).mpr ?_) fun i free => ((isFree_twoMiBMap i).mp free).1
  omega

theorem start_twoMiBMap : start (fun _ => 0) twoMiBMap = some twoMiBStart := by
  rw [start, boot_eq allocate_twoMiBMap]
  rfl

/-- A padded allocation, a second one behind it, and the first one freed. -/
def paddedRun : List HeapEvent :=
  [.alloc (smallLayout 5 (by decide)) 3, .alloc (smallLayout 3 (by decide)) 3, .dealloc 0x100020 3]

/-- Two word-aligned allocations, the first of which is freed. -/
def wordRun : List HeapEvent :=
  [.alloc (smallLayout 3 (by decide)) 3, .alloc (smallLayout 0 (by decide)) 3, .dealloc 0x100008 3]

theorem wordRun_isSome : (Transition.run step twoMiBStart wordRun).isSome = true := by
  decide +kernel

theorem calls_end_wordRun : ∃ last fuel, Transition.run step twoMiBStart wordRun = some last ∧
    ∀ layout, (last.step (.alloc layout fuel)).isSome := by
  obtain ⟨last, reached⟩ := isSome_iff_exists.mp wordRun_isSome
  obtain ⟨free, -, ends⟩ := calls_end start_twoMiBMap (by decide +kernel) reached
  exact ⟨last, _, reached, (ends _ (lt_add_one _)).1⟩

end HeapSystem

open HeapSystem in
/-- Freeing a padded pointer puts a block on the free list that overlaps a live payload. -/
theorem heap_unsafe_after_padded_free :
    ∃ first last, start (fun _ => 0) twoMiBMap = some first ∧
      Transition.run step first paddedRun = some last ∧ ¬ last.Safe := by
  -- the freed block starts at the size header and reaches into the second payload
  have seen : ∃ last ∈ Transition.run step twoMiBStart paddedRun,
      last.machine.heap.freeList = some 0x100018 ∧
        ∃ a ∈ last.live, a.payload.Contains 0x100040 ∧
          (⟨0x100018, FreeBlock.size last.machine.memory 0x100018⟩ : Span).Contains 0x100040 := by
    decide +kernel
  obtain ⟨last, reached, freeList, a, member, payload, block⟩ := seen
  refine ⟨twoMiBStart, last, start_twoMiBMap, reached, fun safe => ?_⟩
  exact safe.notFree a member 0x100018 (by rw [freeList]; exact .here _) 0x100040 payload block

open HeapSystem in
/-- A run in which only an unpadded pointer is freed is safe. -/
theorem heap_safe_wordRun :
    ∃ last, start (fun _ => 0) twoMiBMap = some twoMiBStart ∧
      Transition.run step twoMiBStart wordRun = some last ∧ last.Safe := by
  obtain ⟨last, reached⟩ := isSome_iff_exists.mp wordRun_isSome
  exact ⟨last, start_twoMiBMap, reached,
    heap_safe_of_unpadded_frees _ _ _ _ last start_twoMiBMap (by decide +kernel) reached⟩

open HeapSystem in
/-- The same run leaves the heap tiled. -/
theorem heap_blocks_tile_wordRun :
    ∃ last free, Transition.run step twoMiBStart wordRun = some last ∧
      Chain last.machine.memory last.machine.heap.freeList free ∧
      ∀ x, Span.cover (free ++ last.live.map (Allocation.headerBlock last.machine.memory)) x =
        if ∃ region ∈ last.machine.regions, region.Contains x then 1 else 0 := by
  obtain ⟨last, reached⟩ := isSome_iff_exists.mp wordRun_isSome
  have word : ∀ event ∈ wordRun, WordAligned event := by
    simp [wordRun, WordAligned, smallLayout]
  obtain ⟨free, chain, tiles, _⟩ :=
    heap_blocks_tile _ _ _ _ last start_twoMiBMap word reached
  exact ⟨last, free, reached, chain, tiles⟩

end CantayaOS.Memory
