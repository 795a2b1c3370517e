import CantayaOS.Boot.IdentityMap

/-!
# The memory the kernel is handed

The kernel uses the frames of its allocator at their own addresses, which the
bootloader's tables have to map.  The bitmap covers 16 GiB while the tables map
4 GiB and the framebuffer, so whether every frame is reachable depends on the
memory map.
-/

namespace CantayaOS.Boot

open List Option

open Lib Memory Shared FrameClient FrameAllocator BootMachine

/-! ## Enough pages for the tables -/

namespace BootMachine

/-- The operation succeeds and takes at most `cost` pages from the firmware. -/
def Affords (machine : BootMachine) (cost : Nat) (result : Option BootMachine) : Prop :=
  ∃ after, result = some after ∧ machine.pages.length ≤ after.pages.length + cost

section

variable (machine : BootMachine)
include machine

theorem getOrCreateTable_affords (enough : 1 ≤ machine.pages.length)
    (table : Nat) (index : Fin 512) :
    ∃ next after, machine.getOrCreateTable table index = some (next, after) ∧
      machine.pages.length ≤ after.pages.length + 1 := by
  obtain ⟨memory, pages⟩ := machine
  unfold getOrCreateTable
  dsimp only
  split
  · exact ⟨_, _, rfl, Nat.le_succ _⟩
  · cases pages with
    | nil => cases enough
    | cons page rest => exact ⟨_, _, rfl, le_rfl⟩

theorem mapHugePage_affords (enough : 2 ≤ machine.pages.length)
    (pml4 virtualAddr physicalAddr : Nat) :
    machine.Affords 2 (machine.mapHugePage pml4 virtualAddr physicalAddr) := by
  obtain ⟨pdp, first, ran, cost⟩ :=
    getOrCreateTable_affords machine (by omega) pml4 (pml4Index virtualAddr)
  obtain ⟨pd, second, ran', cost'⟩ :=
    getOrCreateTable_affords first (by omega) pdp (pdpIndex virtualAddr)
  simp only [mapHugePage, ran, bind_some, ran']
  refine ⟨_, rfl, ?_⟩
  dsimp only
  omega

theorem map4kPageFlags_affords (enough : 3 ≤ machine.pages.length)
    (pml4 virtualAddr physicalAddr flags : Nat) :
    machine.Affords 3 (machine.map4kPageFlags pml4 virtualAddr physicalAddr flags) := by
  obtain ⟨pdp, first, ran, cost⟩ :=
    getOrCreateTable_affords machine (by omega) pml4 (pml4Index virtualAddr)
  obtain ⟨pd, second, ran', cost'⟩ :=
    getOrCreateTable_affords first (by omega) pdp (pdpIndex virtualAddr)
  obtain ⟨pt, third, ran'', cost''⟩ :=
    getOrCreateTable_affords second (by omega) pd (pdIndex virtualAddr)
  simp only [map4kPageFlags, ran, bind_some, ran', ran'']
  refine ⟨_, rfl, ?_⟩
  dsimp only
  omega

theorem identityMap_affords (count : Nat)
    (enough : 2 * count ≤ machine.pages.length) (pml4 addr : Nat) :
    machine.Affords (2 * count) (machine.identityMap pml4 addr count) := by
  induction count generalizing machine addr with
  | zero => exact ⟨machine, rfl, le_rfl⟩
  | succ count ih =>
    obtain ⟨first, ran, cost⟩ := mapHugePage_affords machine (by omega) pml4 addr addr
    obtain ⟨last, ran', cost'⟩ := ih first (by omega) ((addr + hugePageSize) % 2 ^ 64)
    refine ⟨last, ?_, by omega⟩
    simp only [identityMap, ran, bind_some, ran']

theorem mapKernelPages_affords (count : Nat)
    (enough : 3 * count ≤ machine.pages.length) (pml4 physicalBase start flags : Nat) :
    machine.Affords (3 * count) (machine.mapKernelPages pml4 physicalBase start flags count) := by
  induction count generalizing machine start with
  | zero => exact ⟨machine, rfl, le_rfl⟩
  | succ count ih =>
    obtain ⟨first, ran, cost⟩ := map4kPageFlags_affords machine (by omega) pml4
      ((kernelVaddrBase + start) % 2 ^ 64) ((physicalBase + start) % 2 ^ 64) flags
    obtain ⟨last, ran', cost'⟩ := ih first (by omega) (start + pageSize)
    refine ⟨last, ?_, by omega⟩
    simp only [mapKernelPages, ran, bind_some, ran']

def segmentPages (segments : List SegmentInfo) : Nat :=
  (segments.map fun segment => pagesFor pageSize segment.size.toNat).sum

theorem mapSegments_affords (segments : List SegmentInfo)
    (enough : 3 * segmentPages segments ≤ machine.pages.length) (pml4 physicalBase : Nat) :
    machine.Affords (3 * segmentPages segments)
      (machine.mapSegments pml4 physicalBase segments) := by
  induction segments generalizing machine with
  | nil => exact ⟨machine, rfl, le_rfl⟩
  | cons segment rest ih =>
    have split : segmentPages (segment :: rest) =
        pagesFor pageSize segment.size.toNat + segmentPages rest := rfl
    obtain ⟨first, ran, cost⟩ := mapKernelPages_affords machine
      (pagesFor pageSize segment.size.toNat) (by omega) pml4 physicalBase
      segment.offsetFromBase.toNat segment.pageFlags
    obtain ⟨last, ran', cost'⟩ := ih first (by omega)
    refine ⟨last, ?_, by omega⟩
    simp only [mapSegments, ran, bind_some, ran']

/-- The number of 4 KiB pages of the image, however it is mapped. -/
def imagePages (kernel : KernelLoadInfo) : Nat :=
  max (segmentPages kernel.segments) (pagesFor pageSize kernel.size.toNat)

theorem mapKernel_affords (kernel : KernelLoadInfo)
    (enough : 3 * imagePages kernel ≤ machine.pages.length) (pml4 : Nat) (nxEnabled : Bool) :
    machine.Affords (3 * imagePages kernel) (machine.mapKernel pml4 kernel nxEnabled) := by
  unfold imagePages at *
  unfold mapKernel
  split
  · obtain ⟨after, ran, cost⟩ :=
      mapSegments_affords machine kernel.segments (by omega) pml4 kernel.physicalBase.toNat
    exact ⟨after, ran, by omega⟩
  · obtain ⟨after, ran, cost⟩ := mapKernelPages_affords machine
      (pagesFor pageSize kernel.size.toNat) (by omega) pml4 kernel.physicalBase.toNat 0
      (present ||| writable)
    exact ⟨after, ran, by omega⟩

end

/-- A bound on the pages that the tables take. -/
def tableBudget (kernel : KernelLoadInfo) (fb : FramebufferInfo) : Nat :=
  1 + 2 * (fourGib / hugePageSize) + 3 * imagePages kernel + 2 * fbPages fb

/-- The tables are built whenever the firmware has enough pages. -/
theorem setupKernelPageTables_total {machine : BootMachine} {kernel : KernelLoadInfo}
    {fb : FramebufferInfo} (enough : tableBudget kernel fb ≤ machine.pages.length)
    (nxEnabled : Bool) :
    ∃ pml4 after, machine.setupKernelPageTables kernel fb nxEnabled = some (pml4, after) := by
  unfold tableBudget at enough
  unfold setupKernelPageTables
  generalize fourGib / hugePageSize = low at enough ⊢
  obtain ⟨memory, pages⟩ := machine
  cases pages with
  | nil =>
    rw [length_nil] at enough
    omega
  | cons pml4 rest =>
    rw [length_cons] at enough
    obtain ⟨identity, ran, cost⟩ := identityMap_affords
      ⟨PageMachine.zeroFrame memory pml4, rest⟩ low (by dsimp only; omega) pml4 0
    dsimp only at cost
    obtain ⟨image, ran', cost'⟩ := mapKernel_affords identity kernel (by omega) pml4 nxEnabled
    obtain ⟨last, ran'', cost''⟩ :=
      identityMap_affords image (fbPages fb) (by omega) pml4 (fbBaseAligned fb)
    refine ⟨pml4, last, ?_⟩
    simp only [allocatePageTable, bind_some]
    rw [ran, bind_some, ran', bind_some, ran'', map_some]

end BootMachine

/-! ## Frames and the identity map -/

/-- All bytes of the range translate to themselves. -/
def IdentityMapped (memory : Words) (pml4 addr size : Nat) : Prop :=
  ∀ x, addr ≤ x → x < addr + size → translate memory pml4 x = some x

/--
Whatever calls were made since initialisation, the memory that either kind of
allocation returns next is mapped at its own address.
-/
def AllocationsMapped (memoryMap : MemoryMap) (memory : Words) (pml4 : Nat) : Prop :=
  ∀ trace client,
    Transition.run FrameClient.step (FrameClient.start memoryMap) trace = some client →
    (∀ addr, client.allocator.allocateFrame.1 = some addr →
      IdentityMapped memory pml4 addr pageSize) ∧
    ∀ count addr, (client.allocator.allocateContiguousFrames count).1 = some addr →
      IdentityMapped memory pml4 addr (count * pageSize)

/-- An address below 4 GiB or in the 2 MiB pages of the framebuffer. -/
def Covered (fb : FramebufferInfo) (addr : Nat) : Prop :=
  addr < fourGib ∨
    (fbBaseAligned fb ≤ addr ∧ addr < fbBaseAligned fb + fbPages fb * hugePageSize)

/-- Every frame of a usable region that the bitmap takes over is covered. -/
def UsableFramesCovered (memoryMap : MemoryMap) (fb : FramebufferInfo) : Prop :=
  ∀ region ∈ memoryMap.regions, ∀ i < maxFrames, FrameAllocator.Frees region i →
    Covered fb (i * pageSize)

theorem mem_mappedPages_iff (fb : FramebufferInfo) (addr : Nat) :
    addr / hugePageSize ∈ mappedPages fb ↔ Covered fb addr := by
  unfold mappedPages Covered
  rw [fbBaseAligned_eq, Finset.mem_union, Finset.mem_Ico, Finset.mem_Ico]
  unfold fourGib hugePageSize
  omega

/-- A page is covered as a whole or not at all. -/
theorem covered_page_iff (fb : FramebufferInfo) (addr : Nat) :
    Covered fb addr ↔ Covered fb (addr / pageSize * pageSize) := by
  rw [← mem_mappedPages_iff, ← mem_mappedPages_iff]
  have same : addr / pageSize * pageSize / hugePageSize = addr / hugePageSize := by
    unfold pageSize hugePageSize
    omega
  rw [same]

section Tables

variable {memory : Words} {pml4 : Nat} {fb : FramebufferInfo}
  (translates : ∀ addr < 2 ^ 47,
    translate memory pml4 addr = if addr / hugePageSize ∈ mappedPages fb then some addr else none)

include translates

theorem identityMapped_iff (start count : Nat) (low : (start + count) * pageSize ≤ 2 ^ 47) :
    IdentityMapped memory pml4 (start * pageSize) (count * pageSize) ↔
      ∀ i, start ≤ i → i < start + count → Covered fb (i * pageSize) := by
  have mapped {x : Nat} (bound : x < 2 ^ 47) :
      translate memory pml4 x = some x ↔ Covered fb (x / pageSize * pageSize) := by
    rw [translates x bound, ← covered_page_iff, ← mem_mappedPages_iff]
    simp
  constructor
  · intro identity i first last
    have inside : start * pageSize ≤ i * pageSize ∧
        i * pageSize < start * pageSize + count * pageSize := by
      unfold pageSize
      omega
    have bound : i * pageSize < 2 ^ 47 := by
      unfold pageSize at *
      omega
    have reached := (mapped bound).mp (identity _ inside.1 inside.2)
    rwa [address_div] at reached
  · intro covered x first last
    have bound : x < 2 ^ 47 := by
      unfold pageSize at *
      omega
    apply (mapped bound).mpr
    apply covered
    · unfold pageSize at *
      omega
    · unfold pageSize at *
      omega

theorem identityMapped_frame_iff {frame : Nat} (inside : frame < maxFrames) :
    IdentityMapped memory pml4 (frame * pageSize) pageSize ↔ Covered fb (frame * pageSize) := by
  have low : (frame + 1) * pageSize ≤ 2 ^ 47 := by
    unfold maxFrames pageSize at *
    omega
  have single := identityMapped_iff translates frame 1 low
  rw [one_mul] at single
  rw [single]
  constructor
  · intro all
    exact all frame le_rfl (Nat.lt_succ_self _)
  · intro covered i lower upper
    have same : i = frame := by omega
    rwa [same]

/-- The frames handed out are all reachable exactly if the usable frames are covered. -/
theorem allocationsMapped_iff (memoryMap : MemoryMap) :
    AllocationsMapped memoryMap memory pml4 ↔ UsableFramesCovered memoryMap fb := by
  have initially := (init_spec memoryMap).2
  constructor
  · intro all region member i inside frees
    have free := (initially i).mpr ⟨inside, region, member, frees⟩
    obtain ⟨trace, last, ran, returned⟩ :=
      exists_run_returning (start_valid memoryMap) free
    exact (identityMapped_frame_iff translates inside).mp ((all trace last ran).1 _ returned)
  · intro covered trace client ran
    obtain ⟨_, valid⟩ := run_simulates (start_valid memoryMap) ran
    have reached {i : Nat} (free : client.allocator.isFree i = true) :
        i < maxFrames ∧ Covered fb (i * pageSize) := by
      have member := (valid.partition.covers i).mpr (.inl (mem_freeSet.mpr free))
      obtain ⟨inside, region, listed, frees⟩ :=
        (initially i).mp (mem_freeSet.mp member)
      exact ⟨inside, covered region listed i inside frees⟩
    refine ⟨?_, ?_⟩
    · intro addr returned
      rcases client.allocator.allocateFrame_cases with ⟨i, free, taken⟩ | ⟨refused, _⟩
      · rw [taken] at returned
        cases returned
        exact (identityMapped_frame_iff translates (reached free).1).mpr (reached free).2
      · rw [refused] at returned
        cases returned
    · intro count addr returned
      cases count with
      | zero =>
        intro x first last
        omega
      | succ count =>
        rcases client.allocator.allocateContiguousFrames_cases (Nat.succ_pos count)
          valid.coherent.bounded with ⟨start, free, _, taken⟩ | ⟨refused, _⟩
        · rw [taken] at returned
          cases returned
          have last := (reached (free count (Nat.lt_succ_self count))).1
          have low : (start + (count + 1)) * pageSize ≤ 2 ^ 47 := by
            unfold maxFrames pageSize at *
            omega
          rw [identityMapped_iff translates start (count + 1) low]
          intro i lower upper
          have shape : start + (i - start) = i := by omega
          have inside := free (i - start) (by omega)
          rw [shape] at inside
          exact (reached inside).2
        · rw [refused] at returned
          cases returned

end Tables

/--
The handoff contract.  For the tables the bootloader builds, whatever pages the
firmware hands out, and for every memory map given to the kernel's allocator,
all memory that the allocator can return after initialisation is mapped at its
own address exactly if every usable frame lies below 4 GiB or in the 2 MiB
pages of the framebuffer.
-/
theorem handedFrames_mapped_iff_covered (memoryMap : MemoryMap) (kernel : KernelLoadInfo)
    (fb : FramebufferInfo) (nxEnabled : Bool) (machine after : BootMachine) (pml4 : Nat)
    (supply : BootMachine.Supply machine.pages) (kernelHigh : kernel.HigherHalf)
    (fbLow : FramebufferLow fb)
    (built : machine.setupKernelPageTables kernel fb nxEnabled = some (pml4, after)) :
    AllocationsMapped memoryMap after.memory pml4 ↔ UsableFramesCovered memoryMap fb := by
  have maps := setupKernelPageTables_spec supply kernelHigh
    (fbPages_low fbLow) built
  exact allocationsMapped_iff (fun addr low => maps.translate_eq low) memoryMap

/-- A kernel with one executable and one writable segment. -/
def twoSegmentKernel : KernelLoadInfo where
  physicalBase := 0x2000000
  size := 0x5000
  segments := [⟨0, 0x3000, 5⟩, ⟨0x3000, 0x2000, 6⟩]
  fits := by decide

theorem twoSegmentKernel_higherHalf : twoSegmentKernel.HigherHalf :=
  ⟨by decide, by decide⟩

/-- A framebuffer of 3 MiB below 4 GiB. -/
def lowFramebuffer : FramebufferInfo := ⟨0xC0000000, 0x300000⟩

theorem lowFramebuffer_low : FramebufferLow lowFramebuffer := by
  unfold FramebufferLow
  decide

/-- Firmware that hands out consecutive pages from 2 MiB on. -/
def consecutivePages (count : Nat) : List Nat :=
  (List.range count).map fun i => (512 + i) * pageSize

theorem consecutivePages_supply {count : Nat} (few : count ≤ 2 ^ 32) :
    BootMachine.Supply (consecutivePages count) := by
  refine ⟨?_, ?_⟩
  · apply List.Nodup.map _ nodup_range
    intro i j same
    dsimp only at same
    unfold pageSize at same
    omega
  · intro page member
    obtain ⟨i, inside, rfl⟩ := List.mem_map.mp member
    rw [mem_range] at inside
    refine ⟨dvd_mul_left _ _, ?_⟩
    unfold pageSize
    omega

def exampleMachine : BootMachine := ⟨fun _ => 0, consecutivePages 5000⟩

theorem exampleMachine_builds (fb : FramebufferInfo)
    (enough : tableBudget twoSegmentKernel fb ≤ 5000) : ∃ pml4 after,
      exampleMachine.setupKernelPageTables twoSegmentKernel fb true = some (pml4, after) := by
  apply setupKernelPageTables_total
  rw [exampleMachine, consecutivePages, length_map, length_range]
  exact enough

theorem exampleMachine_supply : BootMachine.Supply exampleMachine.pages := by
  have few : 5000 ≤ 2 ^ 32 := by omega
  dsimp only [exampleMachine]
  exact consecutivePages_supply few

/-- With all usable memory below 4 GiB every frame is reachable. -/
theorem handedFrames_mapped_fourFrameMap : ∃ pml4 after,
    exampleMachine.setupKernelPageTables twoSegmentKernel lowFramebuffer true =
        some (pml4, after) ∧
      AllocationsMapped fourFrameMap after.memory pml4 := by
  obtain ⟨pml4, after, built⟩ := exampleMachine_builds lowFramebuffer (by decide)
  refine ⟨pml4, after, built, ?_⟩
  apply (handedFrames_mapped_iff_covered fourFrameMap twoSegmentKernel lowFramebuffer true
    exampleMachine after pml4 exampleMachine_supply twoSegmentKernel_higherHalf lowFramebuffer_low
    built).mpr
  intro region member i inside frees
  cases mem_singleton.mp member
  have last : i < (0x100000 + 0x4000 : UInt64).toNat / pageSize := frees.2.2.2
  have value : (0x100000 + 0x4000 : UInt64).toNat / pageSize = 260 := by decide
  refine .inl ?_
  unfold fourGib pageSize
  omega

/-- A map whose usable memory starts at 4 GiB. -/
def highMap : MemoryMap := ⟨[⟨0x100000000, 0x200000, .usable⟩], by decide⟩

theorem frees_highMap_iff (i : Nat) :
    (FrameAllocator.init highMap).isFree i = true ↔ 0x100000 ≤ i ∧ i < 0x100200 := by
  have first : (0x100000000 : UInt64).toNat / pageSize = 0x100000 := by decide
  have last : (0x100000000 + 0x200000 : UInt64).toNat / pageSize = 0x100200 := by decide
  have high : ¬ (0x100000000 : UInt64) < 0x100000 := by decide
  rw [(init_spec highMap).2]
  simp only [highMap, mem_singleton, exists_eq_left, FrameAllocator.Frees, high]
  have large : maxFrames = 0x400000 := by decide
  constructor
  · rintro ⟨_, _, _, lower, upper⟩
    exact ⟨lower, upper⟩
  · rintro ⟨lower, upper⟩
    exact ⟨by omega, trivial, not_false, lower, upper⟩

/-- With usable memory from 4 GiB on, the first frame handed out is not mapped at all. -/
theorem handedFrame_unmapped_highMap : ∃ pml4 after addr,
    exampleMachine.setupKernelPageTables twoSegmentKernel lowFramebuffer true =
        some (pml4, after) ∧
      (FrameAllocator.init highMap).allocateFrame.1 = some addr ∧
      translate after.memory pml4 addr = none ∧ ¬ AllocationsMapped highMap after.memory pml4 := by
  obtain ⟨pml4, after, built⟩ := exampleMachine_builds lowFramebuffer (by decide)
  have maps := setupKernelPageTables_spec exampleMachine_supply
    twoSegmentKernel_higherHalf (fbPages_low lowFramebuffer_low) built
  have free := (frees_highMap_iff 0x100000).mpr (by decide)
  rcases (FrameAllocator.init highMap).allocateFrame_cases with ⟨i, taken, returned⟩ | ⟨_, busy⟩
  · have range := (frees_highMap_iff i).mp taken
    have low : BootMachine.Low (i * pageSize) := by
      unfold BootMachine.Low pageSize
      omega
    have uncovered : ¬ Covered lowFramebuffer (i * pageSize) := by
      have base : fbBaseAligned lowFramebuffer + fbPages lowFramebuffer * hugePageSize =
          0xC0400000 := by decide
      unfold Covered
      rw [base]
      unfold fourGib pageSize
      omega
    have unmapped : translate after.memory pml4 (i * pageSize) = none := by
      rw [maps.translate_eq low, if_neg (mt (mem_mappedPages_iff _ _).mp uncovered)]
    have first : (FrameAllocator.init highMap).allocateFrame.1 = some (i * pageSize) :=
      congrArg Prod.fst returned
    refine ⟨pml4, after, i * pageSize, built, first, unmapped, ?_⟩
    intro all
    have started := all [] (FrameClient.start highMap) (Transition.run_nil _ _)
    rw [← start_allocator] at first
    have identity := started.1 (i * pageSize) first (i * pageSize) le_rfl
      (Nat.lt_add_of_pos_right (by decide))
    cases unmapped.symm.trans identity
  · cases (busy _ ((init_spec highMap).1.bounded _ free)).symm.trans free

/-! ## The framebuffer -/

/-- The processor's translation, which faults on an address that is not canonical. -/
def cpuTranslate (memory : Words) (pml4 vaddr : Nat) : Option Nat :=
  if vaddr < 2 ^ 47 ∨ 2 ^ 64 - 2 ^ 47 ≤ vaddr then translate memory pml4 vaddr else none

/-- The bootloader rounds the framebuffer's address down and its size up, so all its bytes are
mapped exactly if the rounded size still reaches the last one or it lies below 4 GiB. -/
theorem framebuffer_mapped_iff (kernel : KernelLoadInfo) (fb : FramebufferInfo) (nxEnabled : Bool)
    (machine after : BootMachine) (pml4 : Nat) (supply : BootMachine.Supply machine.pages)
    (kernelHigh : kernel.HigherHalf)
    (built : machine.setupKernelPageTables kernel fb nxEnabled = some (pml4, after)) :
    (∀ x, fb.address.toNat ≤ x → x < fb.address.toNat + fb.size.toNat →
        cpuTranslate after.memory pml4 x = some x) ↔
      fb.size.toNat = 0 ∨ fb.address.toNat + fb.size.toNat ≤ 2 ^ 47 ∧
        (fb.address.toNat + fb.size.toNat ≤ fourGib ∨
          fb.address.toNat % hugePageSize + fb.size.toNat ≤
            (fb.size.toNat + hugePageSize - 1) / hugePageSize * hugePageSize) := by
  generalize isFirst : fb.address.toNat = first
  generalize isSize : fb.size.toNat = size
  rcases Nat.eq_zero_or_pos size with rfl | positive
  · exact iff_of_true (fun x least most => absurd most (by omega)) (.inl rfl)
  by_cases low : first + size ≤ 2 ^ 47
  case neg =>
    refine iff_of_false (fun all => ?_) (by omega)
    have last := all (first + size - 1) (by omega) (by omega)
    rw [cpuTranslate] at last
    split at last
    · have bound := translate_lt last
      omega
    · cases last
  have pages : fbPages fb = (size + hugePageSize - 1) / hugePageSize := by
    rw [fbPages, pagesFor, isSize]
    unfold hugePageSize
    omega
  have maps := setupKernelPageTables_spec supply kernelHigh
    (by rw [pages, isFirst]; unfold hugePageSize; omega) built
  have mapped {x : Nat} (below : x < 2 ^ 47) : cpuTranslate after.memory pml4 x = some x ↔
      x / hugePageSize < fourGib / hugePageSize ∨ first / hugePageSize ≤ x / hugePageSize ∧
        x / hugePageSize < first / hugePageSize + (size + hugePageSize - 1) / hugePageSize := by
    rw [cpuTranslate, if_pos (.inl below), maps.translate_eq below, ite_eq_left_iff, mappedPages,
      Finset.mem_union, isFirst, pages]
    simp [or_iff_not_imp_left]
  unfold fourGib hugePageSize at *
  constructor
  · intro all
    have last := (mapped (by omega)).mp (all (first + size - 1) (by omega) (by omega))
    omega
  · intro reaches x least most
    refine (mapped (by omega)).mpr ?_
    omega

theorem lowFramebuffer_mapped : ∃ pml4 after,
    exampleMachine.setupKernelPageTables twoSegmentKernel lowFramebuffer true =
        some (pml4, after) ∧
      ∀ x, 0xC0000000 ≤ x → x < 0xC0000000 + 0x300000 →
        cpuTranslate after.memory pml4 x = some x := by
  obtain ⟨pml4, after, built⟩ := exampleMachine_builds lowFramebuffer (by decide)
  exact ⟨pml4, after, built, (framebuffer_mapped_iff twoSegmentKernel lowFramebuffer true
    exampleMachine after pml4 exampleMachine_supply twoSegmentKernel_higherHalf built).mpr
      (by decide)⟩

/-- A framebuffer of 2 MiB that starts one page behind 4 GiB. -/
def highFramebuffer : FramebufferInfo := ⟨0x100001000, 0x200000⟩

theorem highFramebuffer_unmapped : ∃ pml4 after,
    exampleMachine.setupKernelPageTables twoSegmentKernel highFramebuffer true =
        some (pml4, after) ∧
      0x100200000 < highFramebuffer.address.toNat + highFramebuffer.size.toNat ∧
      cpuTranslate after.memory pml4 0x100200000 = none := by
  obtain ⟨pml4, after, built⟩ := exampleMachine_builds highFramebuffer (by decide)
  have maps := setupKernelPageTables_spec exampleMachine_supply
    twoSegmentKernel_higherHalf (by decide) built
  have outside : 0x100200000 / hugePageSize ∉ mappedPages highFramebuffer := by
    rw [mappedPages, Finset.mem_union, Finset.mem_Ico]
    decide
  refine ⟨pml4, after, built, by decide, ?_⟩
  rw [cpuTranslate, if_pos (by decide), maps.translate_eq (show 0x100200000 < 2 ^ 47 by decide),
    if_neg outside]

end CantayaOS.Boot
