import CantayaOS.Shared.BootInfo

/-!
# The physical frame allocator

One bit of the bitmap stands for one 4 KiB frame, clear when the frame is
free.  The bitmap is a function from byte indices to bytes; every access is
guarded by `maxFrames` as in the source.
-/

namespace CantayaOS.Memory

open Shared List Nat

def pageSize : Nat := 4096

/-- Number of frames in the supported 16 GiB. -/
def maxFrames : Nat := 16 * 1024 * 1024 * 1024 / pageSize

/-- Physical memory: the value of the eight-byte word at each address. -/
abbrev Words : Type := Nat → Nat

/-- Allocator state: bitmap, highest tracked frame plus one, free counter and search hint. -/
structure FrameAllocator where
  bitmap : Nat → BitVec 8
  totalFrames : Nat
  freeFrames : Nat
  nextFreeHint : Nat

variable {fa : FrameAllocator} {i : Nat}

variable {addr count : Nat}

namespace FrameAllocator

def new : FrameAllocator where
  bitmap := fun _ => 0xFF#8
  totalFrames := 0
  freeFrames := 0
  nextFreeHint := 0

def markFree (fa : FrameAllocator) (frameIndex : Nat) : FrameAllocator :=
  if maxFrames ≤ frameIndex then fa
  else
    let byte := frameIndex / 8
    let bit := frameIndex % 8
    if fa.bitmap byte &&& (1#8 <<< bit) ≠ 0#8 then
      { fa with
        bitmap := Function.update fa.bitmap byte (fa.bitmap byte &&& ~~~(1#8 <<< bit))
        freeFrames := fa.freeFrames + 1 }
    else fa

/-- Mark a frame as allocated by setting its bit; the counter wraps below zero. -/
def markAllocated (fa : FrameAllocator) (frameIndex : Nat) : FrameAllocator :=
  if maxFrames ≤ frameIndex then fa
  else
    let byte := frameIndex / 8
    let bit := frameIndex % 8
    if fa.bitmap byte &&& (1#8 <<< bit) = 0#8 then
      { fa with
        bitmap := Function.update fa.bitmap byte (fa.bitmap byte ||| (1#8 <<< bit))
        freeFrames := (fa.freeFrames + (2 ^ 64 - 1)) % 2 ^ 64 }
    else fa

def isFree (fa : FrameAllocator) (frameIndex : Nat) : Bool :=
  if maxFrames ≤ frameIndex then false
  else decide (fa.bitmap (frameIndex / 8) &&& (1#8 <<< (frameIndex % 8)) = 0#8)

/-- Take one found frame: set its bit and move the hint behind it. -/
def takeFrame (fa : FrameAllocator) (i : Nat) : Option Nat × FrameAllocator :=
  (some (i * pageSize), { fa.markAllocated i with nextFreeHint := i + 1 })

/-- Allocate a single frame: search from the hint to the end, then from the start to the hint. -/
def allocateFrame (fa : FrameAllocator) : Option Nat × FrameAllocator :=
  let start := fa.nextFreeHint
  match (List.range' start (fa.totalFrames - start)).find? fa.isFree with
  | some i => fa.takeFrame i
  | none =>
    match (List.range start).find? fa.isFree with
    | some i => fa.takeFrame i
    | none => (none, fa)

def freeFrame (fa : FrameAllocator) (physicalAddr : Nat) : FrameAllocator :=
  let frameIndex := physicalAddr / pageSize
  let fa := fa.markFree frameIndex
  if frameIndex < fa.nextFreeHint then { fa with nextFreeHint := frameIndex } else fa

/-- The outer scan of the contiguous allocation over the remaining start frames. -/
def contiguousFrom (fa : FrameAllocator) (count : Nat) : List Nat → Option Nat × FrameAllocator
  | [] => (none, fa)
  | start :: rest =>
    if (start + count) % 2 ^ 64 > fa.totalFrames then (none, fa)
    else if (List.range count).all fun offset => fa.isFree (start + offset) then
      (some (start * pageSize),
        (List.range count).foldl (fun fa offset => fa.markAllocated (start + offset)) fa)
    else fa.contiguousFrom count rest

/-- Allocate `count` contiguous frames by a linear scan for the first free run. -/
def allocateContiguousFrames (fa : FrameAllocator) (count : Nat) : Option Nat × FrameAllocator :=
  fa.contiguousFrom count (List.range fa.totalFrames)

/-- The body of the initialisation loop for one frame of a usable region. -/
def initFrame (fa : FrameAllocator) (frame : Nat) : FrameAllocator :=
  if frame < maxFrames then
    let fa := fa.markFree frame
    if fa.totalFrames ≤ frame then { fa with totalFrames := frame + 1 } else fa
  else fa

/-- The body of the initialisation loop for one region: usable regions from 1 MiB on are freed.
The end of a region wraps, as in the release profile. -/
def initRegion (fa : FrameAllocator) (region : MemoryRegion) : FrameAllocator :=
  if region.kind ≠ .usable then fa
  else if region.base < 0x100000 then fa
  else
    let startFrame := region.base.toNat / pageSize
    let endFrame := (region.base + region.size).toNat / pageSize
    (List.range' startFrame (endFrame - startFrame)).foldl initFrame fa

def init (memoryMap : MemoryMap) : FrameAllocator :=
  memoryMap.regions.foldl initRegion new

/-! ## The bitmap as a set of free frames -/

theorem isFree_lt (free : fa.isFree i = true) : i < maxFrames := by
  unfold isFree at free
  split at free
  · cases free
  · omega

/-- The bit of the bitmap that stands for frame `i`. -/
def bitAt (bitmap : Nat → BitVec 8) (i : Nat) : Bool := (bitmap (i / 8)).getLsbD (i % 8)

/-- The source's mask test reads the selected bit. -/
theorem and_mask_eq_zero_iff (byte : BitVec 8) {bit : Nat} (small : bit < 8) :
    byte &&& (1#8 <<< bit) = 0#8 ↔ byte.getLsbD bit = false := by
  rw [← BitVec.twoPow_eq, BitVec.and_twoPow]
  have nonzero : BitVec.twoPow 8 bit ≠ 0#8 := by
    intro zero
    have selected := congrArg (fun x => x.getLsbD bit) zero
    simp [small] at selected
  cases byte.getLsbD bit with
  | false => simp
  | true => simp [nonzero]

variable (fa)

/-- Inside the bitmap a frame is free exactly when its bit is clear. -/
theorem isFree_eq_not_bit (inside : i < maxFrames) : fa.isFree i = !bitAt fa.bitmap i := by
  unfold isFree bitAt
  rw [if_neg inside.not_ge]
  cases bit : (fa.bitmap (i / 8)).getLsbD (i % 8) with
  | false => simp [and_mask_eq_zero_iff _ (mod_lt i (by decide)), bit]
  | true => simp [and_mask_eq_zero_iff _ (mod_lt i (by decide)), bit]

theorem bitAt_update {bitmap : Nat → BitVec 8} {value : BitVec 8} {bit : Bool} (i j : Nat)
    (stored : ∀ k < 8, value.getLsbD k = if k = i % 8 then bit else (bitmap (i / 8)).getLsbD k) :
    bitAt (Function.update bitmap (i / 8) value) j = if j = i then bit else bitAt bitmap j := by
  unfold bitAt
  by_cases sameByte : j / 8 = i / 8
  · rw [sameByte, Function.update_self, stored _ (mod_lt j (by decide))]
    by_cases same : j = i
    · rw [if_pos (by rw [same]), if_pos same]
    · have otherBit : j % 8 ≠ i % 8 := by omega
      rw [if_neg otherBit, if_neg same]
  · have distinct : j ≠ i := fun same => sameByte (by rw [same])
    rw [Function.update_of_ne sameByte, if_neg distinct]

theorem bitAt_markFree (inside : i < maxFrames) (j : Nat) :
    bitAt (fa.markFree i).bitmap j = if j = i then false else bitAt fa.bitmap j := by
  have small : i % 8 < 8 := mod_lt i (by decide)
  unfold markFree
  rw [if_neg inside.not_ge]
  by_cases clear : fa.bitmap (i / 8) &&& (1#8 <<< (i % 8)) = 0#8
  · rw [if_neg (not_not_intro clear)]
    have bit : bitAt fa.bitmap i = false := (and_mask_eq_zero_iff _ small).mp clear
    split
    · next same => rw [same, bit]
    · rfl
  rw [if_pos clear]
  apply bitAt_update
  intro k bound
  rw [← BitVec.twoPow_eq]
  by_cases same : k = i % 8
  · simp [same]
  · simp [same, bound]

theorem bitAt_markAllocated (inside : i < maxFrames) (j : Nat) :
    bitAt (fa.markAllocated i).bitmap j = if j = i then true else bitAt fa.bitmap j := by
  have small : i % 8 < 8 := mod_lt i (by decide)
  unfold markAllocated
  rw [if_neg inside.not_ge]
  by_cases clear : fa.bitmap (i / 8) &&& (1#8 <<< (i % 8)) = 0#8
  · rw [if_pos clear]
    apply bitAt_update
    intro k bound
    rw [← BitVec.twoPow_eq]
    by_cases same : k = i % 8
    · simp [same, small]
    · simp [same, bound]
  · rw [if_neg clear]
    have bit : bitAt fa.bitmap i = true := by
      rw [and_mask_eq_zero_iff _ small] at clear
      simpa [bitAt] using clear
    split
    · next same => rw [same, bit]
    · rfl

theorem isFree_markFree (i j : Nat) :
    (fa.markFree i).isFree j = (fa.isFree j || (decide (j = i) && decide (i < maxFrames))) := by
  by_cases tested : j < maxFrames
  · by_cases inside : i < maxFrames
    · rw [isFree_eq_not_bit _ tested, isFree_eq_not_bit _ tested, bitAt_markFree _ inside]
      by_cases same : j = i
      · simp [same, inside]
      · simp [same]
    · have guard : maxFrames ≤ i := by omega
      simp [markFree, guard]
  · have outside : maxFrames ≤ j := by omega
    have bound : ¬ (j = i ∧ i < maxFrames) := by omega
    simpa [isFree, outside] using bound

theorem isFree_markAllocated (i j : Nat) :
    (fa.markAllocated i).isFree j = (fa.isFree j && decide (j ≠ i)) := by
  by_cases tested : j < maxFrames
  · by_cases inside : i < maxFrames
    · rw [isFree_eq_not_bit _ tested, isFree_eq_not_bit _ tested, bitAt_markAllocated _ inside]
      by_cases same : j = i
      · simp [same]
      · simp [same]
    · have distinct : j ≠ i := by omega
      have guard : maxFrames ≤ i := by omega
      simp [markAllocated, guard, distinct]
  · have outside : maxFrames ≤ j := by omega
    simp [isFree, outside]

@[simp] theorem totalFrames_markFree (i : Nat) : (fa.markFree i).totalFrames = fa.totalFrames := by
  unfold markFree
  split
  · rfl
  · dsimp only
    split <;> rfl

@[simp] theorem totalFrames_markAllocated (i : Nat) :
    (fa.markAllocated i).totalFrames = fa.totalFrames := by
  unfold markAllocated
  split
  · rfl
  · dsimp only
    split <;> rfl

variable {fa}

def freeSet (fa : FrameAllocator) : Finset Nat :=
  (Finset.range maxFrames).filter fun i => fa.isFree i = true

@[simp] theorem mem_freeSet : i ∈ fa.freeSet ↔ fa.isFree i = true := by
  unfold freeSet
  rw [Finset.mem_filter, Finset.mem_range]
  exact ⟨fun found => found.2, fun free => ⟨isFree_lt free, free⟩⟩

variable (fa)

theorem freeSet_markFree (inside : i < maxFrames) :
    (fa.markFree i).freeSet = insert i fa.freeSet := by
  ext j
  simp [isFree_markFree, inside, or_comm]

theorem freeSet_markAllocated (i : Nat) : (fa.markAllocated i).freeSet = fa.freeSet.erase i := by
  ext j
  simp [isFree_markAllocated, and_comm]

theorem card_freeSet_le : fa.freeSet.card ≤ maxFrames := by
  have bound := Finset.card_filter_le (Finset.range maxFrames) fun i => fa.isFree i = true
  simpa [freeSet] using bound

/-- The counter agrees with the bitmap and every free frame is tracked. -/
structure Coherent (fa : FrameAllocator) : Prop where
  counted : fa.freeFrames = fa.freeSet.card
  bounded : ∀ i, fa.isFree i = true → i < fa.totalFrames

/-- The mask test of the source decides membership in the free set. -/
theorem mask_clear_iff_mem (inside : i < maxFrames) :
    fa.bitmap (i / 8) &&& (1#8 <<< (i % 8)) = 0#8 ↔ i ∈ fa.freeSet := by
  rw [mem_freeSet, isFree_eq_not_bit fa inside, and_mask_eq_zero_iff _ (mod_lt i (by decide))]
  simp [bitAt]

theorem freeFrames_markFree (counted : fa.freeFrames = fa.freeSet.card)
    (i : Nat) : (fa.markFree i).freeFrames = (fa.markFree i).freeSet.card := by
  by_cases inside : i < maxFrames
  · rw [freeSet_markFree fa inside]
    unfold markFree
    rw [if_neg inside.not_ge]
    by_cases clear : fa.bitmap (i / 8) &&& (1#8 <<< (i % 8)) = 0#8
    · have member := (fa.mask_clear_iff_mem inside).mp clear
      rw [if_neg (not_not_intro clear), Finset.insert_eq_self.mpr member, counted]
    · have absent := fun member => clear ((fa.mask_clear_iff_mem inside).mpr member)
      rw [if_pos clear, Finset.card_insert_of_notMem absent, ← counted]
  · have guard : maxFrames ≤ i := by omega
    simpa [markFree, guard] using counted

theorem freeFrames_markAllocated (counted : fa.freeFrames = fa.freeSet.card)
    (i : Nat) : (fa.markAllocated i).freeFrames = (fa.markAllocated i).freeSet.card := by
  rw [freeSet_markAllocated]
  by_cases inside : i < maxFrames
  · unfold markAllocated
    rw [if_neg inside.not_ge]
    by_cases clear : fa.bitmap (i / 8) &&& (1#8 <<< (i % 8)) = 0#8
    · have member := (fa.mask_clear_iff_mem inside).mp clear
      have positive : 0 < fa.freeSet.card := Finset.card_pos.mpr ⟨i, member⟩
      have bound : fa.freeSet.card < 2 ^ 64 :=
        lt_of_le_of_lt fa.card_freeSet_le (by decide)
      rw [if_pos clear, Finset.card_erase_of_mem member]
      dsimp only
      omega
    · have absent := fun member => clear ((fa.mask_clear_iff_mem inside).mpr member)
      rw [if_neg clear, Finset.erase_eq_of_notMem absent, counted]
  · have guard : maxFrames ≤ i := by omega
    have absent : i ∉ fa.freeSet := fun member => inside (isFree_lt (mem_freeSet.mp member))
    rw [Finset.erase_eq_of_notMem absent]
    simpa [markAllocated, guard] using counted

variable {fa}

theorem Coherent.markAllocated (coherent : Coherent fa) (i : Nat) :
    Coherent (fa.markAllocated i) := by
  refine ⟨freeFrames_markAllocated fa coherent.counted i, ?_⟩
  intro j free
  rw [isFree_markAllocated, Bool.and_eq_true] at free
  rw [totalFrames_markAllocated]
  exact coherent.bounded j free.1

/-- Mark a run of frames as allocated, as the contiguous allocation does once it has found one. -/
def markRun (fa : FrameAllocator) (start count : Nat) : FrameAllocator :=
  (List.range count).foldl (fun fa offset => fa.markAllocated (start + offset)) fa

variable (fa)

theorem markRun_succ (start count : Nat) :
    fa.markRun start (count + 1) = (fa.markRun start count).markAllocated (start + count) := by
  simp [markRun, range_succ]

theorem isFree_markRun (start count j : Nat) :
    (fa.markRun start count).isFree j =
      (fa.isFree j && !decide (start ≤ j ∧ j < start + count)) := by
  induction count with
  | zero =>
    have empty : ¬ (start ≤ j ∧ j < start + 0) := by omega
    rw [decide_eq_false empty]
    simp [markRun]
  | succ count ih =>
    rw [markRun_succ, isFree_markAllocated, ih]
    by_cases last : j = start + count
    · simp [last]
    · have same : (start ≤ j ∧ j < start + count) ↔ (start ≤ j ∧ j < start + (count + 1)) := by
        omega
      simp [last, same]

@[simp] theorem totalFrames_markRun (start count : Nat) :
    (fa.markRun start count).totalFrames = fa.totalFrames := by
  induction count with
  | zero => rfl
  | succ count ih => rw [markRun_succ, totalFrames_markAllocated, ih]

variable {fa}

theorem Coherent.markRun (coherent : Coherent fa) (start count : Nat) :
    Coherent (fa.markRun start count) := by
  induction count with
  | zero => exact coherent
  | succ count ih =>
    rw [markRun_succ]
    exact ih.markAllocated _

/-! ## What each operation does -/

def FreeRun (fa : FrameAllocator) (start count : Nat) : Prop :=
  ∀ offset < count, fa.isFree (start + offset) = true

variable (fa)

/--
Allocating a frame either takes a free frame or reports that no tracked frame
is free.  The two scans together cover every tracked frame.
-/
theorem allocateFrame_cases :
    (∃ i, fa.isFree i = true ∧ fa.allocateFrame = fa.takeFrame i) ∨
      (fa.allocateFrame = (none, fa) ∧ ∀ i < fa.totalFrames, fa.isFree i = false) := by
  unfold allocateFrame
  dsimp only
  split
  · next i found => exact .inl ⟨i, find?_some found, rfl⟩
  next upper =>
    split
    · next i found => exact .inl ⟨i, find?_some found, rfl⟩
    next lower =>
      refine .inr ⟨rfl, ?_⟩
      intro i tracked
      rw [find?_eq_none] at upper lower
      by_cases below : i < fa.nextFreeHint
      · simpa using lower i (mem_range.mpr below)
      · have member : i ∈ List.range' fa.nextFreeHint (fa.totalFrames - fa.nextFreeHint) := by
          rw [mem_range'_1]
          omega
        simpa using upper i member

/-- The scan over the start frames from `first` on finds the lowest free run there. -/
theorem contiguousFrom_cases (positive : 0 < count)
    (first remaining : Nat) (scanned : first + remaining = fa.totalFrames) :
    (∃ start, first ≤ start ∧ start + count ≤ fa.totalFrames ∧ fa.FreeRun start count ∧
        (∀ lower, first ≤ lower → lower < start → ¬ fa.FreeRun lower count) ∧
        fa.contiguousFrom count (List.range' first remaining) =
          (some (start * pageSize), fa.markRun start count)) ∨
      (fa.contiguousFrom count (List.range' first remaining) = (none, fa) ∧
        ∀ start, first ≤ start → start + count ≤ fa.totalFrames →
          ¬ fa.FreeRun start count) := by
  induction remaining generalizing first with
  | zero =>
    refine .inr ⟨rfl, ?_⟩
    intro start later within
    omega
  | succ remaining ih =>
    rw [range'_succ, contiguousFrom]
    by_cases beyond : (first + count) % 2 ^ 64 > fa.totalFrames
    · rw [if_pos beyond]
      refine .inr ⟨rfl, ?_⟩
      intro start later within
      have unwrapped := mod_le (first + count) (2 ^ 64)
      omega
    rw [if_neg beyond]
    by_cases here : (List.range count).all fun offset => fa.isFree (first + offset)
    · rw [if_pos here]
      have free : fa.FreeRun first count := fun offset bound =>
        List.all_eq_true.mp here offset (mem_range.mpr bound)
      -- A free run lies below the frame limit, so its end did not wrap.
      have last : first + (count - 1) < 2 ^ 22 := isFree_lt (free (count - 1) (by omega))
      refine .inl ⟨first, le_rfl, by omega, free, ?_, rfl⟩
      intro lower least below
      omega
    · rw [if_neg here]
      have busy : ¬ fa.FreeRun first count := by
        intro free
        apply here
        rw [List.all_eq_true]
        intro offset member
        exact free offset (mem_range.mp member)
      have exclude : ∀ start, first ≤ start → fa.FreeRun start count → first + 1 ≤ start := by
        intro start later free
        rcases eq_or_lt_of_le later with same | less
        · exact absurd (same ▸ free) busy
        · exact less
      rcases ih (first + 1) (by omega) with
        ⟨start, later, within, free, lowest, found⟩ | ⟨refused, absent⟩
      · refine .inl ⟨start, by omega, within, free, ?_, found⟩
        intro lower least below run
        exact lowest lower (exclude lower least run) below run
      · refine .inr ⟨refused, ?_⟩
        intro start later within run
        exact absent start (exclude start later run) within run

/--
The contiguous allocation takes the lowest run of `count` free frames and
leaves the allocator alone when there is none.
-/
theorem allocateContiguousFrames_cases (positive : 0 < count)
    (bounded : ∀ i, fa.isFree i = true → i < fa.totalFrames) :
    (∃ start, fa.FreeRun start count ∧ (∀ lower < start, ¬ fa.FreeRun lower count) ∧
        fa.allocateContiguousFrames count =
          (some (start * pageSize), fa.markRun start count)) ∨
      (fa.allocateContiguousFrames count = (none, fa) ∧ ∀ start, ¬ fa.FreeRun start count) := by
  unfold allocateContiguousFrames
  rw [range_eq_range']
  rcases contiguousFrom_cases fa positive 0 fa.totalFrames (zero_add _) with
    ⟨start, _, _, free, lowest, found⟩ | ⟨refused, absent⟩
  · exact .inl ⟨start, free, fun lower => lowest lower (Nat.zero_le _), found⟩
  · refine .inr ⟨refused, fun start free => absent start (Nat.zero_le _) ?_ free⟩
    have tracked := bounded _ (free (count - 1) (by omega))
    omega

/-- For every state: the lowest free run below the end is taken, or nothing if there is none. -/
theorem allocateContiguousFrames_takes_lowest {count : Nat} (positive : 1 ≤ count) :
    (∃ start, start + count ≤ fa.totalFrames ∧ fa.FreeRun start count ∧
        (∀ lower < start, ¬ fa.FreeRun lower count) ∧
        (fa.allocateContiguousFrames count).1 = some (start * pageSize) ∧
        ∀ i, (fa.allocateContiguousFrames count).2.isFree i =
          (fa.isFree i && !decide (start ≤ i ∧ i < start + count))) ∨
      (fa.allocateContiguousFrames count = (none, fa) ∧
        ∀ start, start + count ≤ fa.totalFrames → ¬ fa.FreeRun start count) := by
  unfold allocateContiguousFrames
  rw [range_eq_range']
  rcases contiguousFrom_cases fa positive 0 fa.totalFrames (zero_add _) with
    ⟨start, _, within, free, lowest, found⟩ | ⟨refused, absent⟩
  · rw [found]
    exact .inl ⟨start, within, free, fun lower => lowest lower (Nat.zero_le _), rfl,
      isFree_markRun fa start count⟩
  · exact .inr ⟨refused, fun start => absent start (Nat.zero_le _)⟩

theorem allocateContiguousFrames_takes_lowest_pair :
    ∃ fa : FrameAllocator, fa.totalFrames = 8 ∧ (fa.allocateContiguousFrames 2).1 ≠ none := by
  refine ⟨{ new with bitmap := fun _ => 0, totalFrames := 8 }, rfl, ?_⟩
  rcases allocateContiguousFrames_takes_lowest _ (show 1 ≤ 2 by decide) with
    ⟨start, -, -, -, found, -⟩ | ⟨-, absent⟩
  · rw [found]
    nofun
  · exact absurd (by unfold FreeRun; decide) (absent 0 (by decide))

theorem isFree_freeFrame (addr j : Nat) :
    (fa.freeFrame addr).isFree j = (fa.markFree (addr / pageSize)).isFree j := by
  unfold freeFrame
  dsimp only
  split <;> rfl

theorem freeSet_freeFrame (inside : addr / pageSize < maxFrames) :
    (fa.freeFrame addr).freeSet = insert (addr / pageSize) fa.freeSet := by
  rw [← freeSet_markFree fa inside]
  ext j
  rw [mem_freeSet, mem_freeSet, isFree_freeFrame]

variable {fa}

theorem Coherent.freeFrame (coherent : Coherent fa)
    (tracked : addr / pageSize < fa.totalFrames) : Coherent (fa.freeFrame addr) := by
  have marked : Coherent (fa.markFree (addr / pageSize)) := by
    refine ⟨freeFrames_markFree fa coherent.counted _, ?_⟩
    intro j free
    rw [isFree_markFree, Bool.or_eq_true, Bool.and_eq_true, decide_eq_true_eq] at free
    rw [totalFrames_markFree]
    rcases free with free | ⟨same, _⟩
    · exact coherent.bounded j free
    · rw [same]
      exact tracked
  unfold FrameAllocator.freeFrame
  dsimp only
  split
  · exact ⟨marked.counted, marked.bounded⟩
  · exact marked

@[simp] theorem totalFrames_freeFrame (fa : FrameAllocator) (addr : Nat) :
    (fa.freeFrame addr).totalFrames = fa.totalFrames := by
  unfold FrameAllocator.freeFrame
  dsimp only
  split
  · exact totalFrames_markFree fa _
  · exact totalFrames_markFree fa _

theorem Coherent.takeFrame (coherent : Coherent fa) (i : Nat) : Coherent (fa.takeFrame i).2 :=
  ⟨(coherent.markAllocated i).counted, (coherent.markAllocated i).bounded⟩

theorem isFree_takeFrame (fa : FrameAllocator) (i j : Nat) :
    (fa.takeFrame i).2.isFree j = (fa.isFree j && decide (j ≠ i)) :=
  isFree_markAllocated fa i j

/-! ## The frames that initialisation frees -/

/-- The initialisation frees frame `i` on account of `region`. -/
def Frees (region : MemoryRegion) (i : Nat) : Prop :=
  region.kind = .usable ∧ ¬ region.base < 0x100000 ∧
    region.base.toNat / pageSize ≤ i ∧ i < (region.base + region.size).toNat / pageSize

theorem new_coherent : Coherent new := by
  have used : ∀ i, new.isFree i = false := by
    intro i
    by_cases inside : i < maxFrames
    · have small : i % 8 < 8 := mod_lt i (by decide)
      have ones : ∀ k < 8, (0xFF#8).getLsbD k = true := by decide
      rw [isFree_eq_not_bit _ inside]
      simp [bitAt, new, ones _ small]
    · have outside : maxFrames ≤ i := by omega
      simp [isFree, outside]
  refine ⟨?_, ?_⟩
  · have empty : new.freeSet = ∅ := by
      ext i
      simp [used i]
    rw [empty]
    rfl
  · intro i free
    rw [used i] at free
    cases free

theorem isFree_initFrame (fa : FrameAllocator) (frame j : Nat) :
    (fa.initFrame frame).isFree j =
      (fa.isFree j || (decide (j = frame) && decide (frame < maxFrames))) := by
  unfold initFrame
  by_cases inside : frame < maxFrames
  · rw [if_pos inside, ← isFree_markFree]
    dsimp only
    split <;> rfl
  · simp [inside]

theorem Coherent.initFrame (coherent : Coherent fa) (frame : Nat) :
    Coherent (fa.initFrame frame) := by
  have counted := freeFrames_markFree fa coherent.counted frame
  by_cases inside : frame < maxFrames
  · refine ⟨?_, ?_⟩
    · unfold FrameAllocator.initFrame
      rw [if_pos inside]
      dsimp only
      split <;> exact counted
    · intro j free
      rw [isFree_initFrame, Bool.or_eq_true, Bool.and_eq_true, decide_eq_true_eq] at free
      unfold FrameAllocator.initFrame
      rw [if_pos inside]
      dsimp only
      split
      next high =>
        rw [totalFrames_markFree] at high
        dsimp only
        rcases free with free | ⟨same, _⟩
        · have tracked := coherent.bounded j free
          omega
        · omega
      next low =>
        rw [totalFrames_markFree] at low ⊢
        rcases free with free | ⟨same, _⟩
        · exact coherent.bounded j free
        · omega
  · simpa [FrameAllocator.initFrame, inside] using coherent

theorem foldl_frees {α : Type} {f : FrameAllocator → α → FrameAllocator} {I : FrameAllocator → Prop}
    {Q : α → Nat → Prop} (step : ∀ fa a, I fa →
      I (f fa a) ∧ ∀ j, (f fa a).isFree j = true ↔ fa.isFree j = true ∨ Q a j)
    (items : List α) (start : I fa) :
    I (items.foldl f fa) ∧
      ∀ j, (items.foldl f fa).isFree j = true ↔ fa.isFree j = true ∨ ∃ a ∈ items, Q a j := by
  induction items generalizing fa with
  | nil => exact ⟨start, fun j => by simp⟩
  | cons a rest ih =>
    obtain ⟨kept, freed⟩ := step fa a start
    obtain ⟨last, others⟩ := ih kept
    refine ⟨last, fun j => ?_⟩
    rw [foldl_cons, others, freed, or_assoc]
    simp

theorem isFree_foldl_freeFrame (calls : List Nat) (fa : FrameAllocator) (j : Nat) :
    (calls.foldl freeFrame fa).isFree j = true ↔
      fa.isFree j = true ∨ j ∈ calls.map (· / pageSize) ∧ j < maxFrames := by
  refine ((foldl_frees (I := fun _ => True) (Q := fun call j => call / pageSize = j ∧ j < maxFrames)
    (fun _ call _ => ⟨trivial, fun j => ?_⟩) calls trivial).2 j).trans (or_congr_right ?_)
  · rw [isFree_freeFrame, isFree_markFree]
    simp only [Bool.or_eq_true, Bool.and_eq_true, decide_eq_true_eq]
    refine or_congr_right ⟨?_, ?_⟩ <;>
      exact fun ⟨same, inside⟩ => ⟨same.symm, same ▸ inside⟩
  · simp only [mem_map, ← and_assoc, exists_and_right]

theorem foldl_initFrame (frames : List Nat) (coherent : Coherent fa) :
    Coherent (frames.foldl initFrame fa) ∧
      ∀ j, (frames.foldl initFrame fa).isFree j = true ↔
        fa.isFree j = true ∨ (j ∈ frames ∧ j < maxFrames) := by
  obtain ⟨after, free⟩ := foldl_frees (I := Coherent)
    (Q := fun frame j => j = frame ∧ frame < maxFrames)
    (fun _ frame coherent => ⟨coherent.initFrame frame, fun j => by simp [isFree_initFrame]⟩)
    frames coherent
  refine ⟨after, fun j => (free j).trans (or_congr_right ?_)⟩
  constructor
  · rintro ⟨_, member, rfl, inside⟩
    exact ⟨member, inside⟩
  · exact fun ⟨member, inside⟩ => ⟨j, member, rfl, inside⟩

theorem initRegion_spec (coherent : Coherent fa) (region : MemoryRegion) :
    Coherent (fa.initRegion region) ∧
      ∀ j, (fa.initRegion region).isFree j = true ↔
        fa.isFree j = true ∨ (Frees region j ∧ j < maxFrames) := by
  unfold initRegion Frees
  by_cases usable : region.kind = .usable
  · by_cases low : region.base < 0x100000
    · simp [low, coherent]
    · rw [if_neg (not_not_intro usable), if_neg low]
      obtain ⟨after, free⟩ := foldl_initFrame
        (List.range' (region.base.toNat / pageSize)
          ((region.base + region.size).toNat / pageSize - region.base.toNat / pageSize)) coherent
      refine ⟨after, ?_⟩
      intro j
      rw [free j, mem_range'_1]
      have span : (region.base.toNat / pageSize ≤ j ∧
          j < region.base.toNat / pageSize + ((region.base + region.size).toNat / pageSize -
            region.base.toNat / pageSize)) ↔
          (region.base.toNat / pageSize ≤ j ∧ j < (region.base + region.size).toNat / pageSize) := by
        omega
      simp only [span, usable, low, not_false_eq_true, true_and]
  · simp [usable, coherent]

/-- Initialisation leaves a coherent allocator whose free frames are those of the usable regions. -/
theorem init_spec (memoryMap : MemoryMap) :
    Coherent (init memoryMap) ∧
      ∀ j, (init memoryMap).isFree j = true ↔
        j < maxFrames ∧ ∃ region ∈ memoryMap.regions, Frees region j := by
  obtain ⟨coherent, free⟩ := foldl_frees (I := Coherent)
    (fun _ region coherent => initRegion_spec coherent region) memoryMap.regions new_coherent
  refine ⟨coherent, fun j => (free j).trans ?_⟩
  constructor
  · rintro (found | ⟨region, member, frees, inside⟩)
    · exact absurd (new_coherent.bounded j found) (Nat.not_lt_zero j)
    · exact ⟨inside, region, member, frees⟩
  · rintro ⟨inside, region, member, frees⟩
    exact .inr ⟨region, member, frees, inside⟩

/-- The frame lies at or above 1 MiB and wholly inside the usable region. -/
def Offers (region : MemoryRegion) (frame : Nat) : Prop :=
  region.kind = .usable ∧ 0x100000 ≤ frame * pageSize ∧ region.base.toNat ≤ frame * pageSize ∧
    (frame + 1) * pageSize ≤ region.base.toNat + region.size.toNat

theorem not_below_mebibyte {base : UInt64} : ¬ base < 0x100000 ↔ 0x100000 ≤ base.toNat := by
  rw [UInt64.lt_iff_toNat_lt, not_lt]
  rfl

/-- A region that starts at a page boundary frees only frames that lie inside it. -/
theorem Frees.inside {region : MemoryRegion} (frees : Frees region i)
    (aligned : pageSize ∣ region.base.toNat) :
    0x100000 ≤ region.base.toNat ∧ region.base.toNat ≤ i * pageSize ∧
      (i + 1) * pageSize ≤ (region.base.toNat + region.size.toNat) % 2 ^ 64 := by
  obtain ⟨_, high, first, last⟩ := frees
  rw [UInt64.toNat_add] at last
  unfold pageSize at *
  exact ⟨not_below_mebibyte.mp high, by omega, by omega⟩

/--
On a map of disjoint regions that are made of whole pages, initialisation frees
every frame below 16 GiB that a usable region offers, if and only if every
region that offers such a frame starts at or above 1 MiB and ends below the
last address.
-/
theorem init_complete_iff (memoryMap : MemoryMap)
    (aligned : ∀ region ∈ memoryMap.regions,
      pageSize ∣ region.base.toNat ∧ pageSize ∣ region.size.toNat)
    (apart : Apart memoryMap.regions) :
    (∀ region ∈ memoryMap.regions, ∀ frame < maxFrames, Offers region frame →
      (init memoryMap).isFree frame = true) ↔
    ∀ region ∈ memoryMap.regions, (∃ frame < maxFrames, Offers region frame) →
      0x100000 ≤ region.base.toNat ∧ region.base.toNat + region.size.toNat < 2 ^ 64 := by
  constructor
  · rintro complete region member ⟨frame, tracked, offers⟩
    have free := complete region member frame tracked offers
    obtain ⟨_, other, otherMember, frees⟩ := ((init_spec memoryMap).2 frame).mp free
    obtain ⟨high, first, last⟩ := frees.inside (aligned other otherMember).1
    obtain ⟨_, _, starts, ends⟩ := offers
    have small := region.size.toNat_lt
    -- The first byte of the frame belongs to both regions, so they are one.
    obtain rfl : other = region := apart.eq_of_covers otherMember member
      ⟨first, by unfold pageSize at *; omega⟩ ⟨starts, by unfold pageSize at *; omega⟩
    refine ⟨high, ?_⟩
    unfold pageSize at *
    omega
  · intro proper region member frame tracked offers
    obtain ⟨high, bounded⟩ := proper region member ⟨frame, tracked, offers⟩
    obtain ⟨usable, _, starts, ends⟩ := offers
    refine ((init_spec memoryMap).2 frame).mpr ⟨tracked, region, member, usable,
      not_below_mebibyte.mpr high, ?_, ?_⟩
    · unfold pageSize at *
      omega
    · rw [UInt64.toNat_add]
      unfold pageSize at *
      omega

/-- A usable region of three frames that starts one frame below 1 MiB. -/
def straddlingMap : MemoryMap := ⟨[⟨0xFF000, 0x3000, .usable⟩], by decide⟩

/-- The frame at 1 MiB of that region is not freed. -/
theorem init_straddling : Apart straddlingMap.regions ∧
    ∃ region ∈ straddlingMap.regions, pageSize ∣ region.base.toNat ∧ pageSize ∣ region.size.toNat ∧
      Offers region 0x100 ∧ 0x100 < maxFrames ∧ (init straddlingMap).isFree 0x100 = false :=
  ⟨pairwise_singleton .., _, mem_singleton_self _, by decide, by decide,
    ⟨rfl, by decide, by decide, by decide⟩, by decide, by decide +kernel⟩

/-- A map with one usable region of four frames at 1 MiB meets the condition. -/
theorem init_complete_one : ∃ memoryMap : MemoryMap,
    memoryMap.regions = [⟨0x100000, 0x4000, .usable⟩] ∧ (init memoryMap).isFree 0x101 = true := by
  refine ⟨⟨[⟨0x100000, 0x4000, .usable⟩], by decide⟩, rfl, ?_⟩
  have apart : Apart [⟨0x100000, 0x4000, .usable⟩] := pairwise_singleton ..
  refine (init_complete_iff _ ?_ apart).mpr ?_ _ (mem_singleton_self _)
    0x101 (by decide) ⟨rfl, by decide, by decide, by decide⟩
  · exact forall_mem_singleton.mpr ⟨by decide, by decide⟩
  · exact forall_mem_singleton.mpr fun _ => ⟨by decide, by decide⟩

end FrameAllocator

end CantayaOS.Memory
