import CantayaOS.Memory.HeapChain

/-!
# The heap's blocks tile its regions

The blocks of the heap, free or handed out, cover every address of the heap's
regions exactly once.  Splitting, coalescing and growth keep the tiling; the
specifications of `tryAllocate`, `grow` and `deallocate` below say what each
does to the free list, to the handed-out blocks and to all other memory.
-/

namespace CantayaOS.Memory

open Lib Lib.Word Span FreeBlock List Option Function

/-- The blocks are large enough for a header, word aligned, and tile the regions. -/
structure Tiling (regions blocks : List Span) : Prop where
  large : ∀ block ∈ blocks, FreeBlock.minSize ≤ block.size
  aligned : ∀ block ∈ blocks, 8 ∣ block.base ∧ 8 ∣ block.size
  tiles : ∀ x, Span.cover blocks x = Span.cover regions x
  once : ∀ x, Span.cover regions x ≤ 1
  low : ∀ x, 0 < Span.cover regions x → x < 2 ^ 34

variable {w fuel : Nat}

variable {addr base first second : Nat} {result : Option Placement} {frames : FrameAllocator}

namespace Tiling

variable {regions blocks others : List Span} {block : Span}

section

variable (tiling : Tiling regions blocks)
include tiling

theorem perm (same : blocks.Perm others) : Tiling regions others where
  large b member := tiling.large b (same.mem_iff.mpr member)
  aligned b member := tiling.aligned b (same.mem_iff.mpr member)
  tiles x := (cover_perm same x).symm.trans (tiling.tiles x)
  once := tiling.once
  low := tiling.low

theorem apart : blocks.Pairwise Span.Apart := by
  apply pairwise_apart
  intro x
  rw [tiling.tiles]
  exact tiling.once x

theorem separate : Separate blocks := by
  unfold Separate
  rw [pairwise_map]
  refine tiling.apart.imp_of_mem ?_
  intro b c first second apart
  have firstLarge := tiling.large b first
  have secondLarge := tiling.large c second
  have ordered := apart.ordered (by unfold minSize at firstLarge; omega)
    (by unfold minSize at secondLarge; omega)
  unfold stop at ordered
  unfold Clear
  omega

theorem stop_le (member : block ∈ blocks) : block.stop ≤ 2 ^ 34 := by
  have large := tiling.large block member
  unfold minSize at large
  have inside : block.Contains (block.stop - 1) := by
    unfold Span.Contains stop
    omega
  have covered := cover_pos member inside
  rw [tiling.tiles] at covered
  have bound := tiling.low _ covered
  omega

end

theorem covered_of_header (large : ∀ b ∈ blocks, minSize ≤ b.size)
    (inside : InHeader blocks w) : 0 < cover blocks w := by
  obtain ⟨b, member, lower, upper⟩ := inside
  apply cover_pos member
  have bound := large b member
  unfold Span.Contains stop
  omega

theorem split (tiling : Tiling regions (⟨base, first + second⟩ :: others))
    (firstLarge : minSize ≤ first) (secondLarge : minSize ≤ second) (firstAligned : 8 ∣ first) :
    Tiling regions (⟨base, first⟩ :: ⟨base + first, second⟩ :: others) := by
  obtain ⟨_, othersLarge⟩ := List.forall_mem_cons.mp tiling.large
  obtain ⟨⟨baseAligned, sizeAligned⟩, othersAligned⟩ := List.forall_mem_cons.mp tiling.aligned
  have secondAligned : 8 ∣ second := (Nat.dvd_add_right firstAligned).mp sizeAligned
  refine ⟨?_, ?_, ?_, tiling.once, tiling.low⟩
  · exact List.forall_mem_cons.mpr
      ⟨firstLarge, List.forall_mem_cons.mpr ⟨secondLarge, othersLarge⟩⟩
  · exact List.forall_mem_cons.mpr ⟨⟨baseAligned, firstAligned⟩,
      List.forall_mem_cons.mpr ⟨⟨Nat.dvd_add baseAligned firstAligned, secondAligned⟩,
        othersAligned⟩⟩
  · intro x
    rw [← cover_merge]
    exact tiling.tiles x

theorem grow (tiling : Tiling regions blocks) (region : Span)
    (large : minSize ≤ region.size) (aligned : 8 ∣ region.base ∧ 8 ∣ region.size)
    (bounded : region.stop ≤ 2 ^ 34) (fresh : ∀ x, region.Contains x → cover regions x = 0) :
    Tiling (region :: regions) (region :: blocks) := by
  refine ⟨forall_mem_cons.mpr ⟨large, tiling.large⟩,
    forall_mem_cons.mpr ⟨aligned, tiling.aligned⟩, ?_, ?_, ?_⟩
  · intro x
    rw [cover_cons, cover_cons, tiling.tiles]
  · intro x
    rw [cover_cons]
    by_cases inside : region.Contains x
    · rw [if_pos inside, fresh x inside]
    · rw [if_neg inside, zero_add]
      exact tiling.once x
  · intro x covered
    rw [cover_cons] at covered
    by_cases inside : region.Contains x
    · exact inside.2.trans_le bounded
    · rw [if_neg inside, zero_add] at covered
      exact tiling.low x covered

theorem insertBlock {pre post used : List Span}
    (tiling : Tiling regions (pre ++ block :: post ++ used)) :
    Tiling regions (insertBlock pre block post ++ used) := by
  obtain ⟨large, usedLarge⟩ := forall_mem_append.mp tiling.large
  obtain ⟨aligned, usedAligned⟩ := forall_mem_append.mp tiling.aligned
  refine ⟨forall_mem_append.mpr ⟨forall_insertBlock ?_ large, usedLarge⟩,
    forall_mem_append.mpr ⟨forall_insertBlock ?_ aligned, usedAligned⟩, fun x => ?_,
    tiling.once, tiling.low⟩
  · exact fun a b first _ _ => first.trans (Nat.le_add_right _ _)
  · exact fun a b first second _ => ⟨first.1, dvd_add first.2 second.2⟩
  · rw [cover_append, cover_insertBlock, ← cover_append]
    exact tiling.tiles x

end Tiling

theorem Layout.room (layout : Layout) : layout.size + layout.align ≤ 2 ^ 63 := by
  obtain ⟨size, align, ⟨k, small, rfl⟩, fits⟩ := layout
  simp only at *
  have positive : 0 < 2 ^ k := Nat.two_pow_pos k
  obtain ⟨c, shape⟩ : 2 ^ k ∣ 2 ^ 63 := Nat.pow_dvd_pow 2 (by omega)
  have rounded := Nat.lt_div_mul_add (a := size + 2 ^ k - 1) positive
  have below : (size + 2 ^ k - 1) / 2 ^ k * 2 ^ k < c * 2 ^ k := by
    rw [Nat.mul_comm c]
    omega
  have quotient := Nat.lt_of_mul_lt_mul_right below
  have whole := Nat.mul_le_mul_right (2 ^ k) quotient
  rw [Nat.succ_mul, Nat.mul_comm c] at whole
  omega

namespace HeapMachine

variable {layout : Layout} {blockAddr : Nat}

theorem alignedStart_room (layout : Layout) (low : blockAddr ≤ 2 ^ 34) :
    blockAddr + headerSize + layout.align ≤ 2 ^ 64 := by
  have room := layout.room
  unfold headerSize
  omega

section

variable (low : blockAddr ≤ 2 ^ 34)
include low

theorem alignedStart_spec :
    blockAddr + headerSize ≤ alignedStart layout blockAddr ∧
      alignedStart layout blockAddr < blockAddr + headerSize + layout.align ∧
      layout.align ∣ alignedStart layout blockAddr := by
  obtain ⟨k, small, shape⟩ := layout.isPow
  have room := alignedStart_room layout low
  unfold alignedStart
  rw [shape] at room ⊢
  exact ⟨le_maskUp room small, maskUp_lt room small, dvd_maskUp room small⟩

/-- Up to word alignment the pointer follows the size header directly. -/
theorem alignedStart_of_align_le (aligned : 8 ∣ blockAddr)
    (small : layout.align ≤ 8) : alignedStart layout blockAddr = blockAddr + headerSize := by
  obtain ⟨k, inside, shape⟩ := layout.isPow
  have room := alignedStart_room layout low
  unfold alignedStart
  rw [shape] at room small ⊢
  have exponent : k ≤ 3 := (Nat.pow_le_pow_iff_right (a := 2) (by decide)).mp small
  have divides : 2 ^ k ∣ 8 := pow_dvd_pow 2 exponent
  exact maskUp_of_dvd room inside (dvd_add (divides.trans aligned) divides)

theorem totalNeeded_room :
    alignedStart layout blockAddr - blockAddr + max layout.size minSize + 2 ^ 3 ≤
      2 ^ 64 := by
  have before : alignedStart layout blockAddr < _ := (alignedStart_spec low).2.1
  have room := layout.room
  unfold headerSize at before
  unfold minSize
  omega

theorem le_totalNeeded :
    alignedStart layout blockAddr - blockAddr + max layout.size minSize ≤
      totalNeeded layout blockAddr :=
  le_maskUp (k := 3) (totalNeeded_room low) (by decide)

theorem eight_dvd_totalNeeded : 8 ∣ totalNeeded layout blockAddr :=
  dvd_maskUp (k := 3) (totalNeeded_room low) (by decide)

end

end HeapMachine

/-! ## The operations -/

/-- Memory may change under a chain anywhere but in its headers. -/
theorem Segment.frame {before after : Words} {head last : Option Nat} {blocks : List Span}
    (segment : Segment before head blocks last)
    (same : ∀ w, InHeader blocks w → after w = before w) : Segment after head blocks last := by
  have header {block : Span} (member : block ∈ blocks) {k : Nat} (inside : k < minSize) :
      after (block.base + k) = before (block.base + k) :=
    same _ ⟨block, member, by omega, by omega⟩
  refine ⟨segment.1.congr ?_, ?_⟩
  · intro node member
    obtain ⟨block, inside, rfl⟩ := List.mem_map.mp member
    unfold FreeBlock.next
    rw [header inside (by decide), header inside (by decide)]
  · intro block inside
    have first := header inside (k := 0) (by decide)
    rw [add_zero] at first
    unfold FreeBlock.size
    rw [first]
    exact segment.2 block inside

namespace HeapMachine

/-- The free list is `free`, and it tiles the heap's regions together with `used`. -/
structure Sound (machine : HeapMachine) (free used : List Span) : Prop where
  chain : Chain machine.memory machine.heap.freeList free
  tiling : Tiling machine.regions (free ++ used)

variable {machine : HeapMachine} {layout : Layout} {free used pre post : List Span} {block : Span}

/-- The memory that the heap holds, its frames and its total size are the same. -/
structure SameHoldings (before after : HeapMachine) : Prop where
  frames : after.frames = before.frames
  regions : after.regions = before.regions
  totalSize : after.heap.totalSize = before.heap.totalSize

/-- Besides, as much of it is counted as allocated. -/
structure SameAccount (before after : HeapMachine) : Prop extends SameHoldings before after where
  allocatedBytes : after.heap.allocatedBytes = before.heap.allocatedBytes

theorem unlink_account (machine : HeapMachine) (prev : Option Nat) (blockAddr : Nat) :
    SameAccount machine (machine.unlink prev blockAddr) := by
  cases prev <;> exact ⟨⟨rfl, rfl, rfl⟩, rfl⟩

namespace Sound

section

variable (sound : Sound machine free used)
include sound

theorem perm {used' : List Span} (same : used.Perm used') : Sound machine free used' :=
  ⟨sound.chain, sound.tiling.perm (same.append_left free)⟩

theorem not_inHeader (outside : cover free w = 0) : ¬ InHeader free w := by
  intro inside
  have large : ∀ b ∈ free, minSize ≤ b.size := fun b member =>
    sound.tiling.large b (mem_append_left _ member)
  have covered := Tiling.covered_of_header large inside
  omega

theorem store (value : Nat) (outside : cover free w = 0) :
    Sound { machine with memory := Function.update machine.memory w value } free used := by
  refine ⟨sound.chain.frame ?_, sound.tiling⟩
  intro other inside
  apply update_of_ne
  rintro rfl
  exact sound.not_inHeader outside inside

theorem outside_of_used (member : block ∈ used) {x : Nat}
    (inside : block.Contains x) : cover free x = 0 := by
  have once := sound.tiling.once x
  have covered := cover_pos member inside
  rw [← sound.tiling.tiles, cover_append] at once
  omega

theorem used_apart : used.Pairwise Span.Apart :=
  (pairwise_append.mp sound.tiling.apart).2.1

end

theorem unlink (sound : Sound machine (pre ++ block :: post) used) :
    Sound (machine.unlink (lastBase pre) block.base) (pre ++ post) (block :: used) := by
  refine ⟨unlink_chain sound.chain ?_, ?_⟩
  · exact (Separate.append_iff.mp sound.tiling.separate).1
  · rw [(unlink_account _ _ _).regions]
    apply sound.tiling.perm
    simp only [perm_iff_count, count_append, count_cons]
    omega

theorem push (sound : Sound machine free (⟨base, first + second⟩ :: used))
    (firstLarge : minSize ≤ first) (secondLarge : minSize ≤ second) (aligned : 8 ∣ first) :
    Sound { machine with
        memory := setNext (setSize machine.memory (base + first) second)
          (base + first) machine.heap.freeList
        heap := { machine.heap with freeList := some (base + first) } }
      (⟨base + first, second⟩ :: free) (⟨base, first⟩ :: used) := by
  have front := sound.tiling.perm perm_middle
  have tiling : Tiling machine.regions
      (⟨base + first, second⟩ :: free ++ ⟨base, first⟩ :: used) := by
    apply (front.split firstLarge secondLarge aligned).perm
    simp only [perm_iff_count, count_append, count_cons]
    omega
  have clear := (Separate.cons_iff.mp (Separate.append_iff.mp tiling.separate).1).1
  have kept := (SameOutside.setSize machine.memory (base + first) second).segment sound.chain clear
  exact ⟨kept.push (FreeBlock.size_setSize _ _ _) clear, tiling⟩

end Sound

theorem header_inside (low : block.base ≤ 2 ^ 34) {size : Nat}
    (fits : totalNeeded layout block.base ≤ size) :
    (Span.mk block.base size).Contains (alignedStart layout block.base - headerSize) := by
  have start : block.base + headerSize ≤ alignedStart layout block.base := (alignedStart_spec low).1
  have needed : _ ≤ totalNeeded layout block.base := le_totalNeeded low
  unfold Span.Contains stop
  unfold minSize at needed
  simp only
  omega

/-- How much of a block a request takes: all of it where the rest is too small to split off. -/
def taken (layout : Layout) (block : Span) : Nat :=
  if block.size - totalNeeded layout block.base > FreeBlock.minSize * 2 then
    totalNeeded layout block.base
  else block.size

def leftover (layout : Layout) (block : Span) : List Span :=
  if block.size - totalNeeded layout block.base > FreeBlock.minSize * 2 then
    [⟨block.base + totalNeeded layout block.base, block.size - totalNeeded layout block.base⟩]
  else []

theorem Sound.listed (sound : Sound machine (pre ++ block :: post) used) :
    block.base ≤ 2 ^ 34 ∧ size machine.memory block.base = block.size := by
  have stop := sound.tiling.stop_le (show block ∈ pre ++ block :: post ++ used by simp)
  unfold Span.stop at stop
  exact ⟨by omega, sound.chain.size_eq (by simp)⟩

/-- Carving hands out the taken part of the block and stores its size before the pointer. -/
theorem carve_sound (sound : Sound machine (pre ++ block :: post) used)
    (fits : totalNeeded layout block.base ≤ block.size) :
    Sound (machine.carve layout (lastBase pre) block.base) (leftover layout block ++ (pre ++ post))
        (⟨block.base, taken layout block⟩ :: used) ∧
      totalNeeded layout block.base ≤ taken layout block ∧
      (machine.carve layout (lastBase pre) block.base).memory
        (alignedStart layout block.base - headerSize) = taken layout block := by
  obtain ⟨low, stored⟩ := sound.listed
  unfold taken leftover
  by_cases large : block.size - totalNeeded layout block.base > minSize * 2
  · have needed : _ ≤ totalNeeded layout block.base := le_totalNeeded low
    have whole : Sound (machine.unlink (lastBase pre) block.base) (pre ++ post)
        (⟨block.base, totalNeeded layout block.base +
          (block.size - totalNeeded layout block.base)⟩ :: used) := by
      rw [Nat.add_sub_cancel' fits]
      exact sound.unlink
    have pushed := whole.push (by omega) (by omega) (eight_dvd_totalNeeded low)
    have final := pushed.store (totalNeeded layout block.base)
      (pushed.outside_of_used mem_cons_self (header_inside low le_rfl))
    simp only [carve, stored, if_pos large, update_self]
    exact ⟨⟨final.chain, final.tiling⟩, le_rfl, trivial⟩
  · have final := sound.unlink.store block.size
      (sound.unlink.outside_of_used mem_cons_self (header_inside low fits))
    simp only [carve, stored, if_neg large, update_self]
    exact ⟨⟨final.chain, final.tiling⟩, fits, trivial⟩

theorem carve_allocatedBytes (machine : HeapMachine) (layout : Layout) (prev : Option Nat)
    (blockAddr : Nat) :
    (machine.carve layout prev blockAddr).heap.allocatedBytes =
      machine.heap.allocatedBytes + totalNeeded layout blockAddr := by
  have unlinked := (unlink_account machine prev blockAddr).allocatedBytes
  simp only [carve]
  split <;> simp only [unlinked]

theorem carve_holdings (machine : HeapMachine) (layout : Layout) (prev : Option Nat)
    (blockAddr : Nat) : SameHoldings machine (machine.carve layout prev blockAddr) := by
  have unlinked := unlink_account machine prev blockAddr
  simp only [carve]
  split <;> exact ⟨unlinked.frames, unlinked.regions, unlinked.totalSize⟩

/-- Carving writes only into the free blocks. -/
theorem carve_frame (sound : Sound machine (pre ++ block :: post) used)
    (fits : totalNeeded layout block.base ≤ block.size)
    (outside : cover (pre ++ block :: post) w = 0) :
    (machine.carve layout (lastBase pre) block.base).memory w = machine.memory w := by
  obtain ⟨low, stored⟩ := sound.listed
  have notBlock : ¬ block.Contains w := by
    intro inside
    have covered := cover_pos (show block ∈ pre ++ block :: post by simp) inside
    omega
  have notHeader : w ≠ alignedStart layout block.base - headerSize := by
    rintro rfl
    exact notBlock (header_inside low fits)
  have unlinked : (machine.unlink (lastBase pre) block.base).memory w = machine.memory w := by
    apply unlink_frame
    rintro ⟨early, inside, range⟩
    exact sound.not_inHeader outside ⟨early, mem_append_left _ inside, range⟩
  by_cases large : block.size - totalNeeded layout block.base > minSize * 2
  · simp only [carve, stored, if_pos large]
    rw [update_of_ne notHeader, SameOutside.setNext, SameOutside.setSize]
    all_goals
      unfold Span.Contains stop at notBlock
      omega
  · simp only [carve, stored, if_neg large]
    rw [update_of_ne notHeader, unlinked]

/-- A request is served from the first block of the list that is large enough. -/
structure Serves (layout : Layout) (free pre : List Span) (block : Span) (post : List Span) :
    Prop where
  shape : free = pre ++ block :: post
  skipped : ∀ early ∈ pre, early.size < totalNeeded layout early.base
  fits : totalNeeded layout block.base ≤ block.size

structure Served (layout : Layout) (machine next : HeapMachine) (free used pre : List Span)
    (block : Span) (post : List Span) : Prop
    extends Serves layout free pre block post where
  sound : Sound next (leftover layout block ++ (pre ++ post))
    (⟨block.base, taken layout block⟩ :: used)
  low : block.base ≤ 2 ^ 34
  aligned : 8 ∣ block.base
  large : totalNeeded layout block.base ≤ taken layout block
  stored : next.memory (alignedStart layout block.base - headerSize) = taken layout block
  allocatedBytes : next.heap.allocatedBytes =
    machine.heap.allocatedBytes + totalNeeded layout block.base
  holdings : SameHoldings machine next
  frame : ∀ w, Span.cover free w = 0 → next.memory w = machine.memory w

variable {next : HeapMachine}

/-- What an allocation without growth does: nothing, or it hands out one new block. -/
theorem tryAllocate_spec (sound : Sound machine free used)
    (ran : machine.tryAllocate fuel layout = some (result, next)) :
    (result = none ∧ next = machine ∧ ∀ block ∈ free, block.size < totalNeeded layout block.base) ∨
      ∃ pre block post, result = some ⟨alignedStart layout block.base, block.base⟩ ∧
        Served layout machine next free used pre block post := by
  unfold tryAllocate at ran
  split at ran
  · cases ran
  next walked =>
    cases ran
    rcases findFit_spec sound.chain walked with ⟨_, small⟩ | ⟨_, _, _, _, found, _⟩
    · exact .inl ⟨rfl, rfl, small⟩
    · cases found
  next prev blockAddr walked =>
    cases ran
    rcases findFit_spec sound.chain walked with
      ⟨none, _⟩ | ⟨pre, block, post, rfl, found, fits, skipped⟩
    · cases none
    cases found
    have member : block ∈ pre ++ block :: post ++ used := by simp
    have stop := sound.tiling.stop_le member
    rw [or_none]
    obtain ⟨carved, large, stored⟩ := carve_sound sound fits
    refine .inr ⟨pre, block, post, rfl, ⟨rfl, skipped, fits⟩, carved, ?_,
      (sound.tiling.aligned block member).1, large, stored, carve_allocatedBytes _ _ _ _,
      carve_holdings _ _ _ _, fun w => carve_frame sound fits⟩
    unfold Span.stop at stop
    omega

theorem tryAllocate_ends (layout : Layout) (sound : Sound machine free used)
    (enough : free.length < fuel) : (machine.tryAllocate fuel layout).isSome := by
  obtain ⟨fit, walked⟩ := findFit_ends layout none sound.chain enough
  rw [tryAllocate, walked]
  cases fit <;> rfl

theorem link_account (machine : HeapMachine) (blockAddr : Nat) (prev current : Option Nat) :
    SameAccount machine (machine.linkFreed blockAddr prev current) ∧
      SameAccount machine (machine.linkRegion blockAddr prev current) := by
  cases prev with
  | none => exact ⟨⟨⟨rfl, rfl, rfl⟩, rfl⟩, ⟨rfl, rfl, rfl⟩, rfl⟩
  | some prevAddr =>
    simp only [linkFreed, linkRegion]
    constructor <;> split <;> exact ⟨⟨rfl, rfl, rfl⟩, rfl⟩

theorem inHeader_left (inside : InHeader pre w) : InHeader (pre ++ post) w := by
  obtain ⟨block, member, range⟩ := inside
  exact ⟨block, mem_append_left _ member, range⟩

theorem not_inHeader_linked {regions : List Span}
    (tiling : Tiling regions (pre ++ block :: post ++ used)) (before : ¬ InHeader pre w)
    (outside : ¬ block.Contains w) : ¬ InHeader (block :: pre) w := by
  rintro ⟨touched, inside, range⟩
  rcases List.mem_cons.mp inside with rfl | inside
  · have large := tiling.large touched
      (List.mem_append_left _ (List.mem_append_right pre (.head _)))
    exact outside ⟨range.1, range.2.trans_le (Nat.add_le_add_left large _)⟩
  · exact before ⟨touched, inside, range⟩

/-- Freeing rewrites the size that is already stored. -/
theorem setSize_stored (memory : Words) (block : Nat) :
    FreeBlock.setSize memory block (memory block) = memory :=
  update_eq_self block memory

/-- Freeing a block that the header describes moves exactly that block to the free list. -/
theorem deallocate_spec {ptr : Nat}
    (sound : Sound machine free (⟨ptr - headerSize, machine.memory (ptr - headerSize)⟩ :: used))
    (ran : machine.deallocate fuel ptr = some next) :
    Sound next
        (insertSorted free ⟨ptr - headerSize, machine.memory (ptr - headerSize)⟩) used ∧
      SameHoldings machine next ∧
      next.heap.allocatedBytes =
        machine.heap.allocatedBytes - machine.memory (ptr - headerSize) ∧
      ∀ w, Span.cover free w = 0 →
        ¬ (Span.mk (ptr - headerSize) (machine.memory (ptr - headerSize))).Contains w →
        next.memory w = machine.memory w := by
  simp only [deallocate, setSize_stored] at ran
  split at ran
  · cases ran
  next prev current walked =>
    cases ran
    obtain ⟨pre, post, rfl, found, inserted⟩ := insertionPoint_spec sound.chain walked
    rw [or_none] at found
    cases found
    have same := (link_account machine (ptr - headerSize) (lastBase pre) (headBase post)).1
    have tiling : Tiling machine.regions
        (pre ++ ⟨ptr - headerSize, machine.memory (ptr - headerSize)⟩ :: post ++ used) := by
      apply sound.tiling.perm
      simp only [perm_iff_count, count_append, count_cons]
      omega
    have separate := (Separate.append_iff.mp tiling.separate).1
    have linked := link_insertBlock ⟨ptr - headerSize, machine.memory (ptr - headerSize)⟩ machine
      sound.chain rfl separate
    rw [inserted]
    refine ⟨⟨linked.1, ?_⟩, ⟨same.frames, same.regions, same.totalSize⟩, ?_, ?_⟩
    · simp only [same.regions]
      exact tiling.insertBlock
    · simp only [same.allocatedBytes]
    · intro w outside notBlock
      have untouched := not_inHeader_linked tiling
        (fun inside => sound.not_inHeader outside (inHeader_left inside)) notBlock
      exact (link_frame machine (headBase post) untouched).1

theorem deallocate_ends (ptr : Nat) (sound : Sound machine free used)
    (enough : free.length < fuel) : (machine.deallocate fuel ptr).isSome := by
  obtain ⟨_, walked⟩ := insertionPoint_ends (ptr - headerSize) none sound.chain enough
  simp only [deallocate, setSize_stored, walked, isSome_some]

/-- The frames that growth can be given are word aligned, low, and not yet part of the heap. -/
def Supplied (machine : HeapMachine) : Prop :=
  ∀ pages addr frames, 0 < pages →
    machine.frames.allocateContiguousFrames pages = (some addr, frames) →
    8 ∣ addr ∧ addr + pages * pageSize ≤ 2 ^ 34 ∧
      ∀ x, (Span.mk addr (pages * pageSize)).Contains x → Span.cover machine.regions x = 0

/-- A supplied region extends the tiling, and writing its header keeps the free list. -/
theorem supplied_region {pages : Nat}
    (sound : Sound machine free used) (supplied : Supplied machine) (positive : 0 < pages)
    (given : machine.frames.allocateContiguousFrames pages = (some addr, frames)) :
    Tiling (⟨addr, pages * pageSize⟩ :: machine.regions)
        (⟨addr, pages * pageSize⟩ :: (free ++ used)) ∧
      Chain (FreeBlock.setNext (FreeBlock.setSize machine.memory addr (pages * pageSize)) addr none)
        machine.heap.freeList free := by
  obtain ⟨aligned, low, fresh⟩ := supplied pages addr frames positive given
  have large : minSize ≤ pages * pageSize := by
    unfold minSize pageSize
    omega
  have tiled := sound.tiling.grow ⟨addr, pages * pageSize⟩ large
    ⟨aligned, Nat.dvd_mul_left_of_dvd (by decide) pages⟩ low fresh
  have clear := (Separate.cons_iff.mp tiled.separate).1
  have same := (SameOutside.setSize machine.memory addr (pages * pageSize)).trans
    (SameOutside.setNext _ addr none)
  exact ⟨tiled, same.segment sound.chain fun b member => clear b (mem_append_left _ member)⟩

def growPages (minBytes : Nat) : Nat := max ((minBytes + pageSize - 1) / pageSize) growMinPages

theorem growPages_pos (minBytes : Nat) : 0 < growPages minBytes := by
  unfold growPages growMinPages
  omega

def freshRegion (minBytes addr : Nat) : Span := ⟨addr, growPages minBytes * pageSize⟩

/-- What growth does: nothing, or one fresh region joins the heap as free memory. -/
theorem grow_spec {minBytes : Nat} {grown : Bool}
    (sound : Sound machine free used) (supplied : Supplied machine)
    (ran : machine.grow fuel minBytes = some (grown, next)) :
    (grown = false ∧ ∃ frames,
        machine.frames.allocateContiguousFrames (growPages minBytes) = (none, frames) ∧
        next = { machine with frames := frames }) ∨
      (grown = true ∧ ∃ addr,
        machine.frames.allocateContiguousFrames (growPages minBytes) = (some addr, next.frames) ∧
        next.regions = freshRegion minBytes addr :: machine.regions ∧
        next.heap.totalSize = machine.heap.totalSize + (freshRegion minBytes addr).size ∧
        next.heap.allocatedBytes = machine.heap.allocatedBytes ∧
        Sound next (insertSorted free (freshRegion minBytes addr)) used ∧
        ∀ w, cover free w = 0 → ¬ (freshRegion minBytes addr).Contains w →
          next.memory w = machine.memory w) := by
  simp only [grow] at ran
  have positive := growPages_pos minBytes
  unfold freshRegion
  rw [← growPages] at ran
  generalize growPages minBytes = pages at ran positive ⊢
  split at ran
  next frames refused =>
    cases ran
    exact .inl ⟨rfl, frames, refused, rfl⟩
  next addr frames given =>
    obtain ⟨tiled, chain⟩ := supplied_region sound supplied positive given
    have same : SameOutside addr machine.memory (setNext
        (FreeBlock.setSize machine.memory addr (pages * pageSize)) addr none) :=
      (SameOutside.setSize _ _ _).trans (SameOutside.setNext _ _ _)
    have stored : FreeBlock.size (FreeBlock.setNext
        (setSize machine.memory addr (pages * pageSize)) addr none) addr =
          pages * pageSize := by
      rw [FreeBlock.size_setNext, FreeBlock.size_setSize]
    generalize FreeBlock.setNext (FreeBlock.setSize machine.memory addr (pages * pageSize))
      addr none = memory at ran same stored chain
    split at ran
    · cases ran
    next prev current walked =>
      cases ran
      obtain ⟨pre, post, rfl, found, inserted⟩ := insertionPoint_spec chain walked
      rw [or_none] at found
      cases found
      have account := (link_account { machine with memory := memory }
        addr (lastBase pre) (headBase post)).2
      have tiling : Tiling (⟨addr, pages * pageSize⟩ :: machine.regions)
          (pre ++ ⟨addr, pages * pageSize⟩ :: post ++ used) := by
        apply tiled.perm
        simp only [perm_iff_count, count_append, count_cons]
        omega
      have separate := (Separate.append_iff.mp tiling.separate).1
      have linked := link_insertBlock ⟨addr, pages * pageSize⟩ { machine with memory := memory }
        chain stored separate
      refine .inr ⟨rfl, addr, given, ?_, ?_, ?_, ?_, ?_⟩
      · rw [account.regions]
      · rw [account.totalSize]
      · rw [account.allocatedBytes]
      · rw [inserted]
        refine ⟨linked.2, ?_⟩
        simp only [account.regions]
        exact tiling.insertBlock
      · intro w outside notRegion
        have untouched := not_inHeader_linked tiling
          (fun inside => sound.not_inHeader outside (inHeader_left inside)) notRegion
        have frame := link_frame { machine with memory := memory } (headBase post) untouched
        exact frame.2.trans (same w fun inside => untouched ⟨_, (.head _), inside⟩)

theorem grow_ends (minBytes : Nat) (sound : Sound machine free used)
    (supplied : Supplied machine) (enough : free.length < fuel) :
    (machine.grow fuel minBytes).isSome := by
  simp only [grow]
  rw [← growPages]
  split
  · rfl
  next addr frames given =>
    obtain ⟨_, chain⟩ := supplied_region sound supplied (growPages_pos minBytes) given
    obtain ⟨_, walked⟩ := insertionPoint_ends addr none chain enough
    rw [walked]
    rfl

def growSize (layout : Layout) : Nat := maskUp (max layout.size FreeBlock.minSize) growIncrement

/-- The heap a request is served from: as it is where a block is large enough, else as growth
leaves it. -/
def servedFrom (fuel : Nat) (machine : HeapMachine) (layout : Layout) : HeapMachine :=
  match machine.tryAllocate fuel layout with
  | some (none, machine) =>
    match machine.grow fuel (growSize layout) with
    | some (_, grown) => grown
    | none => machine
  | _ => machine

/-- An allocation is an attempt on the heap that the request is served from. -/
theorem allocate_served (sound : Sound machine free used) (supplied : Supplied machine)
    (ran : machine.allocate fuel layout = some (result, next)) :
    (machine.servedFrom fuel layout).tryAllocate fuel layout = some (result, next) := by
  unfold allocate at ran
  unfold servedFrom
  split at ran
  · cases ran
  next placement served tried =>
    cases ran
    rw [tried]
    exact tried
  next unserved tried =>
    rcases tryAllocate_spec sound tried with ⟨_, rfl, _⟩ | ⟨_, _, _, placed, _⟩
    · rw [tried]
      dsimp only at ran ⊢
      rw [← growSize] at ran
      split at ran
      · cases ran
      · next grown => rwa [grown]
      next grown =>
        cases ran
        rw [grown]
        rcases grow_spec sound supplied grown with ⟨_, frames, _, rfl⟩ | ⟨never, _⟩
        · unfold tryAllocate at tried ⊢
          split at tried <;> cases tried
          next walked => rw [walked]
        · cases never
    · cases placed

/-- With fuel for two more blocks than the free list has, an allocation ends. -/
theorem allocate_ends (layout : Layout) (sound : Sound machine free used)
    (supplied : Supplied machine) (enough : free.length + 1 < fuel) :
    (machine.allocate fuel layout).isSome := by
  obtain ⟨⟨result, next⟩, tried⟩ := isSome_iff_exists.mp
    (tryAllocate_ends layout sound (Nat.lt_of_succ_lt enough))
  unfold allocate
  cases result with
  | some placement => simp only [tried, isSome_some]
  | none =>
    rcases tryAllocate_spec sound tried with ⟨_, rfl, _⟩ | ⟨_, _, _, placed, _⟩
    · obtain ⟨⟨grown, last⟩, ran⟩ := isSome_iff_exists.mp
        (grow_ends (growSize layout) sound supplied (Nat.lt_of_succ_lt enough))
      rw [growSize] at ran
      simp only [tried, ran]
      rcases grow_spec sound supplied ran with ⟨rfl, _⟩ | ⟨rfl, _, _, _, _, _, after, _⟩
      · rfl
      · exact tryAllocate_ends layout after
          (lt_of_le_of_lt (length_insertSorted_le _ _) enough)
    · cases placed

/-- Initialisation turns the frames it is given into one free block. -/
theorem boot_eq {memory : Words} {frames' : FrameAllocator}
    (given : frames.allocateContiguousFrames (heapSize / pageSize) = (some addr, frames')) :
    boot memory frames = some (init ⟨memory, ⟨none, 0, 0⟩, frames', []⟩ addr heapSize) := by
  unfold boot
  rw [given]

end HeapMachine

end CantayaOS.Memory
