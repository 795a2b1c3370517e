import CantayaOS.Lib.LastWrite
import CantayaOS.Boot.IdentityMap
import CantayaOS.Memory.Access

/-!
# The kernel's part of the bootloader's page tables

The higher half maps exactly the pages of the segments, each with the flags of
its segment: entries above them allow everything, and the maps of the lower
half before and after do not touch them.
-/

namespace CantayaOS.Boot

open Lib Memory Shared PageTableEntry List

/-! ## Rights -/

/-- What kernel code may do with a page besides reading it. -/
structure PageRights where
  write : Bool
  execute : Bool
  deriving DecidableEq, Repr

namespace PageRights

def ofEntry (entry : PageTableEntry) : PageRights :=
  ⟨entry &&& writable != 0, entry &&& noExecute == 0⟩

/-- The rights that entries of several levels grant together. -/
def combine (entries : List PageTableEntry) : PageRights :=
  ⟨entries.all fun entry => (ofEntry entry).write, entries.all fun entry => (ofEntry entry).execute⟩

end PageRights

/-- The rights that the CPU derives for an address; `none` if it is not mapped. -/
def pageRights (memory : Words) (pml4 vaddr : Nat) : Option PageRights :=
  (walkEntries memory pml4 vaddr).map PageRights.combine

variable {phys count flags x start physicalBase : Nat} {pages : List Nat}

open PageRights

theorem ofEntry_or (aligned : pageSize ∣ phys) (bounded : phys < 2 ^ 52) (flags : PageFlags) :
    ofEntry (phys ||| flags.bits) =
      ⟨flags.bits &&& writable != 0, flags.bits &&& noExecute == 0⟩ := by
  have shape : phys ||| flags.bits = PageTableEntry.set phys flags := by
    unfold PageTableEntry.set
    rw [and_addrMask aligned bounded]
  unfold ofEntry
  rw [shape, set_and_bits _ _ (by decide), set_and_bits _ _ (by decide)]

theorem ofEntry_pointer {table : Nat} (aligned : pageSize ∣ table) (bounded : table < 2 ^ 52) :
    ofEntry (table ||| present ||| writable) = ⟨true, true⟩ := by
  rw [Nat.or_assoc]
  exact ofEntry_or aligned bounded ⟨present ||| writable, by decide⟩

theorem combine_eq_ofEntry {entries : List PageTableEntry} {last : PageTableEntry}
    (member : last ∈ entries)
    (above : ∀ entry ∈ entries, entry = last ∨ ofEntry entry = ⟨true, true⟩) :
    PageRights.combine entries = ofEntry last := by
  have all {right : PageRights → Bool} (granted : right ⟨true, true⟩ = true) :
      (entries.all fun entry => right (ofEntry entry)) =
        right (ofEntry last) := by
    rw [Bool.eq_iff_iff, List.all_eq_true]
    refine ⟨fun every => every last member, fun asked entry inside => ?_⟩
    rcases above entry inside with rfl | opened
    · exact asked
    · rw [opened]
      exact granted
  unfold PageRights.combine
  rw [all rfl, all rfl]

/-- The rights of a small page are those of its entry. -/
theorem pageRights_of_find {memory : Words} {pml4 vaddr : Nat} {entry : PageTableEntry}
    (pointers : pageTrie.Pointers (fun table entry => entry = table ||| present ||| writable)
      memory pml4) (found : pageTrie.find memory 0 pml4 (pagePath vaddr) = some (entry, [])) :
    pageRights memory pml4 vaddr = some (ofEntry entry) := by
  obtain ⟨table, here⟩ : ∃ table, pageTrie.nodeAt memory 0 pml4 (tablePath vaddr) = some table := by
    exact Trie.nodeAt_of_find_last found
  have last : entry = memory (entryAddr table (ptIndex vaddr)) := by
    rw [find_last here] at found
    split at found
    · cases found
      rfl
    · cases found
  unfold pageRights
  rw [walkEntries_eq_words, found]
  refine congrArg some (combine_eq_ofEntry ?_ ?_)
  · exact Trie.mem_words.mpr ⟨tablePath vaddr, ptIndex vaddr, [], table, rfl, here, last⟩
  · intro other member
    obtain ⟨q, i, rest, y, shape, led, rfl⟩ := Trie.mem_words.mp member
    rcases pagePath_split shape with ⟨rfl, rfl⟩ | ⟨_, behind, above⟩
    · rw [here] at led
      cases led
      exact .inl last.symm
    rw [above] at here
    obtain ⟨next, points⟩ := Trie.decode_of_nodeAt here led
    rw [zero_add] at points
    right
    rw [pointers led points, decode_node points]
    exact ofEntry_pointer (pageSize_dvd_address _) (address_lt _)

namespace BootMachine

variable {machine middle after : BootMachine} {pml4 : Nat} {mapped : Finset Nat}

theorem pageOf_kernel_iff (inside : x < 2 ^ 31) (fits : start < 2 ^ 31) :
    pageOf (kernelVaddrBase + x) = pageOf ((kernelVaddrBase + start) % 2 ^ 64) ↔
      x / pageSize = start / pageSize := by
  unfold pageOf
  rw [Fin.mk.injEq]
  unfold kernelVaddrBase pageSize
  omega

theorem isPresent_or (phys : Nat) (marked : flags &&& 1 = 1) :
    isPresent (phys ||| flags) = true := by
  have bit : PageFlags.present.bits = 1 := rfl
  unfold isPresent
  rw [bit, Nat.and_or_distrib_right, marked, bne_iff_ne]
  intro zero
  have one := congrArg (Nat.testBit · 0) zero
  simp at one

/-- The loop maps its pages, and changes no other lookup of the kernel's 2 GiB. -/
theorem mapKernelPages_find
    (maps : Maps machine pml4 mapped) (fits : start + count * pageSize ≤ 2 ^ 31)
    (aligned : pageSize ∣ start) (marked : flags &&& 1 = 1)
    (ran : machine.mapKernelPages pml4 physicalBase start flags count = some after)
    (inside : x < 2 ^ 31) :
    pageTrie.find after.memory 0 pml4 (pagePath (kernelVaddrBase + x)) =
      if start ≤ x ∧ x < start + count * pageSize then
        some ((physicalBase + x / pageSize * pageSize) % 2 ^ 64 ||| flags, [])
      else pageTrie.find machine.memory 0 pml4 (pagePath (kernelVaddrBase + x)) := by
  induction count generalizing machine start with
  | zero =>
    cases ran
    rw [if_neg (by omega)]
  | succ count ih =>
    obtain ⟨middle, small, first, later, rest⟩ := mapKernelPages_succ fits ran
    obtain ⟨between, found, _⟩ := map4kPageFlags_spec maps (high_kernel small) first
    have next : pageSize ∣ start + pageSize := Nat.dvd_add aligned (Nat.dvd_refl _)
    rw [ih between later next rest, found, if_pos (isPresent_or _ marked)]
    simp only [pageOf_kernel_iff inside small]
    obtain ⟨page, rfl⟩ := aligned
    have start_div : pageSize * page / pageSize = page := Nat.mul_div_cancel_left _ (by decide)
    rw [start_div]
    by_cases here : x / pageSize = page
    · rw [if_pos here, here, Nat.mul_comm page, if_neg, if_pos]
      all_goals unfold pageSize at *; omega
    rw [if_neg here]
    by_cases covered : pageSize * page + pageSize ≤ x ∧
        x < pageSize * page + pageSize + count * pageSize
    · rw [if_pos covered, if_pos]
      unfold pageSize at *
      omega
    · rw [if_neg covered, if_neg]
      unfold pageSize at *
      omega

end BootMachine

namespace SegmentInfo

/-- The offset from the kernel's base lies in a page of the segment. -/
def Covers (x : Nat) (segment : SegmentInfo) : Prop :=
  segment.offsetFromBase.toNat ≤ x ∧
    x < segment.offsetFromBase.toNat + pagesFor pageSize segment.size.toNat * pageSize

instance (x : Nat) : DecidablePred (Covers x) := fun _ => inferInstanceAs (Decidable (_ ∧ _))

/-- The entry of the page at an offset from the kernel's base. -/
def entry (physicalBase x : Nat) (segment : SegmentInfo) : PageTableEntry :=
  (physicalBase + x / pageSize * pageSize) % 2 ^ 64 ||| segment.pageFlags

/-- The segment starts with a page and ends in the kernel's 2 GiB. -/
structure Placed (segment : SegmentInfo) : Prop where
  aligned : pageSize ∣ segment.offsetFromBase.toNat
  fits : segment.offsetFromBase.toNat + pagesFor pageSize segment.size.toNat * pageSize ≤ 2 ^ 31

theorem pageFlags_present (segment : SegmentInfo) : segment.pageFlags &&& 1 = 1 := by
  unfold pageFlags
  split <;> split <;> decide

end SegmentInfo

namespace BootMachine

variable {machine after : BootMachine} {pml4 : Nat} {mapped : Finset Nat}

theorem mapSegments_find {segments : List SegmentInfo}
    (maps : Maps machine pml4 mapped) (placed : ∀ segment ∈ segments, segment.Placed)
    (ran : machine.mapSegments pml4 physicalBase segments = some after) (inside : x < 2 ^ 31) :
    pageTrie.find after.memory 0 pml4 (pagePath (kernelVaddrBase + x)) =
      lastWrite (SegmentInfo.Covers x) (fun segment => some (segment.entry physicalBase x, []))
        (pageTrie.find machine.memory 0 pml4 (pagePath (kernelVaddrBase + x))) segments := by
  induction segments generalizing machine with
  | nil =>
    cases ran
    rfl
  | cons segment rest ih =>
    simp only [mapSegments, Option.bind_eq_some_iff] at ran
    obtain ⟨middle, first, later⟩ := ran
    obtain ⟨aligned, fits⟩ := placed segment (mem_cons_self ..)
    have between := (mapKernelPages_spec maps fits first).1
    rw [ih between (fun other member => placed other (mem_cons_of_mem _ member)) later,
      mapKernelPages_find maps fits aligned segment.pageFlags_present first inside]
    rfl

theorem built_empty {memory : Words} {rest : List Nat} (supply : Supply (pml4 :: rest)) :
    Built (pml4 :: rest) memory pml4 ⟨PageMachine.zeroFrame memory pml4, rest⟩ := by
  have aligned := (supply.frames pml4 (mem_cons_self ..)).1
  have zero (i : Fin 512) : PageMachine.zeroFrame memory pml4 (entryAddr pml4 i) = 0 :=
    zeroFrame_of_eq aligned (entryAddr_div aligned i)
  refine ⟨?_, ?_, fun page member => mem_cons_of_mem _ member, ?_⟩
  · intro w outside
    exact zeroFrame_of_ne aligned (outside pml4 (mem_cons_self ..))
  · intro q table led
    rw [(nodeAt_empty zero led).2]
    exact mem_cons_self ..
  · intro q table i next led points
    obtain ⟨rfl, rfl⟩ := nodeAt_empty zero led
    dsimp only at points
    rw [pageTrie_slot, zero] at points
    cases points

/--
The finished tables lie in the firmware's pages and map, in the kernel's 2 GiB,
the pages of the segments.
-/
theorem setupKernelPageTables_kernel {kernel : KernelLoadInfo} {fb : FramebufferInfo}
    (supply : Supply machine.pages) (some_segment : kernel.segments ≠ [])
    (placed : ∀ segment ∈ kernel.segments, segment.Placed) (fbLow : FramebufferLow fb)
    (built : machine.setupKernelPageTables kernel fb true = some (pml4, after)) :
    Built machine.pages machine.memory pml4 after ∧
      ∀ x < 2 ^ 31, pageTrie.find after.memory 0 pml4 (pagePath (kernelVaddrBase + x)) =
        lastWrite (SegmentInfo.Covers x)
          (fun segment => some (segment.entry kernel.physicalBase.toNat x, [])) none
          kernel.segments := by
  obtain ⟨rest, identity, image, pages, first, second, third⟩ := setupKernelPageTables_stages built
  rw [pages] at supply ⊢
  obtain ⟨maps, low⟩ := identityMap_spec (maps_empty supply) (by decide) first
  have segments : identity.mapSegments pml4 kernel.physicalBase.toNat kernel.segments =
      some image := by
    unfold mapKernel at second
    rw [if_pos] at second
    · exact second
    · simpa [length_pos_iff] using some_segment
  obtain ⟨between, further⟩ :=
    mapSegments_spec maps (fun segment member => (placed segment member).fits) segments
  have rest := (identityMap_spec between (fbPages_low fbLow) third).2
  refine ⟨?_, fun x inside => ?_⟩
  · exact rest.built _ _ (further _ _ (low.built _ _ (built_empty supply)))
  · have high : High (kernelVaddrBase + x) := by
      have wrap : (kernelVaddrBase + x) % 2 ^ 64 = kernelVaddrBase + x := by
        unfold kernelVaddrBase
        omega
      rw [← wrap]
      exact high_kernel inside
    have aligned := (supply.frames pml4 (mem_cons_self ..)).1
    rw [rest.find_eq _ high, mapSegments_find maps placed segments inside, low.find_eq _ high,
      find_empty fun i => zeroFrame_of_eq aligned (entryAddr_div aligned i)]

end BootMachine

end CantayaOS.Boot
