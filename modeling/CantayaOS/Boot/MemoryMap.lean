import CantayaOS.Boot.Paging
import CantayaOS.Shared.MemoryMap

/-!
# From the firmware's memory map to the free frames

After leaving boot services the bootloader translates the firmware's
descriptors, retags its own kernel image, page tables and the framebuffer,
and hands the sorted and merged map to the kernel, whose frame allocator frees
the usable regions.  No frame freed in this way is in use, although the region
table may have dropped entries and the kernel image may end inside a page.
The table of runtime services regions is not kept: the map does not use it.
-/

namespace CantayaOS.Boot

open Memory Shared List

/-- The firmware's memory types; types the translation does not name share one case. -/
inductive MemoryType where
  | loaderCode
  | loaderData
  | bootServicesCode
  | bootServicesData
  | runtimeServicesCode
  | runtimeServicesData
  | conventional
  | acpiReclaim
  | acpiNonVolatile
  | other (code : UInt32)
  deriving DecidableEq, Repr

structure MemoryDescriptor where
  ty : MemoryType
  physStart : UInt64
  pageCount : UInt64
  deriving DecidableEq, Repr

variable {x : Nat}

namespace MemoryDescriptor

def kind (descriptor : MemoryDescriptor) : MemoryRegionKind :=
  match descriptor.ty with
  | .conventional => .usable
  | .bootServicesCode | .bootServicesData => .usable
  | .loaderCode | .loaderData => .bootloader
  | .acpiReclaim => .acpiReclaimable
  | .acpiNonVolatile => .acpiNvs
  | .runtimeServicesCode | .runtimeServicesData => .reserved
  | .other _ => .reserved

def region (descriptor : MemoryDescriptor) : MemoryRegion :=
  ⟨descriptor.physStart, descriptor.pageCount * 4096, descriptor.kind⟩

/-- The byte at the address belongs to the memory that the descriptor describes. -/
def Contains (descriptor : MemoryDescriptor) (x : Nat) : Prop :=
  descriptor.physStart.toNat ≤ x ∧
    x < descriptor.physStart.toNat + descriptor.pageCount.toNat * 4096

instance (descriptor : MemoryDescriptor) (x : Nat) : Decidable (descriptor.Contains x) :=
  inferInstanceAs (Decidable (_ ∧ _))

/-- Memory that the kernel may use: conventional or left behind by boot services. -/
def Reclaimed (descriptor : MemoryDescriptor) : Prop :=
  descriptor.ty = .conventional ∨ descriptor.ty = .bootServicesCode ∨
    descriptor.ty = .bootServicesData

def Disjoint (first second : MemoryDescriptor) : Prop :=
  ∀ x, first.Contains x → ¬ second.Contains x

instance : Std.Symm Disjoint := ⟨fun _ _ apart x inside both => apart x both inside⟩

theorem kind_eq_usable_iff (descriptor : MemoryDescriptor) :
    descriptor.kind = .usable ↔ descriptor.Reclaimed := by
  unfold kind Reclaimed
  cases descriptor.ty <;> simp

end MemoryDescriptor

/-- What the bootloader knows when it leaves boot services; page tables in allocation order. -/
structure Departure where
  descriptors : List MemoryDescriptor
  kernel : KernelLoadInfo
  pageTables : List UInt64
  framebuffer : FramebufferInfo

namespace Departure

/-- The page table pages that were tracked: the table of tracked pages has 128 slots. -/
def pageTablePages (departure : Departure) : List UInt64 := departure.pageTables.take 128

/-- The translation loop over the firmware's descriptors. -/
def translated (departure : Departure) : MemoryMap :=
  departure.descriptors.foldl (fun map descriptor => (map.addRegion descriptor.region).2) .empty

def fbByteSize (departure : Departure) : UInt64 :=
  (departure.framebuffer.size + 4095) / 4096 * 4096

def retagged (departure : Departure) : MemoryMap :=
  let kernelTagged := departure.translated.retagRange departure.kernel.physicalBase
    departure.kernel.size .kernelAndModules
  let tablesTagged := departure.pageTablePages.foldl
    (fun map page => map.retagRange page 4096 .pageTables) kernelTagged
  tablesTagged.retagRange departure.framebuffer.address departure.fbByteSize .framebuffer

def memoryMap (departure : Departure) : MemoryMap :=
  departure.retagged.sortRegions.mergeAdjacent

def InLoaderData (departure : Departure) (x : Nat) : Prop :=
  ∃ descriptor ∈ departure.descriptors, descriptor.ty = .loaderData ∧ descriptor.Contains x

def InReclaimed (departure : Departure) (x : Nat) : Prop :=
  ∃ descriptor ∈ departure.descriptors, descriptor.Reclaimed ∧ descriptor.Contains x

/--
The firmware's side: descriptors are page aligned and disjoint, the
bootloader's own allocations are loader data, and the framebuffer is a page
aligned range of memory that ends before the last page of the address space.
-/
structure WellFormed (departure : Departure) : Prop where
  aligned : ∀ descriptor ∈ departure.descriptors, 4096 ∣ descriptor.physStart.toNat
  disjoint : departure.descriptors.Pairwise MemoryDescriptor.Disjoint
  kernelInside : ∀ x, MemoryMap.InRange departure.kernel.physicalBase departure.kernel.size x →
    departure.InLoaderData x
  tablesInside : ∀ page ∈ departure.pageTables, ∀ x, MemoryMap.InRange page 4096 x →
    departure.InLoaderData x
  fbAligned : 4096 ∣ departure.framebuffer.address.toNat
  fbBelowTop : departure.framebuffer.address.toNat + departure.framebuffer.size.toNat ≤
    2 ^ 64 - 4096

/-- A descriptor's region holds no byte beyond the descriptor, whatever wraps. -/
theorem contains_of_holds_region {descriptor : MemoryDescriptor}
    (inside : descriptor.region.Holds x) : descriptor.Contains x := by
  obtain ⟨low, high⟩ := inside
  refine ⟨low, high.trans_le ?_⟩
  simp only [MemoryRegion.stop, MemoryDescriptor.region, UInt64.toNat_add, UInt64.toNat_mul]
  refine Nat.le_trans (Nat.mod_le _ _) (Nat.add_le_add_left ?_ _)
  exact Nat.mod_le _ _

section

variable {departure : Departure} (wellFormed : departure.WellFormed)
include wellFormed

theorem translated_usable : MemoryMap.UsableWithin departure.InReclaimed departure.translated := by
  refine List.foldlRecOn (motive := MemoryMap.UsableWithin departure.InReclaimed) _ _
    MemoryMap.empty_usableWithin fun map within descriptor member => within.addRegion fun usable => ?_
  refine ⟨wellFormed.aligned descriptor member, fun x inside => ?_⟩
  exact ⟨descriptor, member, (MemoryDescriptor.kind_eq_usable_iff descriptor).mp usable,
    contains_of_holds_region inside⟩

theorem WellFormed.not_inReclaimed (loaded : departure.InLoaderData x) : ¬ departure.InReclaimed x := by
  obtain ⟨loader, loaderMember, isLoader, inLoader⟩ := loaded
  rintro ⟨other, otherMember, reclaimed, inOther⟩
  have distinct : loader ≠ other := by
    rintro rfl
    rw [MemoryDescriptor.Reclaimed, isLoader] at reclaimed
    simp at reclaimed
  exact wellFormed.disjoint.forall loaderMember otherMember distinct x inLoader inOther

/-- Retagging loader data leaves the usable regions within the reclaimed memory. -/
theorem tablesTagged_usable
    {map : MemoryMap} (within : MemoryMap.UsableWithin departure.InReclaimed map) :
    MemoryMap.UsableWithin departure.InReclaimed (departure.pageTablePages.foldl
      (fun map page => map.retagRange page 4096 .pageTables) map) := by
  refine List.foldlRecOn (motive := MemoryMap.UsableWithin departure.InReclaimed) _ _ within
    fun map within page member => within.retagRange_elsewhere (by decide) fun x inside => ?_
  exact wellFormed.not_inReclaimed
    (wellFormed.tablesInside page (mem_of_mem_take member) x inside)

/-- The framebuffer's size is rounded up to whole pages without wrapping. -/
theorem WellFormed.fbByteSize :
    departure.framebuffer.size.toNat ≤ departure.fbByteSize.toNat ∧
      4096 ∣ departure.fbByteSize.toNat ∧
      departure.framebuffer.address.toNat + departure.fbByteSize.toNat < 2 ^ 64 := by
  have belowTop := wellFormed.fbBelowTop
  have rounded : departure.fbByteSize.toNat =
      (departure.framebuffer.size.toNat + 4095) / 4096 * 4096 := by
    unfold Departure.fbByteSize
    rw [UInt64.toNat_mul, UInt64.toNat_div, UInt64.toNat_add]
    simp only [UInt64.reduceToNat]
    omega
  omega

/-- The bytes that the kernel may hand out: reclaimed memory outside the framebuffer. -/
def Spare (departure : Departure) (x : Nat) : Prop :=
  departure.InReclaimed x ∧
    ¬ MemoryMap.InRange departure.framebuffer.address departure.framebuffer.size x

theorem memoryMap_usable : MemoryMap.UsableWithin departure.Spare departure.memoryMap := by
  obtain ⟨atLeast, wholePages, bounded⟩ := wellFormed.fbByteSize
  have kernelTagged : MemoryMap.UsableWithin departure.InReclaimed
      (departure.translated.retagRange departure.kernel.physicalBase departure.kernel.size
        .kernelAndModules) :=
    (translated_usable wellFormed).retagRange_elsewhere nofun
      fun x inside => wellFormed.not_inReclaimed (wellFormed.kernelInside x inside)
  have fbTagged : MemoryMap.UsableWithin (fun x => departure.InReclaimed x ∧
      ¬ MemoryMap.InRange departure.framebuffer.address departure.fbByteSize x)
      departure.retagged :=
    (tablesTagged_usable wellFormed kernelTagged).retagRange nofun bounded
      (dvd_add wellFormed.fbAligned wholePages)
  refine (fbTagged.mono ?_).sortRegions.mergeAdjacent
  rintro x ⟨reclaimed, outside⟩
  refine ⟨reclaimed, fun inside => outside ?_⟩
  unfold MemoryMap.InRange at inside ⊢
  omega

end

def InFrame (frame x : Nat) : Prop := frame * pageSize ≤ x ∧ x < (frame + 1) * pageSize

/-- A region's frames consist of bytes of the region when the region starts at a page boundary. -/
theorem holds_of_frees {region : MemoryRegion} {frame : Nat}
    (frees : FrameAllocator.Frees region frame) (aligned : 4096 ∣ region.base.toNat)
    (inside : InFrame frame x) : region.Holds x := by
  obtain ⟨_, _, first, last⟩ := frees
  unfold InFrame pageSize at *
  unfold MemoryRegion.Holds MemoryRegion.stop
  omega

/--
Every frame that the kernel's allocator starts with lies at or above 1 MiB,
wholly inside one conventional or boot services descriptor, and outside the
kernel image, the page tables and the framebuffer.
-/
theorem free_frame_spare (departure : Departure) (wellFormed : departure.WellFormed) (frame : Nat)
    (free : (FrameAllocator.init departure.memoryMap).isFree frame = true) :
    0x100000 ≤ frame * pageSize ∧
      (∃ descriptor ∈ departure.descriptors, descriptor.Reclaimed ∧
        ∀ x, InFrame frame x → descriptor.Contains x) ∧
      ∀ x, InFrame frame x →
        ¬ MemoryMap.InRange departure.kernel.physicalBase departure.kernel.size x ∧
        (∀ page ∈ departure.pageTables, ¬ MemoryMap.InRange page 4096 x) ∧
        ¬ MemoryMap.InRange departure.framebuffer.address departure.framebuffer.size x := by
  obtain ⟨_, region, member, frees⟩ := ((FrameAllocator.init_spec _).2 frame).mp free
  obtain ⟨aligned, spare⟩ := memoryMap_usable wellFormed region member frees.1
  have frameSpare : ∀ x, InFrame frame x → departure.Spare x :=
    fun x inside => spare x (holds_of_frees frees aligned inside)
  have start : InFrame frame (frame * pageSize) := by
    unfold InFrame pageSize
    omega
  refine ⟨?_, ?_, fun x inside => ⟨?_, ?_, (frameSpare x inside).2⟩⟩
  · obtain ⟨_, high, first, _⟩ := frees
    have oneMib : (0x100000 : UInt64).toNat = 0x100000 := rfl
    rw [UInt64.lt_iff_toNat_lt] at high
    unfold pageSize at *
    omega
  · obtain ⟨⟨descriptor, known, reclaimed, low, high⟩, _⟩ := frameSpare _ start
    refine ⟨descriptor, known, reclaimed, fun x inside => ?_⟩
    have boundary := wellFormed.aligned descriptor known
    unfold InFrame pageSize at *
    unfold MemoryDescriptor.Contains
    omega
  · intro image
    exact wellFormed.not_inReclaimed (wellFormed.kernelInside x image) (frameSpare x inside).1
  · intro page known inPage
    exact wellFormed.not_inReclaimed (wellFormed.tablesInside page known x inPage)
      (frameSpare x inside).1

/--
A kernel image that ends inside a page, a page table page behind it, and a
framebuffer whose rounded range cuts the conventional memory.
-/
def smallDeparture : Departure where
  descriptors := [⟨.loaderData, 0x200000, 4⟩, ⟨.conventional, 0x100000, 4⟩,
    ⟨.bootServicesData, 0x104000, 2⟩]
  kernel := ⟨0x200000, 0x1234, [], by decide⟩
  pageTables := [0x203000]
  framebuffer := ⟨0x101000, 0xF00⟩

theorem smallDeparture_wellFormed : smallDeparture.WellFormed where
  aligned := by decide
  disjoint := by
    simp only [smallDeparture, pairwise_cons, mem_cons, not_mem_nil, or_false,
      forall_eq_or_imp, forall_eq, MemoryDescriptor.Disjoint, MemoryDescriptor.Contains,
      UInt64.reduceToNat]
    refine ⟨⟨?_, ?_⟩, ?_, nofun, List.Pairwise.nil⟩ <;> omega
  kernelInside x inside := by
    refine ⟨_, (.head _), rfl, ?_⟩
    simp only [smallDeparture, MemoryMap.InRange, MemoryDescriptor.Contains,
      UInt64.reduceToNat] at inside ⊢
    omega
  tablesInside page known x inside := by
    cases mem_singleton.mp known
    refine ⟨_, (.head _), rfl, ?_⟩
    simp only [MemoryMap.InRange, MemoryDescriptor.Contains, UInt64.reduceToNat] at inside ⊢
    omega
  fbAligned := by decide
  fbBelowTop := by decide

theorem free_frame_spare_smallDeparture :
    (FrameAllocator.init smallDeparture.memoryMap).isFree 0x102 = true ∧
      ∃ descriptor ∈ smallDeparture.descriptors, descriptor.Reclaimed ∧
        ∀ x, InFrame 0x102 x → descriptor.Contains x :=
  have free : (FrameAllocator.init smallDeparture.memoryMap).isFree 0x102 = true := by
    decide +kernel
  ⟨free, (free_frame_spare smallDeparture smallDeparture_wellFormed 0x102 free).2.1⟩

end Departure

end CantayaOS.Boot
