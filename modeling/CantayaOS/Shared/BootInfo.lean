import Mathlib

/-!
# The boot protocol's memory map

The types of the crate shared by the bootloader and the kernel: a list of
physical regions, each with a kind.  The source keeps the regions in an array
of 512 slots with a count; the model keeps the valid prefix as a list with the
capacity bound as a field.
-/

namespace CantayaOS.Shared

inductive MemoryRegionKind where
  | usable
  | reserved
  | acpiReclaimable
  | acpiNvs
  | kernelAndModules
  | bootloader
  | framebuffer
  | pageTables
  deriving DecidableEq, Repr

/-- A contiguous region of physical memory with a specific kind. -/
structure MemoryRegion where
  base : UInt64
  size : UInt64
  kind : MemoryRegionKind
  deriving DecidableEq, Repr

/-- Maximum number of memory regions taken over from the firmware's map. -/
def maxMemoryRegions : Nat := 512

/-- The memory map handed to the kernel: the valid entries of the region array. -/
structure MemoryMap where
  regions : List MemoryRegion
  fits : regions.length ≤ maxMemoryRegions

def MemoryRegion.Covers (region : MemoryRegion) (x : Nat) : Prop :=
  region.base.toNat ≤ x ∧ x < region.base.toNat + region.size.toNat

/-- No byte belongs to two of the regions. -/
def Apart (regions : List MemoryRegion) : Prop :=
  regions.Pairwise fun first second => ∀ x, ¬ (first.Covers x ∧ second.Covers x)

theorem Apart.eq_of_covers {regions : List MemoryRegion} (apart : Apart regions)
    {first second : MemoryRegion} (member : first ∈ regions) (other : second ∈ regions) {x : Nat}
    (covers : first.Covers x) (coversToo : second.Covers x) : first = second := by
  have symmetric : Std.Symm fun first second : MemoryRegion =>
      ∀ x, ¬ (first.Covers x ∧ second.Covers x) :=
    ⟨fun _ _ disjoint x both => disjoint x both.symm⟩
  by_contra differ
  exact apart.forall member other differ x ⟨covers, coversToo⟩

/-- Framebuffer information from the firmware, as far as the page tables use it. -/
structure FramebufferInfo where
  address : UInt64
  size : UInt64
  deriving DecidableEq, Repr

end CantayaOS.Shared
