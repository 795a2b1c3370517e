import CantayaOS.Memory.Paging

/-!
# The bootloader's page tables

Before it jumps to the kernel the bootloader builds the tables the kernel
starts with: the first 4 GiB and the framebuffer at their own addresses in
2 MiB pages, and the kernel image in the higher half in 4 KiB pages.  Tables
come from the firmware's page allocator, which is modelled by the list of
pages it will still hand out; the bootloader panics when it is empty.
-/

namespace CantayaOS.Boot

open Memory Shared

def present : Nat := 1 <<< 0

def writable : Nat := 1 <<< 1

def hugePage : Nat := 1 <<< 7

def noExecute : Nat := 1 <<< 63

def kernelVaddrBase : Nat := 0xFFFFFFFF80000000

/-- Flag bits of a program header: executable and writable. -/
def pfX : Nat := 1

def pfW : Nat := 2

structure SegmentInfo where
  offsetFromBase : UInt64
  size : UInt64
  flags : UInt32
  deriving DecidableEq, Repr

/-- The loaded kernel, as far as the page tables use it; `segments` is the valid prefix. -/
structure KernelLoadInfo where
  physicalBase : UInt64
  size : UInt64
  segments : List SegmentInfo
  fits : segments.length ≤ 8

/-- Physical memory with the pages that the firmware will hand out. -/
structure BootMachine where
  memory : Words
  pages : List Nat

namespace BootMachine

def allocatePageTable (machine : BootMachine) : Option (Nat × BootMachine) :=
  match machine.pages with
  | [] => none
  | addr :: rest => some (addr, ⟨PageMachine.zeroFrame machine.memory addr, rest⟩)

def getOrCreateTable (machine : BootMachine) (table : Nat) (index : Fin 512) :
    Option (Nat × BootMachine) :=
  let entry := machine.memory (entryAddr table index)
  if entry &&& present ≠ 0 then some (entry &&& 0x000FFFFFFFFFF000, machine)
  else
    machine.allocatePageTable.map fun (newTable, machine) =>
      (newTable, { machine with
        memory := Function.update machine.memory (entryAddr table index)
          (newTable ||| present ||| writable) })

def mapHugePage (machine : BootMachine) (pml4 virtualAddr physicalAddr : Nat) :
    Option BootMachine :=
  (machine.getOrCreateTable pml4 (pml4Index virtualAddr)).bind fun (pdp, machine) =>
  (machine.getOrCreateTable pdp (pdpIndex virtualAddr)).map fun (pd, machine) =>
  { machine with
    memory := Function.update machine.memory (entryAddr pd (pdIndex virtualAddr))
      (physicalAddr ||| present ||| writable ||| hugePage) }

def map4kPageFlags (machine : BootMachine) (pml4 virtualAddr physicalAddr flags : Nat) :
    Option BootMachine :=
  (machine.getOrCreateTable pml4 (pml4Index virtualAddr)).bind fun (pdp, machine) =>
  (machine.getOrCreateTable pdp (pdpIndex virtualAddr)).bind fun (pd, machine) =>
  (machine.getOrCreateTable pd (pdIndex virtualAddr)).map fun (pt, machine) =>
  { machine with
    memory := Function.update machine.memory (entryAddr pt (ptIndex virtualAddr))
      (physicalAddr ||| flags) }

/-- Map a 4 KiB page, writable. -/
def map4kPage (machine : BootMachine) (pml4 virtualAddr physicalAddr : Nat) :
    Option BootMachine :=
  machine.map4kPageFlags pml4 virtualAddr physicalAddr (present ||| writable)

/-- Map `count` 2 MiB pages from `addr` on at their own addresses. -/
def identityMap (machine : BootMachine) (pml4 addr : Nat) : Nat → Option BootMachine
  | 0 => some machine
  | count + 1 =>
    (machine.mapHugePage pml4 addr addr).bind fun machine =>
      machine.identityMap pml4 ((addr + hugePageSize) % 2 ^ 64) count

/-- Map `count` 4 KiB pages of the kernel image from offset `start` on. -/
def mapKernelPages (machine : BootMachine) (pml4 physicalBase start flags : Nat) :
    Nat → Option BootMachine
  | 0 => some machine
  | count + 1 =>
    (machine.map4kPageFlags pml4 ((kernelVaddrBase + start) % 2 ^ 64)
        ((physicalBase + start) % 2 ^ 64) flags).bind fun machine =>
      machine.mapKernelPages pml4 physicalBase (start + pageSize) flags count

end BootMachine

/-- The number of pages of the given size that hold `size` bytes. -/
def pagesFor (unit size : Nat) : Nat := (size + unit - 1) % 2 ^ 64 / unit

def SegmentInfo.pageFlags (segment : SegmentInfo) : Nat :=
  let flags := present
  let flags := if segment.flags.toNat &&& pfW ≠ 0 then flags ||| writable else flags
  if segment.flags.toNat &&& pfX = 0 then flags ||| noExecute else flags

namespace BootMachine

def mapSegments (machine : BootMachine) (pml4 physicalBase : Nat) :
    List SegmentInfo → Option BootMachine
  | [] => some machine
  | segment :: rest =>
    (machine.mapKernelPages pml4 physicalBase segment.offsetFromBase.toNat segment.pageFlags
        (pagesFor pageSize segment.size.toNat)).bind fun machine =>
      machine.mapSegments pml4 physicalBase rest

/-- Map the kernel image: by segment if there are segments and the no-execute bit works. -/
def mapKernel (machine : BootMachine) (pml4 : Nat) (kernel : KernelLoadInfo) (nxEnabled : Bool) :
    Option BootMachine :=
  if kernel.segments.length > 0 && nxEnabled then
    machine.mapSegments pml4 kernel.physicalBase.toNat kernel.segments
  else
    machine.mapKernelPages pml4 kernel.physicalBase.toNat 0 (present ||| writable)
      (pagesFor pageSize kernel.size.toNat)

end BootMachine

/-- The end of the identity map at the start of memory. -/
def fourGib : Nat := 4 * 1024 * 1024 * 1024

/-- The start of the framebuffer, rounded down to a 2 MiB page. -/
def fbBaseAligned (fb : FramebufferInfo) : Nat :=
  (fb.address &&& ~~~(UInt64.ofNat (hugePageSize - 1))).toNat

/-- The number of 2 MiB pages mapped for the framebuffer. -/
def fbPages (fb : FramebufferInfo) : Nat := pagesFor hugePageSize fb.size.toNat

namespace BootMachine

def setupKernelPageTables (machine : BootMachine) (kernel : KernelLoadInfo)
    (fb : FramebufferInfo) (nxEnabled : Bool) : Option (Nat × BootMachine) :=
  machine.allocatePageTable.bind fun (pml4, machine) =>
  (machine.identityMap pml4 0 (fourGib / hugePageSize)).bind fun machine =>
  (machine.mapKernel pml4 kernel nxEnabled).bind fun machine =>
  (machine.identityMap pml4 (fbBaseAligned fb) (fbPages fb)).map fun machine =>
  (pml4, machine)

end BootMachine

end CantayaOS.Boot
