import CantayaOS.Memory.FrameAllocator

/-!
# Page tables

Four levels of tables translate a virtual address.  Every table is a frame of
512 eight-byte entries in physical memory, which the kernel reaches at its own
address.  The operations below walk the tables as the kernel does, entry by
entry.
-/

namespace CantayaOS.Memory

open Nat

/-- A set of entry flags: only the known bits, 0 to 8 and 63, are ever set. -/
structure PageFlags where
  bits : Nat
  known : bits &&& 0x80000000000001FF = bits
  deriving DecidableEq

namespace PageFlags

def present : PageFlags := ⟨1 <<< 0, by decide⟩

def writable : PageFlags := ⟨1 <<< 1, by decide⟩

def user : PageFlags := ⟨1 <<< 2, by decide⟩

def noCache : PageFlags := ⟨1 <<< 4, by decide⟩

def hugePage : PageFlags := ⟨1 <<< 7, by decide⟩

def noExecute : PageFlags := ⟨1 <<< 63, by decide⟩

def union (first second : PageFlags) : PageFlags :=
  ⟨first.bits ||| second.bits, by rw [and_or_distrib_right, first.known, second.known]⟩

def inter (first second : PageFlags) : PageFlags :=
  ⟨first.bits &&& second.bits, by rw [Nat.and_assoc, second.known]⟩

end PageFlags

/-- The bits of an entry that hold the physical frame address. -/
def addrMask : Nat := 0x000FFFFFFFFFF000

def hugePageSize : Nat := 2 * 1024 * 1024

def giantPageSize : Nat := 1024 * 1024 * 1024

abbrev PageTableEntry : Type := Nat

namespace PageTableEntry

def isPresent (entry : PageTableEntry) : Bool := entry &&& PageFlags.present.bits != 0

def isHuge (entry : PageTableEntry) : Bool := entry &&& PageFlags.hugePage.bits != 0

def address (entry : PageTableEntry) : Nat := entry &&& addrMask

/-- The entry that points to `address` with the given flags. -/
def set (address : Nat) (flags : PageFlags) : PageTableEntry := (address &&& addrMask) ||| flags.bits

end PageTableEntry

open PageTableEntry

def pml4Index (vaddr : Nat) : Fin 512 :=
  ⟨(vaddr >>> 39) &&& 0x1FF, and_lt_two_pow _ (by decide : 0x1FF < 2 ^ 9)⟩

def pdpIndex (vaddr : Nat) : Fin 512 :=
  ⟨(vaddr >>> 30) &&& 0x1FF, and_lt_two_pow _ (by decide : 0x1FF < 2 ^ 9)⟩

def pdIndex (vaddr : Nat) : Fin 512 :=
  ⟨(vaddr >>> 21) &&& 0x1FF, and_lt_two_pow _ (by decide : 0x1FF < 2 ^ 9)⟩

def ptIndex (vaddr : Nat) : Fin 512 :=
  ⟨(vaddr >>> 12) &&& 0x1FF, and_lt_two_pow _ (by decide : 0x1FF < 2 ^ 9)⟩

def pageOffset (vaddr : Nat) : Nat := vaddr &&& 0xFFF

def entryAddr (table : Nat) (index : Fin 512) : Nat := table + 8 * index

/-! ## Walking the tables -/

def translate (memory : Words) (pml4Phys vaddr : Nat) : Option Nat :=
  let pml4e := memory (entryAddr pml4Phys (pml4Index vaddr))
  if !isPresent pml4e then none
  else
    let pdpe := memory (entryAddr (address pml4e) (pdpIndex vaddr))
    if !isPresent pdpe then none
    else if isHuge pdpe then some (address pdpe ||| (vaddr &&& (giantPageSize - 1)))
    else
      let pde := memory (entryAddr (address pdpe) (pdIndex vaddr))
      if !isPresent pde then none
      else if isHuge pde then some (address pde ||| (vaddr &&& (hugePageSize - 1)))
      else
        let pte := memory (entryAddr (address pde) (ptIndex vaddr))
        if !isPresent pte then none else some (address pte ||| pageOffset vaddr)

/-- Physical memory with the frame allocator that new tables come from. -/
structure PageMachine where
  memory : Words
  frames : FrameAllocator

namespace PageMachine

def zeroFrame (memory : Words) (phys : Nat) : Words :=
  fun w => if phys ≤ w ∧ w < phys + pageSize then 0 else memory w

/--
The next table of a walk that creates missing tables.  The walk stops when no
frame is left, and below the first level at a huge page.
-/
def nextTable (machine : PageMachine) (checkHuge : Bool) (table : Nat) (index : Fin 512)
    (flags : PageFlags) : Option Nat × PageMachine :=
  let entry := machine.memory (entryAddr table index)
  if !isPresent entry then
    match machine.frames.allocateFrame with
    | (none, frames) => (none, { machine with frames := frames })
    | (some frame, frames) =>
      let entry := set frame ((PageFlags.present.union .writable).union (flags.inter .user))
      (some (address entry),
        ⟨Function.update (zeroFrame machine.memory frame) (entryAddr table index) entry, frames⟩)
  else if checkHuge && isHuge entry then (none, machine)
  else (some (address entry), machine)

/-- Map one page, creating the tables on the way; `false` if the mapping was not created. -/
def mapPage (machine : PageMachine) (pml4Phys vaddr phys : Nat) (flags : PageFlags) :
    Bool × PageMachine :=
  let fullFlags := flags.union .present
  match machine.nextTable false pml4Phys (pml4Index vaddr) flags with
  | (none, machine) => (false, machine)
  | (some pdp, machine) =>
    match machine.nextTable true pdp (pdpIndex vaddr) flags with
    | (none, machine) => (false, machine)
    | (some pd, machine) =>
      match machine.nextTable true pd (pdIndex vaddr) flags with
      | (none, machine) => (false, machine)
      | (some pt, machine) =>
        if isPresent (machine.memory (entryAddr pt (ptIndex vaddr))) then (false, machine)
        else
          (true, { machine with
            memory := Function.update machine.memory (entryAddr pt (ptIndex vaddr))
              (set phys fullFlags) })

/-- The page table that holds the entry of a page, if the tables above it exist. -/
def walkToTable (memory : Words) (pml4Phys vaddr : Nat) : Option Nat :=
  let pml4e := memory (entryAddr pml4Phys (pml4Index vaddr))
  if !isPresent pml4e then none
  else
    let pdpe := memory (entryAddr (address pml4e) (pdpIndex vaddr))
    if !isPresent pdpe || isHuge pdpe then none
    else
      let pde := memory (entryAddr (address pdpe) (pdIndex vaddr))
      if !isPresent pde || isHuge pde then none else some (address pde)

def unmapPage (machine : PageMachine) (pml4Phys vaddr : Nat) : Option Nat × PageMachine :=
  match walkToTable machine.memory pml4Phys vaddr with
  | none => (none, machine)
  | some pt =>
    let pte := machine.memory (entryAddr pt (ptIndex vaddr))
    if !isPresent pte then (none, machine)
    else
      (some (address pte), { machine with
        memory := Function.update machine.memory (entryAddr pt (ptIndex vaddr)) 0 })

def updateFlags (machine : PageMachine) (pml4Phys vaddr : Nat) (newFlags : PageFlags) :
    Bool × PageMachine :=
  match walkToTable machine.memory pml4Phys vaddr with
  | none => (false, machine)
  | some pt =>
    let pte := machine.memory (entryAddr pt (ptIndex vaddr))
    if !isPresent pte then (false, machine)
    else
      (true, { machine with
        memory := Function.update machine.memory (entryAddr pt (ptIndex vaddr))
          (set (address pte) (newFlags.union .present)) })

/-- The entries of a top-level table for user space. -/
def lowerHalf : List (Fin 512) := (List.finRange 512).filter fun i => i.val < 256

/-- The entries of a top-level table for the kernel. -/
def upperHalf : List (Fin 512) := (List.finRange 512).filter fun i => 256 ≤ i.val

/-- The copy loop: one top-level entry of the kernel after the other. -/
def copyEntries (memory : Words) (newPml4 kernelPml4 : Nat) (indices : List (Fin 512)) : Words :=
  indices.foldl (fun memory i =>
    Function.update memory (entryAddr newPml4 i) (memory (entryAddr kernelPml4 i))) memory

/-- Create the top-level table of a process; its upper half is copied from the kernel's. -/
def createUserPageTable (machine : PageMachine) (kernelPml4 : Nat) : Option Nat × PageMachine :=
  match machine.frames.allocateFrame with
  | (none, frames) => (none, { machine with frames := frames })
  | (some frame, frames) =>
    (some frame, ⟨copyEntries (zeroFrame machine.memory frame) frame kernelPml4 upperHalf, frames⟩)

/-- Free the tables below the lower half of a top-level table, and the table itself. -/
def freeUserPageTable (machine : PageMachine) (pml4Phys : Nat) : PageMachine :=
  let memory := machine.memory
  let frames := lowerHalf.foldl (fun frames i =>
    let pml4e := memory (entryAddr pml4Phys i)
    if !isPresent pml4e then frames
    else
      let frames := (List.finRange 512).foldl (fun frames j =>
        let pdpe := memory (entryAddr (address pml4e) j)
        if !isPresent pdpe || isHuge pdpe then frames
        else
          let frames := (List.finRange 512).foldl (fun frames k =>
            let pde := memory (entryAddr (address pdpe) k)
            if !isPresent pde || isHuge pde then frames
            else FrameAllocator.freeFrame frames (address pde)) frames
          frames.freeFrame (address pdpe)) frames
      frames.freeFrame (address pml4e)) machine.frames
  { machine with frames := frames.freeFrame pml4Phys }

end PageMachine

end CantayaOS.Memory
