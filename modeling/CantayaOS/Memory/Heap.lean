import CantayaOS.Lib.Span
import CantayaOS.Lib.Word
import CantayaOS.Memory.FrameAllocator

/-!
# The kernel heap allocator

A linked free list embedded in the memory it manages, backed by frames of the
frame allocator.  Memory is a function from word addresses to words.  A free
block holds its size and an optional next pointer in its first three words; an
allocation holds its size in the word before the returned pointer.

The loops over the free list follow pointers found in memory, so they are
bounded by explicit fuel: `none` stands for a walk that has not ended yet.
-/

namespace CantayaOS.Memory

open Lib Lib.Word

/-- A request of `alloc`: `core::alloc::Layout` with the guarantees of its constructor. -/
structure Layout where
  size : Nat
  align : Nat
  isPow : ∃ k < 64, align = 2 ^ k
  fits : (size + align - 1) / align * align ≤ 2 ^ 63 - 1

namespace FreeBlock

/-- Size of the free block header: a size and an optional pointer. -/
def minSize : Nat := 24

def size (memory : Words) (block : Nat) : Nat := memory block

def next (memory : Words) (block : Nat) : Option Nat :=
  if memory (block + 8) = 0 then none else some (memory (block + 16))

def setSize (memory : Words) (block value : Nat) : Words := Function.update memory block value

def setNext (memory : Words) (block : Nat) : Option Nat → Words
  | none => Function.update memory (block + 8) 0
  | some target => Function.update (Function.update memory (block + 8) 1) (block + 16) target

/-- Grow `block` by the block `absorbed` and take over its next pointer. -/
def absorb (memory : Words) (block absorbed : Nat) : Words :=
  let memory := setSize memory block (size memory block + size memory absorbed)
  setNext memory block (next memory absorbed)

/-- Coalesce a block with the block its next pointer names, if that one is adjacent. -/
def coalesceNext (memory : Words) (block : Nat) : Words :=
  match next memory block with
  | some nextBlock =>
    if block + size memory block = nextBlock then absorb memory block nextBlock else memory
  | none => memory

end FreeBlock

structure Heap where
  freeList : Option Nat
  totalSize : Nat
  allocatedBytes : Nat

/--
The heap with the memory it lives in and the frame allocator behind it.  The
regions record which memory the heap has been given; no operation reads them.
-/
structure HeapMachine where
  memory : Words
  heap : Heap
  frames : FrameAllocator
  regions : List Span

/-- An allocation: the returned pointer and the free block it was carved from. -/
structure Placement where
  ptr : Nat
  block : Nat
  deriving DecidableEq, Repr

namespace HeapMachine

/-- Size of the word that stores an allocation's size before its pointer. -/
def headerSize : Nat := 8

def heapSize : Nat := 1024 * 1024

def growIncrement : Nat := 256 * 1024

def growMinPages : Nat := 64

def init (machine : HeapMachine) (start size : Nat) : HeapMachine :=
  let memory := FreeBlock.setSize machine.memory start size
  let memory := FreeBlock.setNext memory start none
  { machine with
    memory := memory
    heap := ⟨some start, size, 0⟩
    regions := [⟨start, size⟩] }

/-- Where an allocation in the block at `blockAddr` would start. -/
def alignedStart (layout : Layout) (blockAddr : Nat) : Nat :=
  maskUp (blockAddr + headerSize) layout.align

/-- How many bytes of the block at `blockAddr` an allocation needs, header and padding included. -/
def totalNeeded (layout : Layout) (blockAddr : Nat) : Nat :=
  maskUp (alignedStart layout blockAddr - blockAddr + max layout.size FreeBlock.minSize) 8

/-- The search loop: the first block that is large enough, with its predecessor in the list. -/
def findFit (memory : Words) (layout : Layout) :
    Nat → Option Nat → Option Nat → Option (Option (Option Nat × Nat))
  | 0, _, _ => none
  | _ + 1, _, none => some none
  | fuel + 1, prev, some blockAddr =>
    if totalNeeded layout blockAddr ≤ FreeBlock.size memory blockAddr then
      some (some (prev, blockAddr))
    else findFit memory layout fuel (some blockAddr) (FreeBlock.next memory blockAddr)

/-- Unlink a block: the predecessor, or the list head, takes over its next pointer. -/
def unlink (machine : HeapMachine) (prev : Option Nat) (blockAddr : Nat) : HeapMachine :=
  let next := FreeBlock.next machine.memory blockAddr
  match prev with
  | some prevAddr => { machine with memory := FreeBlock.setNext machine.memory prevAddr next }
  | none => { machine with heap := { machine.heap with freeList := next } }

/-- Use a found block: unlink it, split off a large remainder and write the size header. -/
def carve (machine : HeapMachine) (layout : Layout) (prev : Option Nat) (blockAddr : Nat) :
    HeapMachine :=
  let blockSize := FreeBlock.size machine.memory blockAddr
  let needed := totalNeeded layout blockAddr
  let header := alignedStart layout blockAddr - headerSize
  let machine := machine.unlink prev blockAddr
  let remaining := blockSize - needed
  let machine :=
    if remaining > FreeBlock.minSize * 2 then
      let newBlock := blockAddr + needed
      let memory := FreeBlock.setSize machine.memory newBlock remaining
      let memory := FreeBlock.setNext memory newBlock machine.heap.freeList
      { machine with
        memory := Function.update memory header needed
        heap := { machine.heap with freeList := some newBlock } }
    else { machine with memory := Function.update machine.memory header blockSize }
  { machine with
    heap := { machine.heap with allocatedBytes := machine.heap.allocatedBytes + needed } }

/-- Allocation from the existing free list, without growth. -/
def tryAllocate (fuel : Nat) (machine : HeapMachine) (layout : Layout) :
    Option (Option Placement × HeapMachine) :=
  match findFit machine.memory layout fuel none machine.heap.freeList with
  | none => none
  | some none => some (none, machine)
  | some (some (prev, blockAddr)) =>
    some (some ⟨alignedStart layout blockAddr, blockAddr⟩, machine.carve layout prev blockAddr)

/-- The insertion loop: stop before the first block behind `addr`. -/
def insertionPoint (memory : Words) (addr : Nat) :
    Nat → Option Nat → Option Nat → Option (Option Nat × Option Nat)
  | 0, _, _ => none
  | _ + 1, prev, none => some (prev, none)
  | fuel + 1, prev, some blockAddr =>
    if blockAddr > addr then some (prev, some blockAddr)
    else insertionPoint memory addr fuel (some blockAddr) (FreeBlock.next memory blockAddr)

/-- Link the new region between its neighbours and coalesce, previous block first. -/
def linkRegion (machine : HeapMachine) (newRegion : Nat) (prev current : Option Nat) : HeapMachine :=
  let memory := FreeBlock.setNext machine.memory newRegion current
  match prev with
  | some prevAddr =>
    let memory := FreeBlock.setNext memory prevAddr (some newRegion)
    if prevAddr + FreeBlock.size memory prevAddr = newRegion then
      let memory := FreeBlock.absorb memory prevAddr newRegion
      { machine with memory := FreeBlock.coalesceNext memory prevAddr }
    else { machine with memory := FreeBlock.coalesceNext memory newRegion }
  | none =>
    { machine with
      memory := FreeBlock.coalesceNext memory newRegion
      heap := { machine.heap with freeList := some newRegion } }

/-- Grow the heap by contiguous frames; the new region becomes a free block. -/
def grow (fuel : Nat) (machine : HeapMachine) (minBytes : Nat) : Option (Bool × HeapMachine) :=
  let pages := max ((minBytes + pageSize - 1) / pageSize) growMinPages
  match machine.frames.allocateContiguousFrames pages with
  | (none, frames) => some (false, { machine with frames := frames })
  | (some newRegion, frames) =>
    let newSize := pages * pageSize
    let memory := FreeBlock.setSize machine.memory newRegion newSize
    let memory := FreeBlock.setNext memory newRegion none
    match insertionPoint memory newRegion fuel none machine.heap.freeList with
    | none => none
    | some (prev, current) =>
      let linked := linkRegion { machine with memory := memory } newRegion prev current
      some (true,
        { linked with
          heap := { linked.heap with totalSize := linked.heap.totalSize + newSize }
          frames := frames
          regions := ⟨newRegion, newSize⟩ :: linked.regions })

/-- Allocate memory with the given layout, growing the heap once if no block is large enough. -/
def allocate (fuel : Nat) (machine : HeapMachine) (layout : Layout) :
    Option (Option Placement × HeapMachine) :=
  match machine.tryAllocate fuel layout with
  | none => none
  | some (some placement, machine) => some (some placement, machine)
  | some (none, machine) =>
    let needed := max layout.size FreeBlock.minSize
    let growSize := maskUp needed growIncrement
    match machine.grow fuel growSize with
    | none => none
    | some (true, machine) => machine.tryAllocate fuel layout
    | some (false, machine) => some (none, machine)

/-- Link a freed block between its neighbours and coalesce, next block first. -/
def linkFreed (machine : HeapMachine) (blockAddr : Nat) (prev current : Option Nat) : HeapMachine :=
  let memory := FreeBlock.setNext machine.memory blockAddr current
  match prev with
  | some prevAddr =>
    let memory := FreeBlock.setNext memory prevAddr (some blockAddr)
    let memory := FreeBlock.coalesceNext memory blockAddr
    if prevAddr + FreeBlock.size memory prevAddr = blockAddr then
      { machine with memory := FreeBlock.absorb memory prevAddr blockAddr }
    else { machine with memory := memory }
  | none =>
    { machine with
      memory := FreeBlock.coalesceNext memory blockAddr
      heap := { machine.heap with freeList := some blockAddr } }

/-- Return the block described by the header before `ptr` to the free list. -/
def deallocate (fuel : Nat) (machine : HeapMachine) (ptr : Nat) : Option HeapMachine :=
  let totalSize := machine.memory (ptr - headerSize)
  let blockAddr := ptr - headerSize
  let memory := FreeBlock.setSize machine.memory blockAddr totalSize
  match insertionPoint memory blockAddr fuel none machine.heap.freeList with
  | none => none
  | some (prev, current) =>
    let linked := linkFreed { machine with memory := memory } blockAddr prev current
    some { linked with
      heap := { linked.heap with allocatedBytes := linked.heap.allocatedBytes - totalSize } }

/-- Initialise the kernel heap from freshly allocated frames; `none` is the panic of `expect`. -/
def boot (memory : Words) (frames : FrameAllocator) : Option HeapMachine :=
  match frames.allocateContiguousFrames (heapSize / pageSize) with
  | (none, _) => none
  | (some heapAddr, frames) =>
    some (init ⟨memory, ⟨none, 0, 0⟩, frames, []⟩ heapAddr heapSize)

end HeapMachine

end CantayaOS.Memory
