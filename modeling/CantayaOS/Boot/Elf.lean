import CantayaOS.Lib.Bytes
import CantayaOS.Lib.Logged
import CantayaOS.Boot.Paging

/-!
# The kernel loader

The bootloader reads the kernel file as a 64-bit ELF executable.  A first pass
over the program headers finds the range of addresses that the loadable
segments take, a second pass copies them into pages from the firmware.  The
loader reads headers through raw pointers, so a read outside the file is not
stopped; its actions are logged to say where it reads, where it writes and
what its address arithmetic would give without wrapping.
-/

namespace CantayaOS.Boot

open Lib Lib.Bytes Memory

/-- The file in memory; a read beyond its end gives whatever the memory there holds. -/
structure ElfFile where
  data : List UInt8
  small : data.length < 2 ^ 63
  beyond : Nat → UInt8

namespace ElfFile

def size (file : ElfFile) : Nat := file.data.length

def byte (file : ElfFile) (offset : Nat) : UInt8 := file.data.getD offset (file.beyond offset)

def field (file : ElfFile) (offset width : Nat) : Nat := fromLe (window file.byte offset width)

end ElfFile

inductive LoadAction where
  | read (offset len : Nat)
  | allocate (base pages : Nat)
  | write (addr len : Nat)
  | compute (exact : Int)
  deriving DecidableEq, Repr

/-- The assertions of the loader, with the values that their messages print. -/
inductive ElfAssertion where
  | tooSmallForHeader
  | badMagic
  | not64Bit
  | notLittleEndian
  | notExecutable (eType : Nat)
  | notX8664 (eMachine : Nat)
  | programHeaderOutOfBounds
  | segmentOutOfBounds (offset filesz elfSize : Nat)
  deriving DecidableEq, Repr

/-- The loader panics at an assertion, without memory, or at a slice that ends before its start. -/
inductive LoadStop where
  | assertion (failed : ElfAssertion)
  | allocation
  | slice
  deriving DecidableEq, Repr

abbrev Loader : Type → Type := Logged LoadAction LoadStop

/-- The 64-bit result of an operation with the given exact value. -/
def wrap (exact : Int) : Nat := (exact % 2 ^ 64).toNat

def compute (exact : Int) : Loader Nat := ⟨[.compute exact], .ok (wrap exact)⟩

def readBytes (file : ElfFile) (offset len : Nat) : Loader (List UInt8) :=
  ⟨[.read offset len], .ok (window file.byte offset len)⟩

def readField (file : ElfFile) (offset width : Nat) : Loader Nat :=
  ⟨[.read offset width], .ok (file.field offset width)⟩

/-- The firmware's allocator of pages; what it hands out is aligned physical memory. -/
structure Firmware where
  allocatePages : Nat → Option Nat
  placed : ∀ pages base, allocatePages pages = some base →
    pageSize ∣ base ∧ base + pages * pageSize ≤ 2 ^ 52

def Firmware.allocate (firmware : Firmware) (pages : Nat) : Loader Nat :=
  match firmware.allocatePages pages with
  | some base => ⟨[.allocate base pages], .ok base⟩
  | none => Logged.stop .allocation

def elfMagic : List UInt8 := [0x7F, 0x45, 0x4C, 0x46]

def elfClass64 : Nat := 2

def elfDataLsb : Nat := 1

def elfTypeExec : Nat := 2

def elfTypeDyn : Nat := 3

def ptLoad : Nat := 1

def emX8664 : Nat := 0x3E

def elfHeaderSize : Nat := 64

/-- The fields of the file header that are used after it is checked. -/
structure ElfHeader where
  eEntry : Nat
  ePhoff : Nat
  ePhnum : Nat
  ePhentsize : Nat
  deriving DecidableEq, Repr

def readHeader (file : ElfFile) : Loader ElfHeader := do
  Logged.ensure (elfHeaderSize ≤ file.size) (.assertion .tooSmallForHeader)
  let magic ← readBytes file 0 4
  Logged.ensure (magic = elfMagic) (.assertion .badMagic)
  let elfClass ← readField file 4 1
  Logged.ensure (elfClass = elfClass64) (.assertion .not64Bit)
  let elfData ← readField file 5 1
  Logged.ensure (elfData = elfDataLsb) (.assertion .notLittleEndian)
  let eType ← readField file 16 2
  Logged.ensure (eType = elfTypeExec ∨ eType = elfTypeDyn) (.assertion (.notExecutable eType))
  let eMachine ← readField file 18 2
  Logged.ensure (eMachine = emX8664) (.assertion (.notX8664 eMachine))
  let eEntry ← readField file 24 8
  let ePhoff ← readField file 32 8
  let ePhnum ← readField file 56 2
  let ePhentsize ← readField file 54 2
  pure ⟨eEntry, ePhoff, ePhnum, ePhentsize⟩

def phAddr (header : ElfHeader) (i : Nat) : Loader Nat := do
  let skipped ← compute (i * header.ePhentsize)
  compute (header.ePhoff + skipped)

/-- The range of addresses that the segments seen so far take. -/
structure Extent where
  virtualBase : Nat
  totalEnd : Nat
  deriving DecidableEq, Repr

namespace Extent

def start : Extent := ⟨2 ^ 64 - 1, 0⟩

/-- The range with a segment from `vaddr` to `finish`. -/
def cover (extent : Extent) (vaddr finish : Nat) : Extent where
  virtualBase := if vaddr < extent.virtualBase then vaddr else extent.virtualBase
  totalEnd := if finish > extent.totalEnd then finish else extent.totalEnd

end Extent

def measureHeader (file : ElfFile) (header : ElfHeader) (extent : Extent) (i : Nat) :
    Loader Extent := do
  let addr ← phAddr header i
  let tableEnd ← compute (addr + header.ePhentsize)
  Logged.ensure (tableEnd ≤ file.size) (.assertion .programHeaderOutOfBounds)
  let pType ← readField file addr 4
  if pType ≠ ptLoad then pure extent
  else
    let vaddr ← readField file (addr + 16) 8
    let memsz ← readField file (addr + 40) 8
    let finish ← compute (vaddr + memsz)
    pure (extent.cover vaddr finish)

/-- The range of addresses that the loadable segments take. -/
def measure (file : ElfFile) (header : ElfHeader) : Loader Extent :=
  (List.range header.ePhnum).foldlM (measureHeader file header) .start

/-- The memory and the segments that were recorded, eight at most. -/
structure LoadState where
  ram : Nat → UInt8
  segments : List SegmentInfo
  fits : segments.length ≤ 8

namespace LoadState

def copy (state : LoadState) (dest : Nat) (bytes : List UInt8) : LoadState :=
  { state with ram := overlay state.ram dest bytes }

def record (state : LoadState) (segment : SegmentInfo) : LoadState :=
  if room : state.segments.length < 8 then
    ⟨state.ram, state.segments ++ [segment], by rw [List.length_append]; exact room⟩
  else state

end LoadState

def sliceFile (file : ElfFile) (start finish : Nat) : Loader (List UInt8) := do
  Logged.ensure (start ≤ finish ∧ finish ≤ file.size) .slice
  readBytes file start (finish - start)

def loadHeader (file : ElfFile) (header : ElfHeader) (virtualBase physicalBase : Nat)
    (state : LoadState) (i : Nat) : Loader LoadState := do
  let addr ← phAddr header i
  let pType ← readField file addr 4
  if pType ≠ ptLoad then pure state
  else
    let vaddr ← readField file (addr + 16) 8
    let offsetInKernel ← compute (vaddr - virtualBase)
    let dest ← compute (physicalBase + offsetInKernel)
    let offset ← readField file (addr + 8) 8
    let filesz ← readField file (addr + 32) 8
    let memsz ← readField file (addr + 40) 8
    let flags ← readField file (addr + 4) 4
    let fileEnd ← compute (offset + filesz)
    Logged.ensure (fileEnd ≤ file.size) (.assertion (.segmentOutOfBounds offset filesz file.size))
    let src ← sliceFile file offset fileEnd
    Logged.act (.write dest src.length)
    pure ((state.copy dest src).record
      ⟨UInt64.ofNat offsetInKernel, UInt64.ofNat memsz, UInt32.ofNat flags⟩)

def zeroBytes (ram : Nat → UInt8) (base len : Nat) : Nat → UInt8 := fun addr =>
  if base ≤ addr ∧ addr < base + len then 0 else ram addr

def loadSegments (file : ElfFile) (header : ElfHeader) (virtualBase physicalBase : Nat)
    (ram : Nat → UInt8) : Loader LoadState :=
  (List.range header.ePhnum).foldlM (loadHeader file header virtualBase physicalBase)
    ⟨ram, [], Nat.zero_le 8⟩

structure LoadedKernel extends KernelLoadInfo where
  entryPoint : UInt64
  virtualBase : UInt64

/-- Load the kernel and return its description with the memory it is loaded into. -/
def parseAndLoadElf (firmware : Firmware) (ram : Nat → UInt8) (file : ElfFile) :
    Loader (LoadedKernel × (Nat → UInt8)) := do
  let header ← readHeader file
  let extent ← measure file header
  let totalSize ← compute (extent.totalEnd - extent.virtualBase)
  let padded ← compute (totalSize + 4095)
  let pagesNeeded := padded / 4096
  let physicalBase ← firmware.allocate pagesNeeded
  let bytes ← compute (pagesNeeded * 4096)
  Logged.act (.write physicalBase bytes)
  let state ← loadSegments file header extent.virtualBase physicalBase
    (zeroBytes ram physicalBase bytes)
  pure (⟨⟨UInt64.ofNat physicalBase, UInt64.ofNat totalSize, state.segments, state.fits⟩,
    UInt64.ofNat header.eEntry, UInt64.ofNat extent.virtualBase⟩, state.ram)

end CantayaOS.Boot
