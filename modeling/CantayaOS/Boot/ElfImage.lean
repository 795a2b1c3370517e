import CantayaOS.Boot.Elf

/-!
# What the kernel file says

The program headers of the file and the range that its loadable segments take,
without the loader's arithmetic.  As long as nothing wraps the two passes of
the loader compute exactly this.
-/

namespace CantayaOS.Boot

open Lib Lib.Bytes Memory Logged ElfFile List

/-- The fields of a program header that the loader reads. -/
structure ProgramHeader where
  pType : Nat
  pFlags : Nat
  pOffset : Nat
  pVaddr : Nat
  pFilesz : Nat
  pMemsz : Nat
  deriving DecidableEq, Repr

def ProgramHeader.finish (ph : ProgramHeader) : Nat := ph.pVaddr + ph.pMemsz

variable {β : Type} {ph : ProgramHeader} {next : Nat → Loader β}

variable {first i len offset physicalBase second virtualBase : Nat}
  {before behind part : List UInt8}

namespace ElfFile

variable (file : ElfFile)

def header : ElfHeader := ⟨file.field 24 8, file.field 32 8, file.field 56 2, file.field 54 2⟩

def headerAddr (i : Nat) : Nat := file.header.ePhoff + i * file.header.ePhentsize

def programHeader (i : Nat) : ProgramHeader where
  pType := file.field (file.headerAddr i) 4
  pFlags := file.field (file.headerAddr i + 4) 4
  pOffset := file.field (file.headerAddr i + 8) 8
  pVaddr := file.field (file.headerAddr i + 16) 8
  pFilesz := file.field (file.headerAddr i + 32) 8
  pMemsz := file.field (file.headerAddr i + 40) 8

theorem field_pType (i : Nat) : file.field (file.headerAddr i) 4 = (file.programHeader i).pType := rfl

theorem field_pOffset (i : Nat) :
    file.field (file.headerAddr i + 8) 8 = (file.programHeader i).pOffset := rfl

theorem field_pVaddr (i : Nat) :
    file.field (file.headerAddr i + 16) 8 = (file.programHeader i).pVaddr := rfl

theorem field_pFilesz (i : Nat) :
    file.field (file.headerAddr i + 32) 8 = (file.programHeader i).pFilesz := rfl

theorem field_pMemsz (i : Nat) :
    file.field (file.headerAddr i + 40) 8 = (file.programHeader i).pMemsz := rfl

/-- The loadable segments in the order of their headers. -/
def loads : List ProgramHeader :=
  ((List.range file.header.ePhnum).map file.programHeader).filter fun ph => ph.pType = ptLoad

structure Identified : Prop where
  large : elfHeaderSize ≤ file.size
  magic : window file.byte 0 4 = elfMagic
  elfClass : file.field 4 1 = elfClass64
  elfData : file.field 5 1 = elfDataLsb
  eType : file.field 16 2 = elfTypeExec ∨ file.field 16 2 = elfTypeDyn
  eMachine : file.field 18 2 = emX8664

variable {file}

theorem field_lt (offset width : Nat) : file.field offset width < 256 ^ width := by
  have bound := fromLe_lt (window file.byte offset width)
  rw [length_window] at bound
  exact bound

theorem mem_loads :
    ph ∈ file.loads ↔
      ∃ i < file.header.ePhnum, (file.programHeader i).pType = ptLoad ∧ file.programHeader i = ph := by
  simp only [loads, mem_filter, List.mem_map, mem_range, decide_eq_true_eq]
  refine ⟨?_, ?_⟩
  · rintro ⟨⟨i, bound, rfl⟩, load⟩
    exact ⟨i, bound, load, rfl⟩
  · rintro ⟨i, bound, load, rfl⟩
    exact ⟨⟨i, bound, rfl⟩, load⟩

theorem forall_loads {P : ProgramHeader → Prop} :
    (∀ ph ∈ file.loads, P ph) ↔
      ∀ i < file.header.ePhnum, (file.programHeader i).pType = ptLoad → P (file.programHeader i) := by
  refine ⟨fun all i bound load => all _ (mem_loads.mpr ⟨i, bound, load, rfl⟩), ?_⟩
  intro all ph member
  obtain ⟨i, bound, load, rfl⟩ := mem_loads.mp member
  exact all i bound load

theorem vaddr_lt (member : ph ∈ file.loads) : ph.pVaddr < 2 ^ 64 := by
  obtain ⟨i, _, _, rfl⟩ := mem_loads.mp member
  exact field_lt _ 8

theorem skipped_lt (bound : i < file.header.ePhnum) : i * file.header.ePhentsize < 2 ^ 32 := by
  have count : file.header.ePhnum < 2 ^ 16 := field_lt 56 2
  have size : file.header.ePhentsize < 2 ^ 16 := field_lt 54 2
  calc i * file.header.ePhentsize ≤ 2 ^ 16 * file.header.ePhentsize :=
        Nat.mul_le_mul_right _ (by omega)
    _ < 2 ^ 16 * 2 ^ 16 := mul_lt_mul_of_pos_left size (by decide)
    _ = 2 ^ 32 := by decide

end ElfFile

theorem wrap_of_lt {exact : Nat} (small : exact < 2 ^ 64) : wrap exact = exact := by
  unfold wrap
  omega

theorem wrap_add (small : first + second < 2 ^ 64) : wrap (first + second) = first + second := by
  rw [← Int.natCast_add, wrap_of_lt small]

theorem wrap_sub (least : second ≤ first) (small : first < 2 ^ 64) :
    wrap (first - second) = first - second := by
  rw [← Int.natCast_sub least]
  exact wrap_of_lt (by omega)

section Actions

variable {β : Type} {good : LoadAction → Prop} {allowed : LoadStop → Prop} {file : ElfFile}
  {exact : Int} {offset len : Nat}

@[simp] theorem all_compute : (compute exact).All good ↔ good (.compute exact) := by
  simp [Logged.All, compute]

@[simp] theorem all_readBytes : (readBytes file offset len).All good ↔ good (.read offset len) := by
  simp [Logged.All, readBytes]

@[simp] theorem all_compute_bind :
    (compute exact >>= next).All good ↔ good (.compute exact) ∧ (next (wrap exact)).All good := by
  rw [all_bind_of_ok rfl, all_compute]

@[simp] theorem all_readField_bind :
    (readField file offset len >>= next).All good ↔
      good (.read offset len) ∧ (next (file.field offset len)).All good := by
  rw [all_bind_of_ok rfl]
  simp [Logged.All, readField]

@[simp] theorem all_readBytes_bind {next : List UInt8 → Loader β} :
    (readBytes file offset len >>= next).All good ↔
      good (.read offset len) ∧ (next (window file.byte offset len)).All good := by
  rw [all_bind_of_ok rfl, all_readBytes]

@[simp] theorem stopsOnly_compute_bind :
    (compute exact >>= next).StopsOnly allowed ↔ (next (wrap exact)).StopsOnly allowed :=
  stopsOnly_bind_of_ok rfl

@[simp] theorem stopsOnly_readField_bind :
    (readField file offset len >>= next).StopsOnly allowed ↔
      (next (file.field offset len)).StopsOnly allowed :=
  stopsOnly_bind_of_ok rfl

@[simp] theorem stopsOnly_readBytes_bind {next : List UInt8 → Loader β} :
    (readBytes file offset len >>= next).StopsOnly allowed ↔
      (next (window file.byte offset len)).StopsOnly allowed :=
  stopsOnly_bind_of_ok rfl

@[simp] theorem outcome_compute_bind :
    (compute exact >>= next).outcome = (next (wrap exact)).outcome := rfl

@[simp] theorem outcome_readField_bind :
    (readField file offset len >>= next).outcome = (next (file.field offset len)).outcome := rfl

@[simp] theorem outcome_readBytes_bind {next : List UInt8 → Loader β} :
    (readBytes file offset len >>= next).outcome = (next (window file.byte offset len)).outcome := rfl

end Actions

def Passes {α : Type} (run : Loader α) : Prop :=
  run.StopsOnly fun reason => ∀ failed, reason ≠ .assertion failed

theorem passes_ensure_bind {β : Type} {condition : Prop} [Decidable condition]
    {failed : ElfAssertion} {next : Unit → Loader β} :
    Passes (Logged.ensure condition (.assertion failed) >>= next) ↔ condition ∧ Passes (next ()) :=
  stopsOnly_ensure_bind fun allowed => allowed failed rfl

variable {file : ElfFile}

theorem identified_of_passes (passes : Passes (readHeader file)) : file.Identified := by
  obtain ⟨large, passes⟩ := passes_ensure_bind.mp passes
  obtain ⟨magic, passes⟩ := passes_ensure_bind.mp (stopsOnly_readBytes_bind.mp passes)
  obtain ⟨elfClass, passes⟩ := passes_ensure_bind.mp (stopsOnly_readField_bind.mp passes)
  obtain ⟨elfData, passes⟩ := passes_ensure_bind.mp (stopsOnly_readField_bind.mp passes)
  obtain ⟨eType, passes⟩ := passes_ensure_bind.mp (stopsOnly_readField_bind.mp passes)
  obtain ⟨eMachine, _⟩ := passes_ensure_bind.mp (stopsOnly_readField_bind.mp passes)
  exact ⟨large, magic, elfClass, elfData, eType, eMachine⟩

theorem readHeader_outcome (identified : file.Identified) :
    (readHeader file).outcome = .ok file.header := by
  unfold readHeader
  rw [outcome_ensure_bind identified.large, outcome_readBytes_bind,
    outcome_ensure_bind identified.magic, outcome_readField_bind,
    outcome_ensure_bind identified.elfClass, outcome_readField_bind,
    outcome_ensure_bind identified.elfData, outcome_readField_bind,
    outcome_ensure_bind identified.eType, outcome_readField_bind,
    outcome_ensure_bind identified.eMachine]
  rfl

/-- The table of program headers does not wrap up to the end of one header. -/
def TableFits (file : ElfFile) (i : Nat) : Prop :=
  file.headerAddr i + file.header.ePhentsize < 2 ^ 64

instance (file : ElfFile) (i : Nat) : Decidable (TableFits file i) :=
  inferInstanceAs (Decidable (_ < _))

variable {i : Nat}

theorem phAddr_outcome (bound : i < file.header.ePhnum) :
    (phAddr file.header i).outcome = .ok (wrap (file.headerAddr i : Nat)) := by
  have small := skipped_lt bound
  have exact : wrap (i * file.header.ePhentsize) = i * file.header.ePhentsize := by
    exact wrap_of_lt (by omega)
  unfold phAddr headerAddr
  rw [outcome_compute_bind, exact]
  simp only [compute, Int.natCast_add]

theorem phAddr_outcome_of_fits (bound : i < file.header.ePhnum) (fits : TableFits file i) :
    (phAddr file.header i).outcome = .ok (file.headerAddr i) := by
  unfold TableFits at fits
  rw [phAddr_outcome bound, wrap_of_lt (by omega)]

def ElfFile.measured (file : ElfFile) (extent : Extent) (i : Nat) : Extent :=
  if (file.programHeader i).pType = ptLoad then
    extent.cover (file.programHeader i).pVaddr (file.programHeader i).finish
  else extent

theorem measureHeader_outcome {extent : Extent} (bound : i < file.header.ePhnum)
    (fits : TableFits file i) (inside : file.headerAddr i + file.header.ePhentsize ≤ file.size)
    (ends : (file.programHeader i).pType = ptLoad → (file.programHeader i).finish < 2 ^ 64) :
    (measureHeader file file.header extent i).outcome = .ok (file.measured extent i) := by
  unfold measureHeader
  rw [outcome_bind_of_ok (phAddr_outcome_of_fits bound fits), outcome_compute_bind,
    wrap_add fits, outcome_ensure_bind inside, outcome_readField_bind]
  unfold measured
  rw [file.field_pType]
  by_cases load : (file.programHeader i).pType = ptLoad
  · rw [if_neg (not_not.mpr load), if_pos load, outcome_readField_bind, outcome_readField_bind,
      outcome_compute_bind, file.field_pVaddr, file.field_pMemsz, wrap_add (ends load)]
    rfl
  · rw [if_pos load, if_neg load]
    rfl

/-! ## The range of the segments -/

def extentOf (loads : List ProgramHeader) : Extent :=
  loads.foldl (fun extent ph => extent.cover ph.pVaddr ph.finish) .start

theorem foldl_measured (file : ElfFile) :
    (List.range file.header.ePhnum).foldl file.measured .start = extentOf file.loads := by
  unfold extentOf ElfFile.loads
  rw [foldl_filter, foldl_map]
  simp only [decide_eq_true_eq]
  rfl

structure Extent.Spans (extent : Extent) (loads : List ProgramHeader) : Prop where
  below : ∀ ph ∈ loads, extent.virtualBase ≤ ph.pVaddr
  above : ∀ ph ∈ loads, ph.finish ≤ extent.totalEnd
  first : ∃ ph ∈ loads, ph.pVaddr = extent.virtualBase
  last : ∃ ph ∈ loads, ph.finish = extent.totalEnd

theorem extent_foldl (loads : List ProgramHeader) (init : Extent) :
    let extent := loads.foldl (fun extent ph => extent.cover ph.pVaddr ph.finish) init
    (extent.virtualBase ≤ init.virtualBase ∧ init.totalEnd ≤ extent.totalEnd) ∧
      (∀ ph ∈ loads, extent.virtualBase ≤ ph.pVaddr ∧ ph.finish ≤ extent.totalEnd) ∧
      (extent.virtualBase = init.virtualBase ∨ ∃ ph ∈ loads, ph.pVaddr = extent.virtualBase) ∧
      (extent.totalEnd = init.totalEnd ∨ ∃ ph ∈ loads, ph.finish = extent.totalEnd) := by
  induction loads generalizing init with
  | nil => simp
  | cons ph rest ih =>
    obtain ⟨wider, inside, first, last⟩ := ih (init.cover ph.pVaddr ph.finish)
    have base : (init.cover ph.pVaddr ph.finish).virtualBase =
        min ph.pVaddr init.virtualBase := by
      unfold Extent.cover
      dsimp only
      split <;> omega
    have stop : (init.cover ph.pVaddr ph.finish).totalEnd = max ph.finish init.totalEnd := by
      unfold Extent.cover
      dsimp only
      split <;> omega
    simp only [foldl_cons, forall_mem_cons, exists_mem_cons_iff]
    refine ⟨by omega, ⟨by omega, inside⟩, ?_, ?_⟩
    · rcases first with same | later
      · omega
      · exact .inr (.inr later)
    · rcases last with same | later
      · omega
      · exact .inr (.inr later)

theorem extentOf_spans {loads : List ProgramHeader} (nonempty : loads ≠ [])
    (small : ∀ ph ∈ loads, ph.pVaddr < 2 ^ 64) : (extentOf loads).Spans loads := by
  obtain ⟨wider, inside, first, last⟩ := extent_foldl loads .start
  obtain ⟨ph, member⟩ := exists_mem_of_ne_nil loads nonempty
  have both := inside ph member
  refine ⟨fun ph member => (inside ph member).1, fun ph member => (inside ph member).2, ?_, ?_⟩
  · rcases first with same | found
    · refine ⟨ph, member, ?_⟩
      have upper := small ph member
      unfold extentOf
      unfold Extent.start at *
      dsimp only at *
      omega
    · exact found
  · rcases last with same | found
    · refine ⟨ph, member, ?_⟩
      unfold extentOf
      unfold Extent.start at *
      dsimp only at *
      omega
    · exact found

namespace LoadState

@[simp] theorem ram_record (state : LoadState) (segment : SegmentInfo) :
    (state.record segment).ram = state.ram := by
  unfold record
  split <;> rfl

theorem segments_record (state : LoadState) (segment : SegmentInfo) :
    (state.record segment).segments =
      if state.segments.length < 8 then state.segments ++ [segment] else state.segments := by
  unfold record
  split <;> rfl

end LoadState

def LoadState.load (file : ElfFile) (virtualBase physicalBase : Nat) (state : LoadState)
    (ph : ProgramHeader) : LoadState :=
  (state.copy (physicalBase + (ph.pVaddr - virtualBase))
      (window file.byte ph.pOffset ph.pFilesz)).record
    ⟨UInt64.ofNat (ph.pVaddr - virtualBase), UInt64.ofNat ph.pMemsz, UInt32.ofNat ph.pFlags⟩

/-- The second pass can place a segment: its file bytes exist and its address does not wrap. -/
structure Placeable (file : ElfFile) (virtualBase physicalBase : Nat) (ph : ProgramHeader) :
    Prop where
  below : virtualBase ≤ ph.pVaddr
  dest : physicalBase + (ph.pVaddr - virtualBase) < 2 ^ 64
  inFile : ph.pOffset + ph.pFilesz ≤ file.size

theorem sliceFile_outcome {start : Nat} (inside : start + len ≤ file.size) :
    (sliceFile file start (start + len)).outcome = .ok (window file.byte start len) := by
  unfold sliceFile
  rw [outcome_ensure_bind ⟨Nat.le_add_right _ _, inside⟩]
  simp only [readBytes, Nat.add_sub_cancel_left]

theorem loadHeader_outcome {state : LoadState}
    (bound : i < file.header.ePhnum) (fits : TableFits file i)
    (place : (file.programHeader i).pType = ptLoad →
      Placeable file virtualBase physicalBase (file.programHeader i)) :
    (loadHeader file file.header virtualBase physicalBase state i).outcome =
      .ok (if (file.programHeader i).pType = ptLoad then
        state.load file virtualBase physicalBase (file.programHeader i) else state) := by
  unfold loadHeader
  rw [outcome_bind_of_ok (phAddr_outcome_of_fits bound fits), outcome_readField_bind,
    file.field_pType]
  by_cases load : (file.programHeader i).pType = ptLoad
  · obtain ⟨below, dest, inFile⟩ := place load
    have vaddr : (file.programHeader i).pVaddr < 2 ^ 64 := field_lt _ 8
    have small := file.small
    have fileEnd : (file.programHeader i).pOffset + (file.programHeader i).pFilesz < 2 ^ 64 := by
      unfold size at inFile
      omega
    rw [if_neg (not_not.mpr load), if_pos load, outcome_readField_bind, file.field_pVaddr,
      outcome_compute_bind, wrap_sub below vaddr, outcome_compute_bind, wrap_add dest,
      outcome_readField_bind, outcome_readField_bind, outcome_readField_bind,
      outcome_readField_bind, file.field_pOffset, file.field_pFilesz, outcome_compute_bind,
      wrap_add fileEnd, outcome_ensure_bind inFile, outcome_bind_of_ok (sliceFile_outcome inFile)]
    rfl
  · rw [if_pos load, if_neg load]
    rfl

/-- The second pass loads the segments one after the other. -/
theorem loadSegments_outcome {ram : Nat → UInt8} (fits : ∀ i < file.header.ePhnum, TableFits file i)
    (place : ∀ ph ∈ file.loads, Placeable file virtualBase physicalBase ph) :
    (loadSegments file file.header virtualBase physicalBase ram).outcome =
      .ok (file.loads.foldl (LoadState.load file virtualBase physicalBase)
        ⟨ram, [], Nat.zero_le 8⟩) := by
  unfold loadSegments
  rw [outcome_foldlM fun state i member =>
    loadHeader_outcome (mem_range.mp member) (fits i (mem_range.mp member)) fun load =>
      place _ (mem_loads.mpr ⟨i, mem_range.mp member, load, rfl⟩)]
  unfold loads
  rw [foldl_filter, foldl_map]
  simp

/-! ## Files with given segments -/

def ProgramHeader.encode (ph : ProgramHeader) : List UInt8 :=
  toLe 4 ph.pType ++ toLe 4 ph.pFlags ++ toLe 8 ph.pOffset ++ toLe 8 ph.pVaddr ++ toLe 8 0 ++
    toLe 8 ph.pFilesz ++ toLe 8 ph.pMemsz ++ toLe 8 0

/-- The bytes of a file header in front of so many program headers. -/
def encodeHeader (phnum : Nat) : List UInt8 :=
  elfMagic ++ [2, 1] ++ List.replicate 10 0 ++ toLe 2 elfTypeExec ++ toLe 2 emX8664 ++ toLe 4 1 ++
    toLe 8 kernelVaddrBase ++ toLe 8 elfHeaderSize ++ toLe 8 0 ++ toLe 4 0 ++ toLe 2 elfHeaderSize ++
    toLe 2 56 ++ toLe 2 phnum ++ List.replicate 6 0

/-- The bytes of a file whose program headers follow the file header. -/
def encodeElf (phs : List ProgramHeader) : List UInt8 :=
  encodeHeader phs.length ++ phs.flatMap ProgramHeader.encode

theorem length_encode (ph : ProgramHeader) : ph.encode.length = 56 := by
  simp [ProgramHeader.encode]

theorem length_flatMap_encode (phs : List ProgramHeader) :
    (phs.flatMap ProgramHeader.encode).length = phs.length * 56 := by
  simp [length_encode]

theorem length_encodeElf (phs : List ProgramHeader) :
    (encodeElf phs).length = elfHeaderSize + phs.length * 56 := by
  rw [encodeElf, length_append, length_flatMap_encode]
  rfl

/-- A file with the given program headers in memory that is zero behind it. -/
def fileOf (phs : List ProgramHeader) (few : phs.length < 2 ^ 16) : ElfFile where
  data := encodeElf phs
  small := by
    rw [length_encodeElf]
    unfold elfHeaderSize
    omega
  beyond := fun _ => 0

section

variable (data : file.data = before ++ part ++ behind) (inside : offset + len ≤ part.length)
include data inside

theorem window_of_part :
    window file.byte (before.length + offset) len = (part.drop offset).take len := by
  apply ext_getElem
  · simp only [length_window, length_take, length_drop]
    omega
  · intro k first second
    have small : k < len := by simpa using first
    have position : before.length + offset + k - before.length = offset + k := by omega
    simp only [window, getElem_map, getElem_range, getElem_take, getElem_drop]
    unfold byte
    rw [data, append_assoc, getD_append_right _ _ _ _ (by omega), position,
      getD_append _ _ _ _ (by omega), getD_eq_getElem _ _ (by omega)]

theorem field_of_part :
    file.field (before.length + offset) len = fromLe ((part.drop offset).take len) := by
  unfold ElfFile.field
  rw [window_of_part data inside]

end

section FileOf

variable {phs : List ProgramHeader} {few : phs.length < 2 ^ 16}

theorem window_fileOf_header (inside : offset + len ≤ 64) :
    window (fileOf phs few).byte offset len =
      ((encodeHeader phs.length).drop offset).take len := by
  have whole : (fileOf phs few).data =
      [] ++ encodeHeader phs.length ++ phs.flatMap ProgramHeader.encode := rfl
  rw [← window_of_part whole inside, length_nil, zero_add]

theorem field_fileOf_header (inside : offset + len ≤ 64) : (fileOf phs few).field offset len =
      fromLe (((encodeHeader phs.length).drop offset).take len) := by
  unfold ElfFile.field
  rw [window_fileOf_header inside]

theorem header_fileOf : (fileOf phs few).header = ⟨kernelVaddrBase, elfHeaderSize, phs.length, 56⟩ := by
  have count : fromLe (toLe 2 phs.length) = phs.length := by
    rw [fromLe_toLe]
    exact Nat.mod_eq_of_lt few
  unfold ElfFile.header
  rw [field_fileOf_header (by decide), field_fileOf_header (by decide),
    field_fileOf_header (by decide), field_fileOf_header (by decide)]
  have entry : fromLe (toLe 8 kernelVaddrBase) = kernelVaddrBase := by decide
  have offset : fromLe (toLe 8 elfHeaderSize) = elfHeaderSize := by decide
  have size : fromLe (toLe 2 56) = 56 := by decide
  exact (ElfHeader.mk.injEq ..).mpr ⟨entry, offset, count, size⟩

theorem identified_fileOf : (fileOf phs few).Identified := by
  refine ⟨?_, window_fileOf_header (by decide), ?_, ?_, ?_, ?_⟩
  · rw [ElfFile.size, fileOf, length_encodeElf]
    exact Nat.le_add_right _ _
  · exact field_fileOf_header (by decide)
  · exact field_fileOf_header (by decide)
  · exact .inl (field_fileOf_header (by decide))
  · exact field_fileOf_header (by decide)

/-- The fields have the widths of the file format. -/
structure ProgramHeader.Bounded (ph : ProgramHeader) : Prop where
  pType : ph.pType < 2 ^ 32
  pFlags : ph.pFlags < 2 ^ 32
  pOffset : ph.pOffset < 2 ^ 64
  pVaddr : ph.pVaddr < 2 ^ 64
  pFilesz : ph.pFilesz < 2 ^ 64
  pMemsz : ph.pMemsz < 2 ^ 64

/-- The program headers are read back. -/
theorem programHeader_fileOf (here : phs[i]? = some ph)
    (bounded : ph.Bounded) : (fileOf phs few).programHeader i = ph := by
  obtain ⟨inside, rfl⟩ := List.getElem?_eq_some_iff.mp here
  have split : phs = phs.take i ++ phs[i] :: phs.drop (i + 1) := by
    rw [getElem_cons_drop, take_append_drop]
  have data : (fileOf phs few).data =
      (encodeHeader phs.length ++ (phs.take i).flatMap ProgramHeader.encode) ++ phs[i].encode ++
        (phs.drop (i + 1)).flatMap ProgramHeader.encode := by
    have parts := congrArg (List.flatMap ProgramHeader.encode) split
    rw [flatMap_append, flatMap_cons] at parts
    change encodeHeader phs.length ++ phs.flatMap ProgramHeader.encode = _
    rw [parts]
    simp
  have addr : (fileOf phs few).headerAddr i =
      (encodeHeader phs.length ++ (phs.take i).flatMap ProgramHeader.encode).length := by
    unfold headerAddr
    rw [header_fileOf, length_append, length_flatMap_encode, length_take_of_le inside.le]
    rfl
  have read {offset len n : Nat} (small : offset + len ≤ 56)
      (part : (phs[i].encode.drop offset).take len = toLe len n) (fits : n < 256 ^ len) :
      (fileOf phs few).field ((fileOf phs few).headerAddr i + offset) len = n := by
    rw [addr, field_of_part data (by rw [length_encode]; exact small), part, fromLe_toLe]
    exact Nat.mod_eq_of_lt fits
  have pType : (fileOf phs few).field ((fileOf phs few).headerAddr i + 0) 4 = phs[i].pType :=
    read (by decide) rfl bounded.pType
  rw [add_zero] at pType
  have pFlags : (fileOf phs few).field ((fileOf phs few).headerAddr i + 4) 4 = phs[i].pFlags :=
    read (by decide) rfl bounded.pFlags
  have pOffset : (fileOf phs few).field ((fileOf phs few).headerAddr i + 8) 8 = phs[i].pOffset :=
    read (by decide) rfl bounded.pOffset
  have pVaddr : (fileOf phs few).field ((fileOf phs few).headerAddr i + 16) 8 = phs[i].pVaddr :=
    read (by decide) rfl bounded.pVaddr
  have pFilesz : (fileOf phs few).field ((fileOf phs few).headerAddr i + 32) 8 = phs[i].pFilesz :=
    read (by decide) rfl bounded.pFilesz
  have pMemsz : (fileOf phs few).field ((fileOf phs few).headerAddr i + 40) 8 = phs[i].pMemsz :=
    read (by decide) rfl bounded.pMemsz
  unfold programHeader
  rw [pType, pFlags, pOffset, pVaddr, pFilesz, pMemsz]

theorem loads_fileOf (bounded : ∀ ph ∈ phs, ph.Bounded) :
    (fileOf phs few).loads = phs.filter fun ph => ph.pType = ptLoad := by
  have headers : (List.range (fileOf phs few).header.ePhnum).map (fileOf phs few).programHeader =
      phs := by
    rw [header_fileOf]
    apply ext_getElem
    · simp
    · intro i _ inside
      rw [getElem_map, getElem_range]
      exact programHeader_fileOf (getElem?_eq_getElem inside) (bounded _ (getElem_mem _))
  unfold loads
  rw [headers]

end FileOf

/-- A firmware that has sixteen pages at 1 MiB. -/
def smallFirmware : Firmware where
  allocatePages pages := if pages ≤ 16 then some 0x100000 else none
  placed pages base granted := by
    split at granted
    next few =>
      cases granted
      refine ⟨by decide, ?_⟩
      unfold pageSize
      omega
    · cases granted

end CantayaOS.Boot
