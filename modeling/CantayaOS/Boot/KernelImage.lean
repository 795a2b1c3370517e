import CantayaOS.Boot.ElfSafety
import CantayaOS.Boot.Handoff
import CantayaOS.Boot.KernelMap

/-!
# The kernel image in its address space

A valid file is loaded into the pages that the firmware hands out, and the
tables map its segments at the addresses the file asks for.  The loader keeps
a record of eight segments only, and the tables are built from that record.
-/

namespace CantayaOS.Boot

open List Nat ProgramHeader

open Lib Lib.Bytes Memory Shared PageTableEntry BootMachine

def wordsOf (ram : Nat → UInt8) : Words := fun w => fromLe (window ram w 8)

/-- The byte at an address of a memory of words. -/
def byteAt (memory : Words) (addr : Nat) : UInt8 :=
  UInt8.ofNat (memory (addr / 8 * 8) / 256 ^ (addr % 8))

variable {memory : Words} {first second : ProgramHeader} {k x pml4 : Nat}

theorem byteAt_wordsOf (ram : Nat → UInt8) (addr : Nat) : byteAt (wordsOf ram) addr = ram addr := by
  have inside : addr % 8 < 8 := mod_lt _ (by decide)
  unfold byteAt wordsOf
  rw [ofNat_fromLe_div (by simpa using inside), getD_window inside]
  congr 1
  omega

theorem byteAt_congr {other : Words} {addr : Nat}
    (same : memory (addr / 8 * 8) = other (addr / 8 * 8)) :
    byteAt memory addr = byteAt other addr := by
  unfold byteAt
  rw [same]

def ProgramHeader.Holds (ph : ProgramHeader) (x : Nat) : Prop := ph.pVaddr ≤ x ∧ x < ph.finish

def ProgramHeader.Apart (first second : ProgramHeader) : Prop :=
  ∀ x, first.Holds x → ¬ second.Holds x

theorem ProgramHeader.Apart.symm (apart : first.Apart second) :
    second.Apart first := fun x inSecond inFirst => apart x inFirst inSecond

/--
A well-formed executable whose loadable segments are disjoint, start with
pages and end at addresses, the lowest of them at the kernel's base.
-/
structure ValidElf (file : ElfFile) : Prop where
  identified : file.Identified
  entrySize : file.header.ePhentsize = 56
  table : file.header.ePhoff + file.header.ePhnum * 56 ≤ file.size
  sizes : ∀ ph ∈ file.loads, ph.pFilesz ≤ ph.pMemsz
  bytes : ∀ ph ∈ file.loads, ph.pOffset + ph.pFilesz ≤ file.size
  aligned : ∀ ph ∈ file.loads, pageSize ∣ ph.pVaddr
  ends : ∀ ph ∈ file.loads, ph.finish < 2 ^ 64
  disjoint : file.loads.Pairwise ProgramHeader.Apart
  lowest : ∃ ph ∈ file.loads, ph.pVaddr = kernelVaddrBase
  above : ∀ ph ∈ file.loads, kernelVaddrBase ≤ ph.pVaddr

def segmentOf (virtualBase : Nat) (ph : ProgramHeader) : SegmentInfo :=
  ⟨UInt64.ofNat (ph.pVaddr - virtualBase), UInt64.ofNat ph.pMemsz, UInt32.ofNat ph.pFlags⟩

/-- The address holds a file byte of the segment. -/
def Filled (virtualBase physicalBase addr : Nat) (ph : ProgramHeader) : Prop :=
  physicalBase + (ph.pVaddr - virtualBase) ≤ addr ∧
    addr < physicalBase + (ph.pVaddr - virtualBase) + ph.pFilesz

instance (virtualBase physicalBase addr : Nat) : DecidablePred (Filled virtualBase physicalBase addr) :=
  fun _ => inferInstanceAs (Decidable (_ ∧ _))

section Pass

variable (file : ElfFile) (virtualBase physicalBase : Nat)

/-- The first segments are recorded, as many as there is room for. -/
theorem segments_foldl (loads : List ProgramHeader) (state : LoadState) :
    (loads.foldl (LoadState.load file virtualBase physicalBase) state).segments =
      (state.segments ++ loads.map (segmentOf virtualBase)).take 8 := by
  induction loads generalizing state with
  | nil => rw [map_nil, append_nil, foldl_nil, take_of_length_le state.fits]
  | cons ph rest ih =>
    have recorded : (state.load file virtualBase physicalBase ph).segments =
        if state.segments.length < 8 then state.segments ++ [segmentOf virtualBase ph]
        else state.segments := LoadState.segments_record ..
    rw [foldl_cons, ih, map_cons, recorded]
    by_cases room : state.segments.length < 8
    · rw [if_pos room, append_assoc, singleton_append]
    · have full : state.segments.length = 8 := le_antisymm state.fits (not_lt.mp room)
      rw [if_neg room, take_append_of_le_length (le_of_eq full.symm),
        take_append_of_le_length (le_of_eq full.symm)]

theorem ram_foldl (loads : List ProgramHeader) (state : LoadState) (addr : Nat) :
    (loads.foldl (LoadState.load file virtualBase physicalBase) state).ram addr =
      lastWrite (Filled virtualBase physicalBase addr)
        (fun ph => file.byte (ph.pOffset + (addr - (physicalBase + (ph.pVaddr - virtualBase)))))
        (state.ram addr) loads := by
  induction loads generalizing state with
  | nil => rfl
  | cons ph rest ih =>
    have copied : (state.load file virtualBase physicalBase ph).ram =
        overlay state.ram (physicalBase + (ph.pVaddr - virtualBase))
          (window file.byte ph.pOffset ph.pFilesz) := LoadState.ram_record ..
    rw [List.foldl_cons, ih, lastWrite_cons, copied]
    congr 1
    by_cases inside : Filled virtualBase physicalBase addr ph
    · rw [if_pos inside]
      obtain ⟨k, rfl⟩ := Nat.exists_eq_add_of_le inside.1
      have small : k < ph.pFilesz := Nat.lt_of_add_lt_add_left inside.2
      rw [ overlay_of_mem (by simpa using small), getD_window small, Nat.add_sub_cancel_left]
    have outside : addr < physicalBase + (ph.pVaddr - virtualBase) ∨
        physicalBase + (ph.pVaddr - virtualBase) + ph.pFilesz ≤ addr := by
      unfold Filled at inside
      omega
    rw [if_neg inside, overlay_of_not_mem (by rw [length_window]; exact outside)]

end Pass

/-! ## Loading a valid file -/

variable {count i : Nat}

namespace ValidElf

variable {file : ElfFile} (valid : ValidElf file)
include valid

theorem spans : (extentOf file.loads).Spans file.loads := by
  obtain ⟨ph, member, _⟩ := valid.lowest
  exact extentOf_spans (ne_nil_of_mem member) fun ph => ElfFile.vaddr_lt

theorem virtualBase_eq : (extentOf file.loads).virtualBase = kernelVaddrBase := by
  obtain ⟨lowest, member, start⟩ := valid.lowest
  obtain ⟨first, inside, attained⟩ := valid.spans.first
  have below := valid.spans.below lowest member
  have above := valid.above first inside
  omega

theorem totalEnd_bounds :
    kernelVaddrBase ≤ (extentOf file.loads).totalEnd ∧ (extentOf file.loads).totalEnd < 2 ^ 64 := by
  obtain ⟨last, member, finish⟩ := valid.spans.last
  have above := valid.above last member
  have ends := valid.ends last member
  unfold ProgramHeader.finish at *
  omega

/-- The memory of the image, rounded to pages. -/
theorem pages_eq : (extentOf file.loads).pagesNeeded * pageSize =
    roundUp ((extentOf file.loads).totalEnd - kernelVaddrBase) := by
  have bounds := valid.totalEnd_bounds
  have base := valid.virtualBase_eq
  rw [pagesNeeded_eq (by omega) bounds.2 (by unfold kernelVaddrBase at *; omega), base]

theorem table_fits (bound : i < file.header.ePhnum) :
    file.headerAddr i + file.header.ePhentsize ≤ file.size := by
  have table := valid.table
  unfold ElfFile.headerAddr
  rw [valid.entrySize]
  omega

theorem tableFits (bound : i < file.header.ePhnum) : TableFits file i := by
  have inside := valid.table_fits bound
  have small := file.small
  unfold TableFits ElfFile.size at *
  omega

theorem measure_outcome : (measure file file.header).outcome = .ok (extentOf file.loads) := by
  rw [← foldl_measured]
  refine Logged.outcome_foldlM fun extent i member => ?_
  have bound := mem_range.mp member
  exact measureHeader_outcome bound (valid.tableFits bound) (valid.table_fits bound) fun load =>
    valid.ends _ (ElfFile.mem_loads.mpr ⟨i, bound, load, rfl⟩)

end ValidElf

theorem noSegments_fit : ([] : List SegmentInfo).length ≤ 8 := Nat.zero_le 8

/-- The kernel as the loader leaves it at the given physical address. -/
def loadedState (file : ElfFile) (ram : Nat → UInt8) (base : Nat) : LoadState :=
  file.loads.foldl (LoadState.load file kernelVaddrBase base)
    ⟨zeroBytes ram base ((extentOf file.loads).pagesNeeded * pageSize), [], noSegments_fit⟩

def loadedKernel (file : ElfFile) (ram : Nat → UInt8) (base : Nat) : LoadedKernel where
  physicalBase := UInt64.ofNat base
  size := UInt64.ofNat ((extentOf file.loads).totalEnd - kernelVaddrBase)
  segments := (loadedState file ram base).segments
  fits := (loadedState file ram base).fits
  entryPoint := UInt64.ofNat file.header.eEntry
  virtualBase := UInt64.ofNat kernelVaddrBase

section Loading

variable {file : ElfFile} {firmware : Firmware} {ram : Nat → UInt8} {base : Nat}

section

variable (valid : ValidElf file)
  (granted : firmware.allocatePages (extentOf file.loads).pagesNeeded = some base)
include valid granted

theorem ValidElf.inside :
    pageSize ∣ base ∧
      base + roundUp ((extentOf file.loads).totalEnd - kernelVaddrBase) ≤ 2 ^ 52 := by
  have placed := firmware.placed _ _ granted
  rw [valid.pages_eq] at placed
  exact placed

/-- A valid file is loaded whenever the firmware has the pages. -/
theorem ValidElf.loaded :
    (parseAndLoadElf firmware ram file).outcome =
      .ok (loadedKernel file ram base, (loadedState file ram base).ram) := by
  have bounds := valid.totalEnd_bounds
  have start := valid.virtualBase_eq
  have room := (valid.inside granted).2
  have place (ph : ProgramHeader) (member : ph ∈ file.loads) :
      Placeable file kernelVaddrBase base ph := by
    have above := valid.spans.above ph member
    have total := le_roundUp ((extentOf file.loads).totalEnd - kernelVaddrBase)
    unfold ProgramHeader.finish at above
    exact ⟨valid.above ph member, by omega, valid.bytes ph member⟩
  have bytes : wrap ((extentOf file.loads).pagesNeeded * 4096) =
      (extentOf file.loads).pagesNeeded * pageSize := by
    have exact : ((extentOf file.loads).pagesNeeded * 4096 : Int) =
        ((extentOf file.loads).pagesNeeded * pageSize : Nat) := (Int.natCast_mul _ _).symm
    rw [exact]
    apply wrap_of_lt
    rw [valid.pages_eq]
    omega
  have loads : (loadSegments file file.header kernelVaddrBase base
      (zeroBytes ram base ((extentOf file.loads).pagesNeeded * pageSize))).outcome =
      .ok (loadedState file ram base) :=
    loadSegments_outcome (fun i bound => valid.tableFits bound) place
  unfold parseAndLoadElf
  rw [Logged.outcome_bind_of_ok (readHeader_outcome valid.identified),
    Logged.outcome_bind_of_ok valid.measure_outcome, outcome_compute_bind]
  change (firmware.allocate (extentOf file.loads).pagesNeeded >>= _).outcome = _
  rw [allocate_eq granted, Logged.outcome_bind_of_ok rfl, outcome_compute_bind,
    Logged.outcome_act_bind]
  change (loadSegments file file.header (extentOf file.loads).virtualBase base (zeroBytes ram base
    (wrap ((extentOf file.loads).pagesNeeded * 4096))) >>= _).outcome = _
  rw [bytes, start, Logged.outcome_bind_of_ok loads, wrap_sub bounds.1 bounds.2]
  rfl

end

theorem ValidElf.apart (valid : ValidElf file)
    (inFirst : first ∈ file.loads) (inSecond : second ∈ file.loads) (different : first ≠ second) :
    first.Apart second := by
  have symmetric : Std.Symm ProgramHeader.Apart := ⟨fun _ _ => ProgramHeader.Apart.symm⟩
  exact valid.disjoint.forall inFirst inSecond different

/-- The bytes of a segment are in memory: those of the file and then zeros. -/
theorem ValidElf.ram_eq (valid : ValidElf file) {ph : ProgramHeader} (member : ph ∈ file.loads)
    (inside : k < ph.pMemsz) :
    (loadedState file ram base).ram (base + (ph.pVaddr - kernelVaddrBase) + k) =
      if k < ph.pFilesz then file.byte (ph.pOffset + k) else 0 := by
  have only (other : ProgramHeader) (inOther : other ∈ file.loads)
      (owns : Filled kernelVaddrBase base (base + (ph.pVaddr - kernelVaddrBase) + k) other) :
      other = ph := by
    by_contra different
    obtain ⟨lower, upper⟩ := owns
    have sizes := valid.sizes other inOther
    have first := valid.above ph member
    have second := valid.above other inOther
    apply valid.apart inOther member different (ph.pVaddr + k)
    · exact ⟨by omega, by unfold ProgramHeader.finish; omega⟩
    · exact ⟨Nat.le_add_right _ _, Nat.add_lt_add_left inside _⟩
  unfold loadedState
  rw [ram_foldl]
  by_cases stored : k < ph.pFilesz
  · rw [if_pos stored, lastWrite_of_owner member ⟨Nat.le_add_right _ _, Nat.add_lt_add_left stored _⟩,
      Nat.add_sub_cancel_left]
    intro other inOther owns
    rw [only other inOther owns]
  have unowned (other : ProgramHeader) (inOther : other ∈ file.loads) :
      ¬ Filled kernelVaddrBase base (base + (ph.pVaddr - kernelVaddrBase) + k) other := by
    intro owns
    rw [only other inOther owns] at owns
    exact stored (Nat.lt_of_add_lt_add_left owns.2)
  rw [if_neg stored, lastWrite_of_unowned unowned]
  apply if_pos
  have total := le_roundUp ((extentOf file.loads).totalEnd - kernelVaddrBase)
  have above := valid.spans.above ph member
  have first := valid.above ph member
  unfold finish at above
  rw [valid.pages_eq]
  omega

end Loading

section Tables

variable {file : ElfFile} {ph : ProgramHeader}

/-- The record of a segment of a valid file, with what the tables read from it. -/
theorem ValidElf.segmentOf_eq (valid : ValidElf file) (member : ph ∈ file.loads) :
    (segmentOf kernelVaddrBase ph).offsetFromBase.toNat = ph.pVaddr - kernelVaddrBase ∧
      pagesFor pageSize (segmentOf kernelVaddrBase ph).size.toNat * pageSize = roundUp ph.pMemsz ∧
      (segmentOf kernelVaddrBase ph).flags.toNat = ph.pFlags := by
  have above := valid.above ph member
  have ends := valid.ends ph member
  have flags : ph.pFlags < 2 ^ 32 := by
    obtain ⟨i, _, _, rfl⟩ := ElfFile.mem_loads.mp member
    exact ElfFile.field_lt _ 4
  unfold ProgramHeader.finish at ends
  unfold segmentOf pagesFor roundUp
  refine ⟨?_, ?_, ?_⟩
  · rw [UInt64.toNat_ofNat']
    omega
  · rw [UInt64.toNat_ofNat', mod_eq_of_lt (by omega : ph.pMemsz < 2 ^ 64)]
    unfold pageSize kernelVaddrBase at *
    rw [mod_eq_of_lt (by omega)]
    rfl
  · exact mod_eq_of_lt flags

/-- The offset from the kernel's base lies in a page of the segment. -/
def ProgramHeader.PageHolds (ph : ProgramHeader) (x : Nat) : Prop :=
  ph.pVaddr - kernelVaddrBase ≤ x ∧ x < ph.pVaddr - kernelVaddrBase + roundUp ph.pMemsz

theorem ValidElf.covers_iff (valid : ValidElf file) (member : ph ∈ file.loads) (x : Nat) :
    SegmentInfo.Covers x (segmentOf kernelVaddrBase ph) ↔ ph.PageHolds x := by
  obtain ⟨offset, pages, _⟩ := valid.segmentOf_eq member
  unfold SegmentInfo.Covers ProgramHeader.PageHolds
  rw [offset, pages]

theorem ValidElf.placed (valid : ValidElf file) (member : ph ∈ file.loads) :
    (segmentOf kernelVaddrBase ph).Placed := by
  obtain ⟨offset, pages, _⟩ := valid.segmentOf_eq member
  have aligned := valid.aligned ph member
  have above := valid.above ph member
  have ends := valid.ends ph member
  unfold ProgramHeader.finish at ends
  refine ⟨?_, ?_⟩
  · rw [offset]
    exact Nat.dvd_sub aligned (by decide)
  · rw [pages]
    unfold roundUp
    unfold pageSize kernelVaddrBase at *
    omega

/-- Segments that share no address share no page. -/
theorem ValidElf.not_covers (valid : ValidElf file) (inFirst : first ∈ file.loads)
    (inSecond : second ∈ file.loads) (apart : first.Apart second) (holds : second.PageHolds x) :
    ¬ SegmentInfo.Covers x (segmentOf kernelVaddrBase first) := by
  rw [valid.covers_iff inFirst]
  intro holds'
  have firstAligned := valid.aligned first inFirst
  have secondAligned := valid.aligned second inSecond
  have firstAbove := valid.above first inFirst
  have secondAbove := valid.above second inSecond
  unfold ProgramHeader.PageHolds roundUp at holds holds'
  -- the later of the two starts is an address of both
  refine (le_total first.pVaddr second.pVaddr).elim (fun order => apart second.pVaddr ?_ ?_)
    fun order => apart first.pVaddr ?_ ?_
  all_goals
    unfold ProgramHeader.Holds ProgramHeader.finish
    unfold pageSize kernelVaddrBase at *
    omega

def SegmentInfo.flagSet (segment : SegmentInfo) : PageFlags where
  bits := segment.pageFlags
  known := by
    unfold SegmentInfo.pageFlags
    dsimp only
    split <;> split <;> decide

def ProgramHeader.rights (ph : ProgramHeader) : PageRights :=
  ⟨ph.pFlags &&& pfW != 0, ph.pFlags &&& pfX != 0⟩

theorem pageFlags_rights (segment : SegmentInfo) :
    (⟨segment.pageFlags &&& writable != 0, segment.pageFlags &&& noExecute == 0⟩ : PageRights) =
      ⟨segment.flags.toNat &&& pfW != 0, segment.flags.toNat &&& pfX != 0⟩ := by
  unfold SegmentInfo.pageFlags
  dsimp only
  generalize segment.flags.toNat &&& pfW = write
  generalize segment.flags.toNat &&& pfX = execute
  by_cases readOnly : write = 0
  · by_cases data : execute = 0
    · rw [readOnly, data]
      decide
    · rw [if_neg data, readOnly, bne_iff_ne.mpr data]
      decide
  by_cases data : execute = 0
  · rw [if_pos readOnly, data, bne_iff_ne.mpr readOnly]
    decide
  · rw [if_pos readOnly, if_neg data, bne_iff_ne.mpr readOnly, bne_iff_ne.mpr data]
    decide

end Tables

/-! ## The whole image -/

/--
An address of a segment translates to memory that holds its byte, with the
rights that the segment asks for.
-/
def ByteMapped (memory : Words) (pml4 : Nat) (file : ElfFile) (ph : ProgramHeader) (k : Nat) :
    Prop :=
  ∃ phys, translate memory pml4 (ph.pVaddr + k) = some phys ∧
    byteAt memory phys = (if k < ph.pFilesz then file.byte (ph.pOffset + k) else 0) ∧
    pageRights memory pml4 (ph.pVaddr + k) = some ph.rights

def ImageMapped (memory : Words) (pml4 : Nat) (file : ElfFile) : Prop :=
  ∀ ph ∈ file.loads, ∀ k < ph.pMemsz, ByteMapped memory pml4 file ph k

section Image

variable {file : ElfFile} {ram : Nat → UInt8} {base : Nat} {ph : ProgramHeader}

theorem segments_eq : (loadedKernel file ram base).segments =
    (file.loads.take 8).map (segmentOf kernelVaddrBase) := by
  have recorded := segments_foldl file kernelVaddrBase base file.loads
    ⟨zeroBytes ram base ((extentOf file.loads).pagesNeeded * pageSize), [], Nat.zero_le 8⟩
  rw [map_take]
  exact recorded

/-- The tables of a loaded image, as lookups: the first eight segments are mapped. -/
structure Tabled (file : ElfFile) (ram : Nat → UInt8) (base : Nat) (tablePages : List Nat)
    (pml4 : Nat) (memory : Words) : Prop where
  pointers : pageTrie.Pointers (fun table entry => entry = table ||| present ||| writable)
    memory pml4
  elsewhere : ∀ w, (∀ page ∈ tablePages, w / pageSize ≠ page / pageSize) →
    memory w = wordsOf (loadedState file ram base).ram w
  find_eq : ∀ x < 2 ^ 31, pageTrie.find memory 0 pml4 (pagePath (kernelVaddrBase + x)) =
    lastWrite (SegmentInfo.Covers x)
      (fun segment => some (segment.entry (UInt64.ofNat base).toNat x, [])) none
      ((file.loads.take 8).map (segmentOf kernelVaddrBase))

variable {tablePages : List Nat}

theorem ValidElf.tabled (valid : ValidElf file) {fb : FramebufferInfo} {after : BootMachine}
    (supply : BootMachine.Supply tablePages) (fbLow : FramebufferLow fb)
    (built : setupKernelPageTables ⟨wordsOf (loadedState file ram base).ram, tablePages⟩
      (loadedKernel file ram base).toKernelLoadInfo fb true = some (pml4, after)) :
    Tabled file ram base tablePages pml4 after.memory := by
  have segments := @segments_eq file ram base
  obtain ⟨ph, member, _⟩ := valid.lowest
  have some_segment : (loadedKernel file ram base).segments ≠ [] := by
    rw [segments]
    cases loads : file.loads with
    | nil =>
      rw [loads] at member
      cases member
    | cons first rest => exact cons_ne_nil _ _
  have placed : ∀ segment ∈ (loadedKernel file ram base).segments, segment.Placed := by
    rw [segments]
    intro segment inside
    obtain ⟨ph, taken, rfl⟩ := List.mem_map.mp inside
    exact valid.placed (mem_of_mem_take taken)
  obtain ⟨tables, lookups⟩ :=
    setupKernelPageTables_kernel supply some_segment placed fbLow built
  rw [segments] at lookups
  exact ⟨tables.pointers, tables.elsewhere, lookups⟩

/-- The pages of the tables are none of the kernel's. -/
def PagesApart (base len : Nat) (tablePages : List Nat) : Prop :=
  ∀ page ∈ tablePages, page + pageSize ≤ base ∨ base + len ≤ page

theorem offset_lt (valid : ValidElf file) (member : ph ∈ file.loads)
    (inside : k < ph.pMemsz) : ph.pVaddr - kernelVaddrBase + k < 2 ^ 31 := by
  have above := valid.above ph member
  have ends := valid.ends ph member
  unfold ProgramHeader.finish at ends
  unfold kernelVaddrBase at *
  omega

theorem vaddr_eq (valid : ValidElf file) (member : ph ∈ file.loads) (k : Nat) :
    ph.pVaddr + k = kernelVaddrBase + (ph.pVaddr - kernelVaddrBase + k) := by
  have above := valid.above ph member
  omega

theorem pageHolds_of_lt (k : Nat) (inside : k < ph.pMemsz) :
    ph.PageHolds (ph.pVaddr - kernelVaddrBase + k) := by
  have total := le_roundUp ph.pMemsz
  exact ⟨Nat.le_add_right _ _, by omega⟩

/-- A segment that was recorded is found in the tables. -/
theorem Tabled.find_recorded
    (tabled : Tabled file ram base tablePages pml4 memory) (valid : ValidElf file)
    (recorded : ph ∈ file.loads.take 8) (inside : k < ph.pMemsz) :
    pageTrie.find memory 0 pml4 (pagePath (ph.pVaddr + k)) =
      some ((segmentOf kernelVaddrBase ph).entry (UInt64.ofNat base).toNat
        (ph.pVaddr - kernelVaddrBase + k), []) := by
  have member := mem_of_mem_take recorded
  have holds := pageHolds_of_lt k inside
  rw [vaddr_eq valid member, tabled.find_eq _ (offset_lt valid member inside)]
  rw [lastWrite_of_owner (List.mem_map_of_mem recorded) ((valid.covers_iff member _).mpr holds)]
  intro segment inRecord covers
  obtain ⟨other, taken, rfl⟩ := List.mem_map.mp inRecord
  have inOther := mem_of_mem_take taken
  by_cases same : other = ph
  · rw [same]
  · exact absurd covers (valid.not_covers inOther member (valid.apart inOther member same) holds)

/-- A segment that found no room in the record is not mapped. -/
theorem Tabled.find_dropped
    (tabled : Tabled file ram base tablePages pml4 memory) (valid : ValidElf file)
    (dropped : ph ∈ file.loads.drop 8) (inside : k < ph.pMemsz) :
    pageTrie.find memory 0 pml4 (pagePath (ph.pVaddr + k)) = none := by
  have member := mem_of_mem_drop dropped
  have holds := pageHolds_of_lt k inside
  have apart := valid.disjoint
  rw [← take_append_drop 8 file.loads, pairwise_append] at apart
  rw [vaddr_eq valid member, tabled.find_eq _ (offset_lt valid member inside), lastWrite_of_unowned]
  intro segment inRecord
  obtain ⟨other, taken, rfl⟩ := List.mem_map.mp inRecord
  exact valid.not_covers (mem_of_mem_take taken) member (apart.2.2 other taken ph dropped) holds

/-- The entry of a page of a segment: where it points to and what it allows. -/
theorem entry_eq (aligned : pageSize ∣ base) (bounded : base + x < 2 ^ 52) (segment : SegmentInfo) :
    address (segment.entry (UInt64.ofNat base).toNat x) = base + x / pageSize * pageSize ∧
      PageRights.ofEntry (segment.entry (UInt64.ofNat base).toNat x) =
        ⟨segment.flags.toNat &&& pfW != 0, segment.flags.toNat &&& pfX != 0⟩ := by
  have page : x / pageSize * pageSize ≤ x := div_mul_le_self _ _
  have multiple : pageSize ∣ base + x / pageSize * pageSize :=
    dvd_add aligned (dvd_mul_left _ _)
  have small : base + x / pageSize * pageSize < 2 ^ 52 := by omega
  have shape : segment.entry (UInt64.ofNat base).toNat x =
      base + x / pageSize * pageSize ||| segment.flagSet.bits := by
    unfold SegmentInfo.entry
    rw [UInt64.toNat_ofNat', mod_eq_of_lt (by omega : base < 2 ^ 64), mod_eq_of_lt (by omega)]
    rfl
  rw [shape]
  refine ⟨?_, ?_⟩
  · have set : base + x / pageSize * pageSize ||| segment.flagSet.bits =
        PageTableEntry.set (base + x / pageSize * pageSize) segment.flagSet := by
      unfold PageTableEntry.set
      rw [and_addrMask multiple small]
    rw [set, address_set multiple small]
  · rw [ofEntry_or multiple small]
    exact pageFlags_rights segment

theorem translate_of_find {page : Nat} {entry : PageTableEntry}
    (found : pageTrie.find memory 0 pml4 (pagePath (kernelVaddrBase + x)) = some (entry, []))
    (target : address entry = page) (aligned : pageSize ∣ page) :
    translate memory pml4 (kernelVaddrBase + x) = some (page + x % pageSize) := by
  have power : pageSize = 2 ^ 12 := by decide
  have mask : leafSize 0 = 2 ^ 12 := by decide
  have offset : (kernelVaddrBase + x) % 2 ^ 12 = x % 2 ^ 12 := by
    unfold kernelVaddrBase
    omega
  obtain ⟨n, rfl⟩ := aligned
  rw [translate_eq_find, found, Option.map_some, leafTarget, target, length_nil, mask,
    and_two_pow_sub_one_eq_mod, offset, power,
    ← two_pow_add_eq_or_of_lt (mod_lt _ (by decide))]

section

variable (tabled : Tabled file ram base tablePages pml4 memory) (valid : ValidElf file)
  (placed : pageSize ∣ base ∧
    base + roundUp ((extentOf file.loads).totalEnd - kernelVaddrBase) ≤ 2 ^ 52)
  (apart : PagesApart base (roundUp ((extentOf file.loads).totalEnd - kernelVaddrBase)) tablePages)
  (aligned : ∀ page ∈ tablePages, pageSize ∣ page)
include tabled valid placed apart aligned

theorem Tabled.byteMapped (recorded : ph ∈ file.loads.take 8) (inside : k < ph.pMemsz) :
    ByteMapped memory pml4 file ph k := by
  have member := mem_of_mem_take recorded
  have found := tabled.find_recorded valid recorded inside
  have total := le_roundUp ((extentOf file.loads).totalEnd - kernelVaddrBase)
  have above := valid.spans.above ph member
  have first := valid.above ph member
  unfold finish at above
  have bounded : base + (ph.pVaddr - kernelVaddrBase + k) < 2 ^ 52 := by omega
  obtain ⟨target, rights⟩ := entry_eq placed.1 bounded (segmentOf kernelVaddrBase ph)
  have multiple : pageSize ∣
      base + (ph.pVaddr - kernelVaddrBase + k) / pageSize * pageSize :=
    dvd_add placed.1 (dvd_mul_left _ _)
  refine ⟨base + (ph.pVaddr - kernelVaddrBase) + k, ?_, ?_, ?_⟩
  · rw [vaddr_eq valid member] at found ⊢
    rw [translate_of_find found target multiple, add_assoc, div_add_mod', add_assoc]
  · rw [← valid.ram_eq member inside, ← byteAt_wordsOf (loadedState file ram base).ram]
    apply byteAt_congr
    apply tabled.elsewhere
    intro page isTable same
    obtain ⟨n, rfl⟩ := aligned page isTable
    rcases apart _ isTable with before | behind
    all_goals
      unfold pageSize at *
      omega
  · rw [pageRights_of_find tabled.pointers found, rights, (valid.segmentOf_eq member).2.2]
    rfl

/-- The image is mapped exactly if no segment with memory is left out of the record. -/
theorem Tabled.imageMapped_iff :
    ImageMapped memory pml4 file ↔ ∀ ph ∈ file.loads.drop 8, ph.pMemsz = 0 := by
  refine ⟨fun mapped ph dropped => ?_, fun empty ph member k inside => ?_⟩
  · by_contra some
    have positive : 0 < ph.pMemsz := pos_of_ne_zero some
    obtain ⟨phys, translated, _⟩ := mapped ph (mem_of_mem_drop dropped) 0 positive
    rw [translate_eq_find, tabled.find_dropped valid dropped positive] at translated
    cases translated
  · rw [← take_append_drop 8 file.loads, mem_append] at member
    rcases member with recorded | dropped
    · exact tabled.byteMapped valid placed apart aligned recorded inside
    · rw [empty ph dropped] at inside
      cases inside

end

end Image

/--
A valid file is loaded if the firmware has pages for it, and then its image is
mapped by the tables exactly if every loadable segment behind the eighth is
empty.
-/
theorem imageMapped_iff_first_eight (file : ElfFile) (valid : ValidElf file) (firmware : Firmware)
    (ram : Nat → UInt8) (base : Nat)
    (granted : firmware.allocatePages (extentOf file.loads).pagesNeeded = some base)
    (tablePages : List Nat) (supply : BootMachine.Supply tablePages)
    (apart : PagesApart base ((extentOf file.loads).pagesNeeded * pageSize) tablePages)
    (fb : FramebufferInfo) (fbLow : FramebufferLow fb) :
    ∃ kernel loadedRam,
      (parseAndLoadElf firmware ram file).outcome = .ok (kernel, loadedRam) ∧
        (BootMachine.tableBudget kernel.toKernelLoadInfo fb ≤ tablePages.length →
          ∃ pml4 after, BootMachine.setupKernelPageTables ⟨wordsOf loadedRam, tablePages⟩
            kernel.toKernelLoadInfo fb true = some (pml4, after)) ∧
        ∀ pml4 after, BootMachine.setupKernelPageTables ⟨wordsOf loadedRam, tablePages⟩
            kernel.toKernelLoadInfo fb true = some (pml4, after) →
          (ImageMapped after.memory pml4 file ↔ ∀ ph ∈ file.loads.drop 8, ph.pMemsz = 0) := by
  rw [valid.pages_eq] at apart
  refine ⟨_, _, valid.loaded granted, fun enough =>
    setupKernelPageTables_total enough true, fun pml4 after built => ?_⟩
  exact (valid.tabled supply fbLow built).imageMapped_iff valid (valid.inside granted) apart
    fun page member => (supply.frames page member).1

/-! ## Files with one page a segment -/

/-- The header of a segment that fills the page with the given number. -/
def pageSegment (i : Nat) : ProgramHeader :=
  ⟨ptLoad, 5, 0, kernelVaddrBase + i * pageSize, 64, pageSize⟩

def pageFile (count : Nat) (few : count < 2 ^ 16) : ElfFile :=
  fileOf ((List.range count).map pageSegment) (by simpa using few)

theorem pageSegments_apart (count : Nat) :
    ((List.range count).map pageSegment).Pairwise ProgramHeader.Apart := by
  rw [pairwise_map]
  refine nodup_range.imp fun {i j} different x inFirst inSecond => ?_
  unfold ProgramHeader.Holds finish pageSegment pageSize at *
  dsimp only at *
  omega

theorem pageFile_loads {few : count < 2 ^ 16} (small : count ≤ 16) :
    (pageFile count few).loads = (List.range count).map pageSegment := by
  have bounded : ∀ ph ∈ (List.range count).map pageSegment, ph.Bounded := by
    intro ph member
    obtain ⟨i, inside, rfl⟩ := List.mem_map.mp member
    have bound := mem_range.mp inside
    constructor
    all_goals
      unfold pageSegment
      dsimp only [ptLoad, kernelVaddrBase, pageSize]
      omega
  rw [pageFile, loads_fileOf bounded, filter_eq_self]
  intro ph member
  obtain ⟨i, _, rfl⟩ := List.mem_map.mp member
  rfl

/-- A file whose loadable segments are single pages is valid. -/
theorem pageFile_valid {few : count < 2 ^ 16} (positive : 0 < count) (small : count ≤ 16) :
    ValidElf (pageFile count few) := by
  have loads : (pageFile count few).loads = (List.range count).map pageSegment :=
    pageFile_loads small
  have each {P : ProgramHeader → Prop} (holds : ∀ i < count, P (pageSegment i)) :
      ∀ ph ∈ (pageFile count few).loads, P ph := by
    rw [loads]
    intro ph member
    obtain ⟨i, inside, rfl⟩ := List.mem_map.mp member
    exact holds i (mem_range.mp inside)
  have header : (pageFile count few).header = ⟨kernelVaddrBase, elfHeaderSize, count, 56⟩ := by
    rw [pageFile, header_fileOf, length_map, length_range]
  have size : (pageFile count few).size = elfHeaderSize + count * 56 := by
    rw [pageFile, ElfFile.size, fileOf, length_encodeElf, length_map, length_range]
  refine ⟨identified_fileOf, by rw [header], by rw [header, size],
    each fun i _ => (by decide : 64 ≤ pageSize), each fun i _ => ?_, each fun i _ => ?_,
    each fun i inside => ?_, ?_, ?_, each fun i _ => Nat.le_add_right _ _⟩
  · rw [size]
    exact Nat.le_add_right _ _
  · exact dvd_add (by decide) (dvd_mul_left _ _)
  · unfold ProgramHeader.finish pageSegment kernelVaddrBase pageSize
    dsimp only
    omega
  · rw [loads]
    exact pageSegments_apart count
  · rw [loads]
    exact ⟨pageSegment 0, List.mem_map_of_mem (mem_range.mpr positive), rfl⟩

def eightFile : ElfFile := pageFile 8 (by decide)

theorem eightFile_loads : eightFile.loads = (List.range 8).map pageSegment :=
  pageFile_loads (by decide)

theorem eightFile_valid : ValidElf eightFile := pageFile_valid (by decide) (by decide)

def nineFile : ElfFile := pageFile 9 (by decide)

theorem nineFile_loads : nineFile.loads = (List.range 9).map pageSegment :=
  pageFile_loads (by decide)

theorem nineFile_valid : ValidElf nineFile := pageFile_valid (by decide) (by decide)

theorem consecutivePages_apart {len : Nat} (count : Nat) (small : len ≤ 0x100000) :
    PagesApart 0x100000 len (consecutivePages count) := by
  intro page member
  obtain ⟨i, _, rfl⟩ := List.mem_map.mp member
  unfold pageSize
  omega

/-- The pages that the firmware of the examples has for the tables. -/
def tablePages : List Nat := consecutivePages 5000

theorem tablePages_supply : BootMachine.Supply tablePages := by
  have few : 5000 ≤ 2 ^ 32 := by omega
  exact consecutivePages_supply few

theorem length_tablePages : tablePages.length = 5000 := by
  rw [tablePages, consecutivePages, length_map, length_range]

theorem tableBudget_loaded (file : ElfFile) (ram : Nat → UInt8) (base : Nat)
    (fb : FramebufferInfo) :
    tableBudget (loadedKernel file ram base).toKernelLoadInfo fb =
      1 + 2 * (fourGib / hugePageSize) +
        3 * max (segmentPages ((file.loads.take 8).map (segmentOf kernelVaddrBase)))
          (pagesFor pageSize
            (UInt64.ofNat ((extentOf file.loads).totalEnd - kernelVaddrBase)).toNat) +
        2 * fbPages fb := by
  unfold tableBudget imagePages
  rw [segments_eq]
  rfl

theorem exampleTables_built {file : ElfFile} {ram : Nat → UInt8} {base : Nat}
    (enough : tableBudget (loadedKernel file ram base).toKernelLoadInfo
      lowFramebuffer ≤ 5000) :
    ∃ pml4 after, setupKernelPageTables
      ⟨wordsOf (loadedState file ram base).ram, tablePages⟩
      (loadedKernel file ram base).toKernelLoadInfo lowFramebuffer true = some (pml4, after) := by
  apply setupKernelPageTables_total
  rw [length_tablePages]
  exact enough

/-- Eight segments are loaded and mapped. -/
theorem imageMapped_eight_segments : ∃ kernel loadedRam pml4 after,
    (parseAndLoadElf smallFirmware (fun _ => 0) eightFile).outcome = .ok (kernel, loadedRam) ∧
      BootMachine.setupKernelPageTables ⟨wordsOf loadedRam, tablePages⟩
        kernel.toKernelLoadInfo lowFramebuffer true = some (pml4, after) ∧
      ImageMapped after.memory pml4 eightFile := by
  have granted : smallFirmware.allocatePages (extentOf eightFile.loads).pagesNeeded =
      some 0x100000 := by
    rw [eightFile_loads]
    decide +kernel
  have size : (extentOf eightFile.loads).pagesNeeded * pageSize ≤ 0x100000 := by
    rw [eightFile_loads]
    decide +kernel
  obtain ⟨kernel, loadedRam, loaded, builds, mapped⟩ := imageMapped_iff_first_eight eightFile
    eightFile_valid smallFirmware (fun _ => 0) 0x100000 granted tablePages
    tablePages_supply (consecutivePages_apart 5000 size) lowFramebuffer lowFramebuffer_low
  have same := loaded.symm.trans (eightFile_valid.loaded granted)
  cases same
  obtain ⟨pml4, after, built⟩ := builds (by
    rw [length_tablePages, tableBudget_loaded, eightFile_loads]
    decide +kernel)
  refine ⟨_, _, pml4, after, loaded, built, (mapped pml4 after built).mpr ?_⟩
  rw [eightFile_loads]
  decide +kernel

/-- The ninth segment of a valid file is loaded and then not mapped. -/
theorem nine_segments_not_imageMapped : ValidElf nineFile ∧ ∃ kernel loadedRam pml4 after,
    (parseAndLoadElf smallFirmware (fun _ => 0) nineFile).outcome = .ok (kernel, loadedRam) ∧
      BootMachine.setupKernelPageTables ⟨wordsOf loadedRam, tablePages⟩
        kernel.toKernelLoadInfo lowFramebuffer true = some (pml4, after) ∧
      translate after.memory pml4 (kernelVaddrBase + 8 * pageSize) = none ∧
      ¬ ImageMapped after.memory pml4 nineFile := by
  have granted : smallFirmware.allocatePages (extentOf nineFile.loads).pagesNeeded =
      some 0x100000 := by
    rw [nineFile_loads]
    decide +kernel
  have enough : tableBudget
      (loadedKernel nineFile (fun _ => 0) 0x100000).toKernelLoadInfo lowFramebuffer ≤ 5000 := by
    rw [tableBudget_loaded, nineFile_loads]
    decide +kernel
  obtain ⟨pml4, after, built⟩ := exampleTables_built enough
  have tabled := nineFile_valid.tabled tablePages_supply lowFramebuffer_low built
  have ninth : pageSegment 8 ∈ nineFile.loads.drop 8 := by
    rw [nineFile_loads]
    decide +kernel
  have unmapped : translate after.memory pml4 (kernelVaddrBase + 8 * pageSize) = none := by
    rw [translate_eq_find]
    exact congrArg _ (tabled.find_dropped nineFile_valid ninth (by decide : 0 < pageSize))
  refine ⟨nineFile_valid, _, _, pml4, after, nineFile_valid.loaded granted, built, unmapped,
    fun mapped => ?_⟩
  obtain ⟨phys, translated, _⟩ :=
    mapped (pageSegment 8) (mem_of_mem_drop ninth) 0 (by decide)
  cases unmapped.symm.trans translated

end CantayaOS.Boot
