import CantayaOS.Boot.ElfImage

/-!
# Memory safety of the kernel loader

The loader's assertions bound the table of program headers by the entry size
that the file states, and the file bytes of a segment by the file.  They say
nothing about the size of an entry that is read, about file bytes that do not
fit the segment's memory, or about sums that wrap.
-/

namespace CantayaOS.Boot

open Lib Lib.Bytes Memory Logged ElfFile List LoadAction

/--
A read stays inside the file, a write inside the given addresses, and a
computation does not leave the 64-bit numbers.
-/
def LoadAction.Safe (size : Nat) (owned : Nat → Prop) : LoadAction → Prop
  | .read offset len => ∀ k < len, offset + k < size
  | .allocate _ _ => True
  | .write addr len => ∀ k < len, owned (addr + k)
  | .compute exact => 0 ≤ exact ∧ exact < 2 ^ 64

def Owned (log : List LoadAction) (addr : Nat) : Prop :=
  ∃ base pages, .allocate base pages ∈ log ∧ base ≤ addr ∧ addr < base + pages * pageSize

/-- Every action of the run is safe, with the pages that it was given. -/
def SafeRun {α : Type} (file : ElfFile) (run : Loader α) : Prop :=
  run.All (LoadAction.Safe file.size (Owned run.log))

/-- The part of a program header that is read lies in the file, and its position does not wrap. -/
structure HeaderFits (file : ElfFile) (i : Nat) : Prop where
  table : TableFits file i
  typed : file.headerAddr i + 4 ≤ file.size
  loadable : (file.programHeader i).pType = ptLoad → file.headerAddr i + 48 ≤ file.size

/-- The number of bytes in the pages that hold `len` bytes. -/
def roundUp (len : Nat) : Nat := (len + 4095) / 4096 * 4096

/-- The file can be loaded without leaving the file, the allocated pages or the 64-bit numbers. -/
structure Loadable (file : ElfFile) : Prop where
  headers : ∀ i < file.header.ePhnum, HeaderFits file i
  nonempty : file.loads ≠ []
  memory : ∀ ph ∈ file.loads, ph.pVaddr + ph.pMemsz < 2 ^ 64
  bytes : ∀ ph ∈ file.loads, ph.pOffset + ph.pFilesz < 2 ^ 64
  span : ∀ first ∈ file.loads, ∀ last ∈ file.loads,
    last.pVaddr + last.pMemsz + 4095 < first.pVaddr + 2 ^ 64
  room : ∀ first ∈ file.loads, (∀ ph ∈ file.loads, first.pVaddr ≤ ph.pVaddr) →
    ∀ ph ∈ file.loads, ∃ last ∈ file.loads,
      ph.pVaddr + ph.pFilesz ≤ first.pVaddr + roundUp (last.pVaddr + last.pMemsz - first.pVaddr)

variable {file : ElfFile} {owned : Nat → Prop} {i : Nat}

variable {count offset size : Nat}

theorem safe_read_iff {len : Nat} (positive : 0 < len) :
    (read offset len).Safe size owned ↔ offset + len ≤ size := by
  refine ⟨fun inside => ?_, fun inside k small => by omega⟩
  have last := inside (len - 1) (by omega)
  omega

theorem safe_compute_iff (exact : Nat) :
    (LoadAction.compute exact).Safe size owned ↔ exact < 2 ^ 64 := by
  unfold LoadAction.Safe
  omega

theorem safe_compute_add_iff (first second : Nat) :
    (LoadAction.compute (first + second)).Safe size owned ↔ first + second < 2 ^ 64 := by
  rw [← Int.natCast_add, safe_compute_iff]

theorem readHeader_all (large : elfHeaderSize ≤ file.size) :
    (readHeader file).All (LoadAction.Safe file.size owned) := by
  have inside {offset len : Nat} (small : offset + len ≤ elfHeaderSize) :
      (read offset len).Safe file.size owned := fun k bound => by omega
  unfold readHeader
  simp only [all_ensure_bind, all_readBytes_bind, all_readField_bind, all_pure, and_true]
  intro _
  refine ⟨inside (by decide), fun _ => ⟨inside (by decide), fun _ => ⟨inside (by decide), fun _ =>
    ⟨inside (by decide), fun _ => ⟨inside (by decide), fun _ => ⟨inside (by decide),
      inside (by decide), inside (by decide), inside (by decide)⟩⟩⟩⟩⟩⟩

theorem phAddr_all (bound : i < file.header.ePhnum) :
    (phAddr file.header i).All (LoadAction.Safe file.size owned) ↔ file.headerAddr i < 2 ^ 64 := by
  have small := skipped_lt bound
  have product : wrap (i * file.header.ePhentsize) = i * file.header.ePhentsize := by
    exact wrap_of_lt (by omega)
  have safe : (LoadAction.compute (i * file.header.ePhentsize)).Safe file.size owned := by
    rw [← Int.natCast_mul, safe_compute_iff]
    omega
  unfold phAddr
  rw [all_compute_bind, product, all_compute, safe_compute_add_iff]
  exact and_iff_right safe

/-- If neither of the two sums wraps, the table does not wrap before the end of the header. -/
theorem tableFits_of_safe (start : file.headerAddr i < 2 ^ 64)
    (finish : (LoadAction.compute (wrap (file.headerAddr i : Nat) + file.header.ePhentsize)).Safe
      file.size owned) : TableFits file i := by
  rw [wrap_of_lt start, safe_compute_add_iff] at finish
  exact finish

/-- What makes the actions of the first pass on one header safe. -/
structure Measurable (file : ElfFile) (i : Nat) : Prop where
  header : HeaderFits file i
  memory : (file.programHeader i).pType = ptLoad → (file.programHeader i).finish < 2 ^ 64

variable {extent : Extent}

section

variable (bound : i < file.header.ePhnum)
include bound

theorem measureHeader_inside (fits : TableFits file i)
    (passes : Passes (measureHeader file file.header extent i)) :
    file.headerAddr i + file.header.ePhentsize ≤ file.size := by
  unfold measureHeader Passes at passes
  rw [stopsOnly_bind_of_ok (phAddr_outcome_of_fits bound fits), stopsOnly_compute_bind,
    wrap_add fits] at passes
  exact (passes_ensure_bind.mp passes).1

theorem measureHeader_all_iff (passes : Passes (measureHeader file file.header extent i)) :
    (measureHeader file file.header extent i).All (LoadAction.Safe file.size owned) ↔
      Measurable file i := by
  by_cases fits : TableFits file i
  · have inside := measureHeader_inside bound fits passes
    have start : file.headerAddr i < 2 ^ 64 := lt_of_le_of_lt (Nat.le_add_right _ _) fits
    unfold measureHeader
    rw [all_bind_of_ok (phAddr_outcome_of_fits bound fits), phAddr_all bound,
      all_compute_bind, wrap_add fits, safe_compute_add_iff, all_ensure_bind,
      all_readField_bind, safe_read_iff (by decide), file.field_pType]
    by_cases load : (file.programHeader i).pType = ptLoad
    · rw [if_neg (not_not.mpr load), all_readField_bind, all_readField_bind, all_compute_bind,
        safe_read_iff (by decide), safe_read_iff (by decide), safe_compute_add_iff]
      refine ⟨fun ⟨_, _, later⟩ => ?_, fun ⟨header, memory⟩ => ?_⟩
      · obtain ⟨typed, _, sized, finish, _⟩ := later inside
        exact ⟨⟨fits, typed, fun _ => sized⟩, fun _ => finish⟩
      · have sized := header.loadable load
        exact ⟨start, fits, fun _ => ⟨header.typed, by omega, by omega, memory load, all_pure⟩⟩
    · rw [if_pos load]
      refine ⟨fun ⟨_, _, later⟩ => ?_, fun ⟨header, _⟩ => ?_⟩
      · exact ⟨⟨fits, (later inside).1, fun isLoad => absurd isLoad load⟩,
          fun isLoad => absurd isLoad load⟩
      · exact ⟨start, fits, fun _ => ⟨header.typed, all_pure⟩⟩
  · refine ⟨fun all => absurd ?_ fits, fun measurable => absurd measurable.header.table fits⟩
    unfold measureHeader at all
    rw [all_bind_of_ok (phAddr_outcome bound), phAddr_all bound, all_compute_bind] at all
    exact tableFits_of_safe all.1 all.2.1

theorem measureHeader_outcome_of_measurable
    (passes : Passes (measureHeader file file.header extent i)) (measurable : Measurable file i) :
    (measureHeader file file.header extent i).outcome = .ok (file.measured extent i) :=
  measureHeader_outcome bound measurable.header.table
    (measureHeader_inside bound measurable.header.table passes) measurable.memory

end

theorem measure_all_iff (passes : Passes (measure file file.header)) :
    (measure file file.header).All (LoadAction.Safe file.size owned) ↔
      ∀ i < file.header.ePhnum, Measurable file i := by
  simp only [← mem_range]
  refine all_foldlM_iff ?_ ?_ passes
  · intro extent i member pass
    exact measureHeader_all_iff (mem_range.mp member) pass
  · intro extent i member pass all
    have bound := mem_range.mp member
    exact ⟨_, measureHeader_outcome_of_measurable bound pass
      ((measureHeader_all_iff bound pass).mp all)⟩

theorem measure_outcome (passes : Passes (measure file file.header))
    (measurable : ∀ i < file.header.ePhnum, Measurable file i) :
    (measure file file.header).outcome = .ok (extentOf file.loads) := by
  rw [← foldl_measured]
  refine stopsOnly_foldlM ?_ passes
  intro extent i member pass
  have bound := mem_range.mp member
  exact measureHeader_outcome_of_measurable bound pass (measurable i bound)

/-! ## The second pass -/

def Within (base len addr : Nat) : Prop := base ≤ addr ∧ addr < base + len

/-- What makes the actions of the second pass on one segment safe. -/
structure Fillable (virtualBase len : Nat) (ph : ProgramHeader) : Prop where
  bytes : ph.pOffset + ph.pFilesz < 2 ^ 64
  room : ph.pVaddr - virtualBase + ph.pFilesz ≤ len

variable {virtualBase base len : Nat} {state : LoadState}

theorem sliceFile_all {start : Nat} (inside : start + count ≤ file.size) :
    (sliceFile file start (start + count)).All (LoadAction.Safe file.size owned) := by
  unfold sliceFile
  rw [all_ensure_bind, all_readBytes]
  intro _ k small
  omega

theorem loadHeader_inFile (bound : i < file.header.ePhnum) (fits : TableFits file i)
    (load : (file.programHeader i).pType = ptLoad)
    (small : (file.programHeader i).pOffset + (file.programHeader i).pFilesz < 2 ^ 64)
    (passes : Passes (loadHeader file file.header virtualBase base state i)) :
    (file.programHeader i).pOffset + (file.programHeader i).pFilesz ≤ file.size := by
  unfold loadHeader Passes at passes
  rw [stopsOnly_bind_of_ok (phAddr_outcome_of_fits bound fits), stopsOnly_readField_bind,
    file.field_pType, if_neg (not_not.mpr load)] at passes
  simp only [stopsOnly_readField_bind, stopsOnly_compute_bind] at passes
  rw [file.field_pOffset, file.field_pFilesz, wrap_add small] at passes
  exact (passes_ensure_bind.mp passes).1

theorem safe_write_iff (start : offset ≤ len) :
    (write (base + offset) count).Safe size (Within base len) ↔ offset + count ≤ len := by
  refine ⟨fun inside => ?_, fun room k small => ⟨by omega, by omega⟩⟩
  by_cases isZero : count = 0
  · omega
  · have last := (inside (count - 1) (by omega)).2
    omega

/-- The pages are large enough for the memory of a segment and lie in the address space. -/
structure Reserved (virtualBase base len : Nat) (ph : ProgramHeader) : Prop where
  below : virtualBase ≤ ph.pVaddr
  start : ph.pVaddr - virtualBase ≤ len
  region : base + len < 2 ^ 64

theorem loadHeader_all_iff (bound : i < file.header.ePhnum) (header : HeaderFits file i)
    (reserved : (file.programHeader i).pType = ptLoad →
      Reserved virtualBase base len (file.programHeader i))
    (passes : Passes (loadHeader file file.header virtualBase base state i)) :
    (loadHeader file file.header virtualBase base state i).All
        (LoadAction.Safe file.size (Within base len)) ↔
      ((file.programHeader i).pType = ptLoad →
        Fillable virtualBase len (file.programHeader i)) := by
  have here : file.headerAddr i < 2 ^ 64 :=
    lt_of_le_of_lt (Nat.le_add_right _ _) header.table
  by_cases load : (file.programHeader i).pType = ptLoad
  · have inFile (small : (file.programHeader i).pOffset + (file.programHeader i).pFilesz < 2 ^ 64) :=
      loadHeader_inFile bound header.table load small passes
    have sized := header.loadable load
    obtain ⟨below, start, region⟩ := reserved load
    have vaddr : (file.programHeader i).pVaddr < 2 ^ 64 := field_lt _ 8
    have dest : base + ((file.programHeader i).pVaddr - virtualBase) < 2 ^ 64 := by omega
    have offset : (LoadAction.compute ((file.programHeader i).pVaddr - virtualBase)).Safe file.size
        (Within base len) := by
      rw [← Int.natCast_sub below, safe_compute_iff]
      omega
    have reads {from_ count : Nat} (positive : 0 < count) (inside : from_ + count ≤ 48) :
        (read (file.headerAddr i + from_) count).Safe file.size (Within base len) := by
      rw [safe_read_iff positive]
      omega
    have typed : (read (file.headerAddr i) 4).Safe file.size (Within base len) :=
      (safe_read_iff (by decide)).mpr header.typed
    unfold loadHeader
    rw [all_bind_of_ok (phAddr_outcome_of_fits bound header.table), phAddr_all bound,
      all_readField_bind, file.field_pType, if_neg (not_not.mpr load), all_readField_bind,
      file.field_pVaddr, all_compute_bind, wrap_sub below vaddr, all_compute_bind, wrap_add dest,
      all_readField_bind, all_readField_bind, all_readField_bind, all_readField_bind,
      file.field_pOffset, file.field_pFilesz, all_compute_bind, safe_compute_add_iff,
      safe_compute_add_iff, all_ensure_bind]
    simp only [here, typed, reads, offset, dest, load, true_and, forall_const, Nat.reduceLT,
      Nat.reduceLeDiff]
    refine ⟨fun ⟨small, later⟩ => ?_, fun ⟨small, room⟩ => ⟨small, fun _ => ?_⟩⟩
    · have inside := inFile small
      rw [wrap_add small] at later
      have later := later inside
      rw [all_bind_of_ok (sliceFile_outcome inside), all_act_bind, length_window,
        safe_write_iff start] at later
      exact ⟨small, later.2.1⟩
    · have inside := inFile small
      rw [wrap_add small, all_bind_of_ok (sliceFile_outcome inside), all_act_bind,
        length_window, safe_write_iff start]
      exact ⟨sliceFile_all inside, room, all_pure⟩
  · refine ⟨fun _ isLoad => absurd isLoad load, fun _ => ?_⟩
    unfold loadHeader
    rw [all_bind_of_ok (phAddr_outcome_of_fits bound header.table), phAddr_all bound,
      all_readField_bind, file.field_pType, if_pos load, safe_read_iff (by decide)]
    exact ⟨here, header.typed, all_pure⟩

theorem loadSegments_all_iff {ram : Nat → UInt8}
    (headers : ∀ i < file.header.ePhnum, HeaderFits file i)
    (reserved : ∀ ph ∈ file.loads, Reserved virtualBase base len ph)
    (passes : Passes (loadSegments file file.header virtualBase base ram)) :
    (loadSegments file file.header virtualBase base ram).All
        (LoadAction.Safe file.size (Within base len)) ↔
      ∀ ph ∈ file.loads, Fillable virtualBase len ph := by
  rw [forall_loads] at reserved ⊢
  have each (state : LoadState) (i : Nat) (member : i ∈ List.range file.header.ePhnum)
      (pass : Passes (loadHeader file file.header virtualBase base state i)) :=
    loadHeader_all_iff (mem_range.mp member) (headers i (mem_range.mp member))
      (reserved i (mem_range.mp member)) pass
  simp only [← mem_range]
  refine all_foldlM_iff each ?_ passes
  intro state i member pass all
  have bound := mem_range.mp member
  have fits := (headers i bound).table
  refine ⟨_, loadHeader_outcome bound fits fun load => ?_⟩
  obtain ⟨below, start, region⟩ := reserved i bound load
  have fillable := (each state i member pass).mp all load
  exact ⟨below, by omega, loadHeader_inFile bound fits load fillable.bytes pass⟩

/-! ## Whole runs -/

def Extent.pagesNeeded (extent : Extent) : Nat :=
  wrap (wrap (extent.totalEnd - extent.virtualBase) + 4095) / 4096

section Runs

variable {firmware : Firmware} {ram : Nat → UInt8} {extent : Extent} {good : LoadAction → Prop}

theorem parseAndLoadElf_granted (identified : file.Identified)
    (measured : (measure file file.header).outcome = .ok extent)
    (granted : (parseAndLoadElf firmware ram file).outcome ≠ .error .allocation) :
    ∃ base, firmware.allocatePages extent.pagesNeeded = some base := by
  by_contra refused
  have refused : firmware.allocatePages extent.pagesNeeded = none := by
    rw [Option.eq_none_iff_forall_ne_some]
    exact fun base allocated => refused ⟨base, allocated⟩
  apply granted
  unfold parseAndLoadElf
  rw [outcome_bind_of_ok (readHeader_outcome identified), outcome_bind_of_ok measured,
    outcome_compute_bind, outcome_compute_bind]
  have stopped : (firmware.allocate extent.pagesNeeded).outcome = .error .allocation := by
    unfold Firmware.allocate
    rw [refused]
    rfl
  unfold Extent.pagesNeeded at stopped
  rw [bind_of_error stopped]

theorem allocate_eq (granted : firmware.allocatePages extent.pagesNeeded = some base) :
    firmware.allocate extent.pagesNeeded =
      ⟨[.allocate base extent.pagesNeeded], .ok base⟩ := by
  unfold Firmware.allocate
  rw [granted]

section

variable (identified : file.Identified) (measured : (measure file file.header).outcome = .ok extent)
  (granted : firmware.allocatePages extent.pagesNeeded = some base)
include identified measured granted

theorem loadSegments_passes (passes : Passes (parseAndLoadElf firmware ram file)) :
    Passes (loadSegments file file.header extent.virtualBase base
      (zeroBytes ram base (wrap (extent.pagesNeeded * 4096)))) := by
  unfold parseAndLoadElf Passes at passes
  rw [stopsOnly_bind_of_ok (readHeader_outcome identified), stopsOnly_bind_of_ok measured,
    stopsOnly_compute_bind] at passes
  change (firmware.allocate extent.pagesNeeded >>= _).StopsOnly _ at passes
  rw [allocate_eq granted, stopsOnly_bind_of_ok rfl, stopsOnly_compute_bind,
    stopsOnly_act_bind] at passes
  exact stopsOnly_of_bind passes

theorem parseAndLoadElf_all_iff :
    (parseAndLoadElf firmware ram file).All good ↔
      (readHeader file).All good ∧ (measure file file.header).All good ∧
        good (.compute (extent.totalEnd - extent.virtualBase)) ∧
        good (.compute (wrap (extent.totalEnd - extent.virtualBase) + 4095)) ∧
        good (.allocate base extent.pagesNeeded) ∧ good (.compute (extent.pagesNeeded * 4096)) ∧
        good (.write base (wrap (extent.pagesNeeded * 4096))) ∧
        (loadSegments file file.header extent.virtualBase base
          (zeroBytes ram base (wrap (extent.pagesNeeded * 4096)))).All good := by
  unfold parseAndLoadElf
  rw [all_bind_of_ok (readHeader_outcome identified), all_bind_of_ok measured,
    all_compute_bind, all_compute_bind]
  change _ ∧ _ ∧ _ ∧ _ ∧ (firmware.allocate extent.pagesNeeded >>= _).All good ↔ _
  rw [allocate_eq granted, all_bind_of_ok rfl, all_compute_bind, all_act_bind]
  have last {next : LoadState → Loader (LoadedKernel × (Nat → UInt8))} {run : Loader LoadState}
      (ends : ∀ state, (next state).All good) : (run >>= next).All good ↔ run.All good :=
    ⟨all_of_all_bind, fun all => all_bind all ends⟩
  rw [last fun state => all_pure]
  simp only [Logged.All, mem_singleton, forall_eq]
  exact .rfl

end

def LoadAction.Plain (action : LoadAction) : Prop := ∀ base pages, action ≠ .allocate base pages

theorem plain_read (offset count : Nat) : (read offset count).Plain := nofun

theorem plain_compute (exact : Int) : (LoadAction.compute exact).Plain := nofun

theorem plain_write (addr count : Nat) : (write addr count).Plain := nofun

theorem readHeader_plain : (readHeader file).All LoadAction.Plain := by
  unfold readHeader
  simp only [all_ensure_bind, all_readBytes_bind, all_readField_bind, all_pure,
    plain_read, true_and, implies_true]

theorem phAddr_plain {header : ElfHeader} : (phAddr header i).All LoadAction.Plain := by
  unfold phAddr
  rw [all_compute_bind, all_compute]
  exact ⟨plain_compute _, plain_compute _⟩

theorem measureHeader_plain : (measureHeader file file.header extent i).All LoadAction.Plain := by
  refine all_bind phAddr_plain fun addr => ?_
  simp only [all_compute_bind, all_ensure_bind, all_readField_bind, plain_compute,
    plain_read, true_and]
  intro _
  by_cases load : file.field addr 4 = ptLoad
  · rw [if_neg (not_not.mpr load)]
    simp only [all_compute_bind, all_readField_bind, plain_compute, plain_read, all_pure, true_and]
  · rw [if_pos load]
    exact all_pure

theorem loadHeader_plain {state : LoadState} :
    (loadHeader file file.header virtualBase base state i).All LoadAction.Plain := by
  refine all_bind phAddr_plain fun addr => ?_
  rw [all_readField_bind]
  refine ⟨plain_read _ _, ?_⟩
  by_cases load : file.field addr 4 = ptLoad
  · rw [if_neg (not_not.mpr load)]
    simp only [all_readField_bind, all_compute_bind, all_ensure_bind, plain_read,
      plain_compute, true_and]
    intro _
    refine all_bind ?_ fun src => ?_
    · unfold sliceFile
      rw [all_ensure_bind, all_readBytes]
      exact fun _ => plain_read _ _
    · rw [all_act_bind]
      exact ⟨plain_write _ _, all_pure⟩
  · rw [if_pos load]
    exact all_pure

/-- The run owns exactly the pages of its one allocation. -/
theorem owned_eq_within (identified : file.Identified)
    (measured : (measure file file.header).outcome = .ok extent)
    (granted : firmware.allocatePages extent.pagesNeeded = some base) :
    Owned (parseAndLoadElf firmware ram file).log =
      Within base (extent.pagesNeeded * pageSize) := by
  have only : (parseAndLoadElf firmware ram file).All fun action => ∀ start pages,
      action = .allocate start pages → start = base ∧ pages = extent.pagesNeeded := by
    have plain {action : LoadAction} (other : action.Plain) (start pages : Nat)
        (same : action = .allocate start pages) : start = base ∧ pages = extent.pagesNeeded :=
      absurd same (other start pages)
    have measured_plain : (measure file file.header).All LoadAction.Plain :=
      all_foldlM fun _ _ _ => measureHeader_plain
    have loaded_plain : (loadSegments file file.header extent.virtualBase base (zeroBytes ram base
        (wrap (extent.pagesNeeded * 4096)))).All LoadAction.Plain :=
      all_foldlM fun _ _ _ => loadHeader_plain
    rw [parseAndLoadElf_all_iff identified measured granted]
    refine ⟨fun action member => plain (readHeader_plain action member),
      fun action member => plain (measured_plain action member), nofun, nofun, ?_, nofun, nofun,
      fun action member => plain (loaded_plain action member)⟩
    rintro start pages ⟨⟩
    exact ⟨rfl, rfl⟩
  have allocates : .allocate base extent.pagesNeeded ∈ (parseAndLoadElf firmware ram file).log := by
    by_contra absent
    have avoids : (parseAndLoadElf firmware ram file).All
        (· ≠ .allocate base extent.pagesNeeded) := fun action member same => absent (same ▸ member)
    exact ((parseAndLoadElf_all_iff identified measured granted).mp avoids).2.2.2.2.1 rfl
  funext addr
  refine propext ⟨?_, fun inside => ⟨base, extent.pagesNeeded, allocates, inside⟩⟩
  rintro ⟨start, pages, member, inside⟩
  obtain ⟨rfl, rfl⟩ := only _ member start pages rfl
  exact inside

end Runs

/-! ## When a run is safe -/

theorem roundUp_mono {first second : Nat} (least : first ≤ second) :
    roundUp first ≤ roundUp second :=
  Nat.mul_le_mul_right _ (Nat.div_le_div_right (Nat.add_le_add_right least _))

theorem le_roundUp (len : Nat) : len ≤ roundUp len := by
  unfold roundUp
  omega

theorem Loadable.measurable (loadable : Loadable file) (bound : i < file.header.ePhnum) :
    Measurable file i :=
  ⟨loadable.headers i bound, fun load =>
    loadable.memory _ (mem_loads.mpr ⟨i, bound, load, rfl⟩)⟩

/-- In terms of the range that is measured: it must not wrap when it is rounded, and hold all. -/
theorem loadable_iff (spans : extent.Spans file.loads)
    (measurable : ∀ i < file.header.ePhnum, Measurable file i) :
    Loadable file ↔
      extent.totalEnd - extent.virtualBase + 4095 < 2 ^ 64 ∧
        ∀ ph ∈ file.loads, Fillable extent.virtualBase
          (roundUp (extent.totalEnd - extent.virtualBase)) ph := by
  obtain ⟨first, firstLoads, start⟩ := spans.first
  obtain ⟨last, lastLoads, finish⟩ := spans.last
  have ordered := spans.above first firstLoads
  unfold ProgramHeader.finish at finish ordered
  refine ⟨fun loadable => ⟨?_, fun ph member => ⟨loadable.bytes ph member, ?_⟩⟩, ?_⟩
  · have span := loadable.span first firstLoads last lastLoads
    omega
  · obtain ⟨other, otherLoads, room⟩ := loadable.room first firstLoads
      (fun ph member => start ▸ spans.below ph member) ph member
    have within := spans.above other otherLoads
    have lower := spans.below ph member
    have rounded : roundUp (other.pVaddr + other.pMemsz - first.pVaddr) ≤
        roundUp (extent.totalEnd - extent.virtualBase) :=
      roundUp_mono (by rw [start]; exact Nat.sub_le_sub_right within _)
    omega
  · rintro ⟨span, fillable⟩
    refine ⟨fun i bound => (measurable i bound).header, List.ne_nil_of_mem firstLoads,
      forall_loads.mpr fun i bound => (measurable i bound).memory,
      fun ph member => (fillable ph member).bytes, ?_, ?_⟩
    · intro lower lowerLoads upper upperLoads
      have below := spans.below lower lowerLoads
      have above := spans.above upper upperLoads
      unfold ProgramHeader.finish at above
      omega
    · intro lowest lowestLoads least ph member
      have same : lowest.pVaddr = extent.virtualBase :=
        Nat.le_antisymm (start ▸ least first firstLoads) (spans.below lowest lowestLoads)
      refine ⟨last, lastLoads, ?_⟩
      have room := (fillable ph member).room
      rw [same, finish]
      omega

theorem pagesNeeded_eq (ordered : extent.virtualBase ≤ extent.totalEnd)
    (bounded : extent.totalEnd < 2 ^ 64)
    (span : extent.totalEnd - extent.virtualBase + 4095 < 2 ^ 64) :
    extent.pagesNeeded * pageSize = roundUp (extent.totalEnd - extent.virtualBase) := by
  unfold Extent.pagesNeeded roundUp
  rw [wrap_sub ordered bounded]
  have padded : wrap ((extent.totalEnd - extent.virtualBase : Nat) + 4095) =
      extent.totalEnd - extent.virtualBase + 4095 := wrap_add span
  rw [padded]
  rfl

section Safety

variable {firmware : Firmware} {ram : Nat → UInt8}

theorem safeRun_iff_of_measured (identified : file.Identified)
    (measurable : ∀ i < file.header.ePhnum, Measurable file i)
    (measured : (measure file file.header).outcome = .ok (extentOf file.loads))
    (passes : Passes (parseAndLoadElf firmware ram file))
    (granted : (parseAndLoadElf firmware ram file).outcome ≠ .error .allocation) :
    SafeRun file (parseAndLoadElf firmware ram file) ↔ Loadable file := by
  obtain ⟨base, allocated⟩ := parseAndLoadElf_granted identified measured granted
  have pass := loadSegments_passes identified measured allocated passes
  obtain ⟨_, placed⟩ := firmware.placed _ _ allocated
  unfold SafeRun
  rw [owned_eq_within identified measured allocated,
    parseAndLoadElf_all_iff identified measured allocated]
  by_cases noLoads : file.loads = []
  · -- without a segment the range ends before it starts
    rw [noLoads] at measured ⊢
    refine ⟨fun safe => absurd safe.2.2.1.1 (by decide), fun loadable =>
      absurd noLoads loadable.nonempty⟩
  have spans := extentOf_spans noLoads fun ph => vaddr_lt
  rw [loadable_iff spans measurable]
  generalize extentOf file.loads = extent at *
  obtain ⟨first, firstLoads, start⟩ := spans.first
  obtain ⟨last, lastLoads, finish⟩ := spans.last
  have ordered : extent.virtualBase ≤ extent.totalEnd := by
    have above := spans.above first firstLoads
    unfold ProgramHeader.finish at above
    omega
  have bounded : extent.totalEnd < 2 ^ 64 := by
    obtain ⟨i, bound, load, rfl⟩ := mem_loads.mp lastLoads
    exact finish ▸ (measurable i bound).memory load
  rw [wrap_sub ordered bounded]
  by_cases span : extent.totalEnd - extent.virtualBase + 4095 < 2 ^ 64
  · have total := le_roundUp (extent.totalEnd - extent.virtualBase)
    have pages := pagesNeeded_eq ordered bounded span
    rw [pages] at placed ⊢
    have reserved (ph : ProgramHeader) (member : ph ∈ file.loads) :
        Reserved extent.virtualBase base (roundUp (extent.totalEnd - extent.virtualBase)) ph := by
      have below := spans.below ph member
      have above := spans.above ph member
      unfold ProgramHeader.finish at above
      exact ⟨below, by omega, by omega⟩
    rw [loadSegments_all_iff (fun i bound => (measurable i bound).header) reserved pass]
    refine ⟨fun safe => ⟨span, safe.2.2.2.2.2.2.2⟩, fun ⟨_, fillable⟩ => ?_⟩
    have bytes : (extent.pagesNeeded * 4096 : Int) =
        (roundUp (extent.totalEnd - extent.virtualBase) : Nat) := by
      rw [← pages]
      exact (Int.natCast_mul _ _).symm
    have exact : (LoadAction.compute (extent.totalEnd - extent.virtualBase)).Safe file.size
        (Within base (roundUp (extent.totalEnd - extent.virtualBase))) := by
      rw [← Int.natCast_sub ordered, safe_compute_iff]
      omega
    refine ⟨readHeader_all identified.large,
      (measure_all_iff (stopsOnly_of_bind ((stopsOnly_bind_of_ok
        (readHeader_outcome identified)).mp passes))).mpr measurable, exact,
      (safe_compute_add_iff _ 4095).mpr span, trivial, ?_, ?_, fillable⟩
    · rw [bytes, safe_compute_iff]
      omega
    · rw [bytes, wrap_of_lt (by omega)]
      exact fun k small => ⟨Nat.le_add_right _ _, Nat.add_lt_add_left small _⟩
  · refine ⟨fun safe => absurd safe.2.2.2.1.2 (by omega), fun holds => absurd holds.1 span⟩

/--
A run that no assertion stops and that gets its pages is safe exactly if the
file is loadable.
-/
theorem parseAndLoadElf_safe_iff (firmware : Firmware) (ram : Nat → UInt8) (file : ElfFile)
    (passes : ∀ failed, (parseAndLoadElf firmware ram file).outcome ≠ .error (.assertion failed))
    (granted : (parseAndLoadElf firmware ram file).outcome ≠ .error .allocation) :
    SafeRun file (parseAndLoadElf firmware ram file) ↔ Loadable file := by
  have pass : Passes (parseAndLoadElf firmware ram file) :=
    fun reason stopped failed same => passes failed (same ▸ stopped)
  have identified := identified_of_passes (stopsOnly_of_bind pass)
  have rest := (stopsOnly_bind_of_ok (readHeader_outcome identified)).mp pass
  have measurePass : Passes (measure file file.header) := stopsOnly_of_bind rest
  by_cases measurable : ∀ i < file.header.ePhnum, Measurable file i
  · exact safeRun_iff_of_measured identified measurable (measure_outcome measurePass measurable)
      pass granted
  · refine ⟨fun safe => absurd ?_ measurable, fun loadable =>
      absurd (fun i bound => loadable.measurable bound) measurable⟩
    have later := ((all_bind_of_ok (readHeader_outcome identified)).mp safe).2
    exact (measure_all_iff measurePass).mp (all_of_all_bind later)

end Safety

/-- Two segments in one page; the second has one byte of memory, the last one of the page. -/
def twoSegments (filesz : Nat) : List ProgramHeader :=
  [⟨ptLoad, 4, 0, kernelVaddrBase, 0, 1⟩, ⟨ptLoad, 6, 0, kernelVaddrBase + 4095, filesz, 1⟩]

def snugFile : ElfFile := fileOf (twoSegments 1) (by decide)

/-- The second segment has one more byte in the file than in memory. -/
def spillingFile : ElfFile := fileOf (twoSegments 2) (by decide)

theorem parseAndLoadElf_safe_iff_snug :
    SafeRun snugFile (parseAndLoadElf smallFirmware (fun _ => 0) snugFile) := by
  have loads : snugFile.loads = twoSegments 1 := by decide +kernel
  have count : snugFile.header.ePhnum = 2 := by decide +kernel
  have ended : (parseAndLoadElf smallFirmware (fun _ => 0) snugFile).outcome.isOk = true := by
    decide +kernel
  refine (parseAndLoadElf_safe_iff smallFirmware (fun _ => 0) snugFile ?_ ?_).mpr ?_
  · intro failed stopped
    rw [stopped] at ended
    cases ended
  · intro stopped
    rw [stopped] at ended
    cases ended
  · refine ⟨?_, ?_, ?_, ?_, ?_, ?_⟩
    · intro i bound
      have which : i = 0 ∨ i = 1 := by omega
      rcases which with rfl | rfl <;>
        exact ⟨by decide +kernel, by decide +kernel, by decide +kernel⟩
    all_goals rw [loads]; decide +kernel

def LoadAction.isAllocation : LoadAction → Bool
  | .allocate _ _ => true
  | _ => false

/-- The loader accepts the file and writes a byte behind the only page it was given. -/
theorem spilling_file_not_safe :
    (parseAndLoadElf smallFirmware (fun _ => 0) spillingFile).outcome.isOk = true ∧
      ¬ SafeRun spillingFile (parseAndLoadElf smallFirmware (fun _ => 0) spillingFile) := by
  refine ⟨by decide +kernel, fun safe => ?_⟩
  have only : ∀ action ∈ (parseAndLoadElf smallFirmware (fun _ => 0) spillingFile).log,
      action.isAllocation = true → action = .allocate 0x100000 1 := by decide +kernel
  have writes : .write (0x100000 + 4095) 2 ∈
      (parseAndLoadElf smallFirmware (fun _ => 0) spillingFile).log := by decide +kernel
  obtain ⟨base, pages, allocated, _, inside⟩ := safe _ writes 1 (by decide)
  cases only _ allocated rfl
  exact absurd inside (by decide)

end CantayaOS.Boot
