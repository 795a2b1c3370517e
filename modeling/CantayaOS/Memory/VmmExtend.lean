import CantayaOS.Memory.VmmRegions

/-!
# Device ranges and growth of the heap region

When the bytes of a device range translate as the caller of `mapMmio` expects,
and when a failed extension of the kernel heap leaves no trace.
-/

namespace CantayaOS.Memory

open Lib PageTableEntry PageMachine List

namespace VmmState

/--
A byte on the pages that are mapped must have a physical address that an entry can hold; a
byte behind them must translate correctly already before the call.
-/
def MmioCovered (pml4 : Nat) (state : VmmState) (physBase size : Nat) : Prop :=
  ∀ vaddr ranges,
    state.ranges.allocVirtualRange (pagesFor size * pageSize) = (some vaddr, ranges) →
    ∀ i < size,
      if physBase % pageSize + i < pagesFor size * pageSize then physBase + i < 2 ^ 52
      else translate state.machine.memory pml4 (vaddr + (physBase % pageSize + i)) =
        some (physBase + i)

/-- The frame of a page of the device range is right exactly if its number fits an entry. -/
theorem address_pageAddr_iff {physBase i : Nat} (word : physBase < 2 ^ 64) :
    address (pageAddr (physBase / pageSize * pageSize) ((physBase % pageSize + i) / pageSize)) +
        (physBase % pageSize + i) % pageSize = physBase + i ↔ physBase + i < 2 ^ 52 := by
  generalize far : physBase % pageSize + i = offset
  have whole : physBase / pageSize * pageSize + offset / pageSize * pageSize + offset % pageSize =
      physBase + i := by
    simp only [pageSize] at *
    omega
  constructor
  · generalize pageAddr (physBase / pageSize * pageSize) (offset / pageSize) = page
    intro same
    have bound := address_lt page
    obtain ⟨frame, aligned⟩ := pageSize_dvd_address page
    rw [← same]
    simp only [pageSize] at *
    omega
  · intro bound
    have low : physBase / pageSize * pageSize + offset / pageSize * pageSize < 2 ^ 52 := by omega
    rw [pageAddr, Nat.mod_eq_of_lt (low.trans (by decide)), address, and_addrMask _ low, whole]
    exact dvd_add (dvd_mul_left _ _) (dvd_mul_left _ _)

end VmmState

namespace VmmSystem

open VmmState

/--
In a state reached by any run, a device range that was mapped translates byte for byte to the
physical range exactly when the pages that are mapped hold all its bytes, up to bytes that
translated correctly before, and its addresses fit the page table entries.
-/
theorem mapMmio_translates_iff {machine : PageMachine} {pml4 : Nat} {events : List VmmEvent}
    {system : VmmSystem} (tree : machine.WellFormed pml4)
    (vacant : ∀ x, Vmm.regionStart ≤ x → x < Vmm.regionEnd →
      translate machine.memory pml4 x = none)
    (reached : Transition.run (step pml4) (start machine) events = some system)
    {physBase size v : Nat} {after : VmmState} (word : physBase < 2 ^ 64) (positive : 0 < size)
    (small : size ≤ Vmm.regionEnd - Vmm.regionStart)
    (mapped : system.state.mapMmio pml4 physBase size = (some v, after)) :
    (∀ i < size, translate after.machine.memory pml4 (v + i) = some (physBase + i)) ↔
      system.state.MmioCovered pml4 physBase size := by
  have valid := run_valid tree vacant reached
  obtain ⟨bytes, room⟩ := pagesFor_bounds positive small
  have whole : pageSize ∣ pagesFor size * pageSize := dvd_mul_left _ _
  have aligned : physBase &&& Word.not64 0xFFF = physBase / pageSize * pageSize :=
    Word.and_not64_eq_div_mul (k := 12) word (by decide)
  have offset : physBase - physBase / pageSize * pageSize = physBase % pageSize := by
    simp only [pageSize]
    omega
  unfold mapMmio at mapped
  dsimp only at mapped
  rw [size_mod room, aligned, offset] at mapped
  split at mapped
  next => cases mapped
  next vaddr ranges granted =>
    split at mapped
    next => cases mapped
    next machine' ran =>
      cases mapped
      obtain ⟨base, low, high, _⟩ := valid.granted_range ⟨bytes, room, whole, granted⟩
      let entryOf (j : Nat) : Nat × Nat :=
        (pageAddr vaddr j, address (pageAddr (physBase / pageSize * pageSize) j))
      have filled : PageMachine.Filled system.state.machine machine' pml4
          ((List.range (pagesFor size)).map entryOf) [] := by
        have loop := mapDevice_filled _ _ (PageMachine.Filled.start valid.tree) ran
        rwa [pageAddrs, pageAddrs, zip_map', List.map_map] at loop
      have start : (vaddr + physBase % pageSize) % 2 ^ 64 = vaddr + physBase % pageSize := by
        apply Nat.mod_eq_of_lt
        simp only [Vmm.regionEnd, pageSize] at *
        omega
      -- one byte of the range, on the mapped pages or behind them
      have byte (i : Nat) (inside : i < size) :
          translate machine'.memory pml4 (vaddr + (physBase % pageSize + i)) = some (physBase + i) ↔
            if physBase % pageSize + i < pagesFor size * pageSize then physBase + i < 2 ^ 52
            else translate system.state.machine.memory pml4
              (vaddr + (physBase % pageSize + i)) = some (physBase + i) := by
        generalize far : physBase % pageSize + i = offset
        split
        next onPages =>
          have number := Nat.div_lt_of_lt_mul (by rwa [mul_comm])
          have entry := filled.mapped (entryOf (offset / pageSize))
            (List.mem_map_of_mem (mem_range.mpr number))
          have page : pageOf (vaddr + offset) = pageOf (pageAddr vaddr (offset / pageSize)) := by
            apply pageOf_eq_of_div_eq
            rw [pageAddr_eq base high number]
            obtain ⟨first, rfl⟩ := base
            simp only [pageSize]
            omega
          have within : (vaddr + offset) % pageSize = offset % pageSize := by
            obtain ⟨first, rfl⟩ := base
            exact Nat.mul_add_mod _ _ _
          rw [translate_eq_mappings, page, entry, Option.map_some, within, Option.some.injEq]
          exact far ▸ address_pageAddr_iff word
        next behind =>
          rw [translate_eq_mappings, translate_eq_mappings, filled.elsewhere]
          have outside : pageOf (vaddr + offset) ∉ rangePages vaddr (pagesFor size) := by
            rw [mem_rangePages base low high (by omega) ?_]
            · omega
            · simp only [Vmm.regionStart, Vmm.regionEnd, pageSize] at *
              omega
          rw [rangePages, pageAddrs, List.map_map] at outside
          rw [entryPages, List.map_map]
          exact outside
      rw [start]
      constructor
      · intro all vaddr' ranges' granted' i inside
        rw [granted] at granted'
        cases granted'
        rw [← byte i inside, ← add_assoc]
        exact all i inside
      · intro covered i inside
        rw [add_assoc, byte i inside]
        exact covered vaddr ranges granted i inside

/-- Three bytes that cross a page boundary: only the first of the two pages is mapped. -/
theorem mapMmio_misses_last_bytes :
    ∃ after, (start emptyTables).state.mapMmio 0x200000 0xFEE00FFF 3 =
        (some (Vmm.regionStart + 0xFFF), after) ∧
      translate after.machine.memory 0x200000 (Vmm.regionStart + 0xFFF + 1) ≠
        some (0xFEE00FFF + 1) := by
  have mapped : ((start emptyTables).state.mapMmio 0x200000 0xFEE00FFF 3).1 =
      some (Vmm.regionStart + 0xFFF) := by decide +kernel
  refine ⟨_, Prod.ext_iff.mpr ⟨mapped, rfl⟩, ?_⟩
  decide +kernel

/-- The registers of a device within one page. -/
theorem mapMmio_translates_registers :
    ∃ v after, (start emptyTables).state.mapMmio 0x200000 0xFEE00020 0x20 = (some v, after) ∧
      ∀ i < 0x20, translate after.machine.memory 0x200000 (v + i) = some (0xFEE00020 + i) := by
  have mapped : ((start emptyTables).state.mapMmio 0x200000 0xFEE00020 0x20).1 =
      some (Vmm.regionStart + 0x20) := by decide +kernel
  have done := Prod.ext_iff.mpr ⟨mapped, rfl⟩
  have reached : Transition.run (step 0x200000) (start emptyTables) [] =
      some (start emptyTables) := rfl
  refine ⟨_, _, done, (mapMmio_translates_iff emptyTables_wellFormed
    (fun x _ _ => emptyTables_vacant x) reached (by decide) (by decide) (by decide) done).mpr ?_⟩
  intro vaddr ranges granted i inside
  rw [if_pos]
  · omega
  · simp only [VmmState.pagesFor, pageSize]
    omega

end VmmSystem

/-! ## Growth of the heap region -/

namespace PageMachine

/--
The loop of `extendHeap`.  A page that cannot be mapped makes it release the pages already
`done`; it returns at once when no frame is left.
-/
def extendPages (pml4 : Nat) (flags : PageFlags) : List Nat → List Nat → PageMachine →
    Bool × PageMachine
  | _, [], machine => (true, machine)
  | done, addr :: rest, machine =>
    match machine.frames.allocateFrame with
    | (none, frames) => (false, { machine with frames := frames })
    | (some frame, frames) =>
      match PageMachine.mapPage { machine with frames := frames } pml4 addr frame flags with
      | (false, machine) =>
        (false, done.foldl (releasePage pml4)
          { machine with frames := machine.frames.freeFrame frame })
      | (true, machine) => extendPages pml4 flags (done ++ [addr]) rest machine

end PageMachine

namespace VmmState

def heapRegionStart : Nat := 0xFFFFFFFFC0000000

def heapRegionMax : Nat := 256 * 1024 * 1024

def heapFlags : PageFlags := PageFlags.writable.union .noExecute

/-- Map new pages at the top of the heap; returns the new region, the state and the new top. -/
def extendHeap (pml4 : Nat) (state : VmmState) (heapTop minBytes : Nat) :
    Option (Nat × Nat) × VmmState × Nat :=
  let pageCount := pagesFor minBytes
  let size := pageCount * pageSize % 2 ^ 64
  let newTop := (heapTop + size) % 2 ^ 64
  if heapRegionStart + heapRegionMax < newTop then (none, state, heapTop)
  else
    match PageMachine.extendPages pml4 heapFlags [] (pageAddrs heapTop pageCount) state.machine with
    | (false, machine) => (none, { state with machine := machine }, heapTop)
    | (true, machine) => (some (heapTop, size), { state with
        machine := machine
        regions := state.regions ++ [⟨heapTop, size, heapFlags, .heap⟩]
        totalMapped := (state.totalMapped + size) % 2 ^ 64 }, newTop)

/--
The extension is refused for its size, or the frames are not used up exactly by some of its
pages and the tables for them: whenever the first `i` pages can be backed alone, a frame is left.
-/
def ExtensionAffordable (pml4 : Nat) (state : VmmState) (heapTop minBytes : Nat) : Prop :=
  heapRegionStart + heapRegionMax < (heapTop + pagesFor minBytes * pageSize % 2 ^ 64) % 2 ^ 64 ∨
    ∀ i, 0 < i → i < pagesFor minBytes → ∀ machine,
      PageMachine.mapFresh pml4 heapFlags [] (pageAddrs heapTop i) state.machine =
        (true, machine) → machine.frames.allocateFrame.1 ≠ none

theorem pageAddrs_add (vaddr i n : Nat) : pageAddrs vaddr (i + n) =
    pageAddrs vaddr i ++ (List.range n).map fun j => pageAddr vaddr (i + j) := by
  unfold pageAddrs
  rw [range_add, map_append, List.map_map]
  rfl

theorem pageAddrs_front {vaddr n addr : Nat} {front rest : List Nat}
    (pages : pageAddrs vaddr n = front ++ addr :: rest) : ∃ i < n, front = pageAddrs vaddr i := by
  have length := congrArg List.length pages
  simp only [pageAddrs, length_map, length_range, length_append, length_cons] at length
  refine ⟨front.length, by omega, ?_⟩
  have taken := congrArg (List.take front.length) pages
  rw [take_left, pageAddrs, ← map_take, take_range, min_eq_left (by omega)] at taken
  exact taken.symm

end VmmState

namespace PageMachine

variable {before machine next : PageMachine} {pml4 : Nat} {flags : PageFlags}

/-- As long as pages can be backed, the loop goes on behind them. -/
theorem extendPages_append (front rest : List Nat) {done : List Nat}
    (ran : mapFresh pml4 flags done front machine = (true, next)) :
    extendPages pml4 flags done (front ++ rest) machine =
      extendPages pml4 flags (done ++ front) rest next := by
  induction front generalizing machine done with
  | nil =>
    cases ran
    rw [nil_append, append_nil]
  | cons addr front ih =>
    unfold mapFresh at ran
    split at ran
    next => cases ran
    next frame frames taken =>
      split at ran
      next => cases ran
      next after mapped =>
        simp only [cons_append, extendPages, taken, mapped]
        rw [ih ran, append_assoc]
        rfl

/-- A loop that fails has undone everything, or it stopped behind some pages without a frame. -/
theorem extendPages_fails (todo : List Nat) {entries : List (Nat × Nat)} {mine : List Nat}
    (filled : Filled before machine pml4 entries mine) (owned : mine.Perm (entries.map Prod.snd))
    (ran : extendPages pml4 flags (entries.map Prod.fst) todo machine = (false, next)) :
    Filled before next pml4 [] [] ∨
      ∃ front addr rest, todo = front ++ addr :: rest ∧
        mapFresh pml4 flags (entries.map Prod.fst) front machine = (true, next) ∧
        next.frames.allocateFrame.1 = none := by
  induction todo generalizing machine entries mine with
  | nil => cases ran
  | cons addr rest ih =>
    unfold extendPages at ran
    rcases machine.frames.allocateFrame_cases with ⟨i, free, taken⟩ | ⟨refused, _⟩
    · have took := filled.take free
      have alloc := taken
      simp only [taken, FrameAllocator.takeFrame] at ran
      split at ran
      next after failed =>
        cases ran
        exact .inl (((took.refuse failed).give rfl).rollback owned)
      next after mapped =>
        obtain ⟨more, mineNow, shape⟩ := filled.backed owned free mapped
        rw [← shape] at ran
        refine (ih more mineNow ran).imp_right ?_
        rintro ⟨front, last, behind, rfl, backed, empty⟩
        refine ⟨addr :: front, last, behind, rfl, ?_, empty⟩
        unfold mapFresh
        rw [shape] at backed
        simp only [alloc, FrameAllocator.takeFrame, mapped, backed]
    · simp only [refused] at ran
      cases ran
      exact .inr ⟨[], addr, rest, rfl, rfl, congrArg Prod.fst refused⟩

end PageMachine

namespace VmmSystem

open VmmState

/--
An extension of the heap that fails leaves the heap top, every translation and every data frame
as they were, exactly if the frames do not run out between two of its pages.
-/
theorem failed_extendHeap_leaves_no_pages_iff {pml4 : Nat} (state : VmmState)
    (tree : state.machine.WellFormed pml4) (heapTop minBytes : Nat) :
    (∀ after top, state.extendHeap pml4 heapTop minBytes = (none, after, top) →
        top = heapTop ∧ RolledBack pml4 state after) ↔
      state.ExtensionAffordable pml4 heapTop minBytes := by
  have start := PageMachine.Filled.start tree
  unfold extendHeap ExtensionAffordable
  dsimp only
  split
  next large =>
    refine iff_of_true ?_ (.inl large)
    rintro _ _ ⟨⟩
    exact ⟨rfl, RolledBack.refl pml4 _⟩
  next fits =>
    rw [or_iff_right fits]
    constructor
    · intro undone i positive inside machine backed empty
      obtain ⟨n, count⟩ := Nat.exists_eq_add_of_lt inside
      have rest := pageAddrs_add heapTop i (n + 1)
      rw [← add_assoc, ← count] at rest
      -- the loop stops behind these pages, and the first of them stays mapped
      have stopped : extendPages pml4 heapFlags [] (pageAddrs heapTop
          (pagesFor minBytes)) state.machine = (false, machine) := by
        rw [rest, extendPages_append _ _ backed, range_succ_eq_map]
        rcases machine.frames.allocateFrame_cases with ⟨j, _, taken⟩ | ⟨refused, _⟩
        · rw [taken] at empty
          cases empty
        · simp only [map_cons, extendPages, refused]
      rw [stopped] at undone
      obtain ⟨entries, mine, filled, _, shape⟩ :=
        mapFresh_filled _ heapFlags start (List.Perm.refl []) backed
      have first : pageAddr heapTop 0 ∈ entries.map Prod.fst := by
        rw [shape]
        exact List.mem_map_of_mem (mem_range.mpr positive)
      obtain ⟨entry, member, addr⟩ := List.mem_map.mp first
      have same := (undone _ _ rfl).2.translate_eq entry.1
      rw [translate_eq_mappings, translate_eq_mappings, filled.mapped entry member,
        filled.absent _ (List.mem_map_of_mem member)] at same
      cases same
    · intro affordable after top failed
      split at failed
      next machine stopped =>
        cases failed
        refine ⟨rfl, ?_⟩
        rcases extendPages_fails _ start (List.Perm.refl []) stopped with
          filled | ⟨front, addr, rest, pages, backed, empty⟩
        · exact RolledBack.of_filled filled fun _ => .rfl
        obtain ⟨i, inside, rfl⟩ := pageAddrs_front pages
        rcases Nat.eq_zero_or_pos i with rfl | positive
        · cases backed
          exact RolledBack.refl pml4 _
        · exact absurd empty (affordable i positive inside machine backed)
      next => cases failed

/--
Four frames are used up by the first of two pages.  It stays mapped behind the heap top, and the
heap cannot grow by a page even when there are frames again.
-/
theorem failed_extendHeap_leaves_page :
    ∃ after, (start emptyTables).state.extendHeap 0x200000 heapRegionStart 8192 =
        (none, after, heapRegionStart) ∧
      translate (start emptyTables).state.machine.memory 0x200000 heapRegionStart = none ∧
      translate after.machine.memory 0x200000 heapRegionStart ≠ none ∧
      (VmmState.extendHeap 0x200000 { after with machine := { after.machine with
        frames := FrameAllocator.init ⟨[⟨0x300000, 0x4000, .usable⟩], by decide⟩ } }
          heapRegionStart 4096).1 = none := by
  have failed : ((start emptyTables).state.extendHeap 0x200000 heapRegionStart 8192).1 = none ∧
      ((start emptyTables).state.extendHeap 0x200000 heapRegionStart 8192).2.2 =
        heapRegionStart := by decide +kernel
  refine ⟨_, Prod.ext_iff.mpr ⟨failed.1, Prod.ext_iff.mpr ⟨rfl, failed.2⟩⟩, ?_, ?_, ?_⟩
  · exact emptyTables_vacant _
  · decide +kernel
  · decide +kernel

/--
Of five frames four are used up by the last page of a page table.  The next page has a frame but
no table, and the first is unmapped again.
-/
theorem failed_extendHeap_leaves_no_pages_noTable :
    let state := (start fiveFrames).state
    let top := heapRegionStart + 0x1FF000
    (PageMachine.mapFresh 0x200000 heapFlags [] [top] state.machine).1 = true ∧
      ∃ after, state.extendHeap 0x200000 top 8192 = (none, after, top) ∧
        RolledBack 0x200000 state after := by
  intro state top
  have mapped : (PageMachine.mapFresh 0x200000 heapFlags [] [top] state.machine).1 = true ∧
      (PageMachine.mapFresh 0x200000 heapFlags [] [top] state.machine).2.frames.allocateFrame.1 ≠
        none := by decide +kernel
  have affordable : state.ExtensionAffordable 0x200000 top 8192 := by
    refine .inr fun i positive inside machine backed => ?_
    obtain rfl : i = 1 := by
      simp only [pagesFor, pageSize] at inside
      omega
    rw [show pageAddrs top 1 = [top] by decide] at backed
    rw [backed] at mapped
    exact mapped.2
  have refused : (state.extendHeap 0x200000 top 8192).1 = none := by decide +kernel
  rcases failed : state.extendHeap 0x200000 top 8192 with ⟨region, after, last⟩
  rw [failed] at refused
  cases refused
  obtain ⟨rfl, undone⟩ := (failed_extendHeap_leaves_no_pages_iff state fiveFrames_wellFormed top
    8192).mpr affordable _ _ failed
  exact ⟨mapped.1, after, rfl, undone⟩

end VmmSystem

end CantayaOS.Memory
