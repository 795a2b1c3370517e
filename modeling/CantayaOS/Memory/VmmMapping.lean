import CantayaOS.Lib.Word
import CantayaOS.Memory.PagingRefinement
import CantayaOS.Memory.Vmm

/-!
# Mapping virtual ranges

The virtual memory manager backs a range with frames of its own or with device
memory, page by page, and undoes the pages already mapped when one of them
fails.  The loops are described by what they do to the partial map of the page
tables and to the free frames.
-/

namespace CantayaOS.Memory

open Lib PageTableEntry FrameAllocator List Function

inductive RegionKind where
  | heap
  | kernelAlloc
  | mmio
  | userMapping
  deriving DecidableEq

structure VirtualRegion where
  base : Nat
  size : Nat
  flags : PageFlags
  kind : RegionKind
  deriving DecidableEq

structure VmmState where
  machine : PageMachine
  ranges : Vmm
  regions : List VirtualRegion
  totalMapped : Nat

namespace PageMachine

def releasePage (pml4 : Nat) (machine : PageMachine) (addr : Nat) : PageMachine :=
  match machine.unmapPage pml4 addr with
  | (some phys, machine) => { machine with frames := machine.frames.freeFrame phys }
  | (none, machine) => machine

/-- Unmap a page of a device; its frame belongs to the hardware. -/
def dropPage (pml4 : Nat) (machine : PageMachine) (addr : Nat) : PageMachine :=
  (machine.unmapPage pml4 addr).2

/-- Back the remaining pages with new frames; on failure release those already `done`. -/
def mapFresh (pml4 : Nat) (flags : PageFlags) : List Nat → List Nat → PageMachine →
    Bool × PageMachine
  | _, [], machine => (true, machine)
  | done, addr :: rest, machine =>
    match machine.frames.allocateFrame with
    | (none, frames) =>
      (false, done.foldl (releasePage pml4) { machine with frames := frames })
    | (some frame, frames) =>
      match PageMachine.mapPage { machine with frames := frames } pml4 addr frame flags with
      | (false, machine) =>
        (false, done.foldl (releasePage pml4)
          { machine with frames := machine.frames.freeFrame frame })
      | (true, machine) => mapFresh pml4 flags (done ++ [addr]) rest machine

/-- Map the remaining pages of a device; on failure unmap those already `done`. -/
def mapDevice (pml4 : Nat) (flags : PageFlags) : List Nat → List (Nat × Nat) → PageMachine →
    Bool × PageMachine
  | _, [], machine => (true, machine)
  | done, (addr, phys) :: rest, machine =>
    match machine.mapPage pml4 addr phys flags with
    | (false, machine) => (false, done.foldl (dropPage pml4) machine)
    | (true, machine) => mapDevice pml4 flags (done ++ [addr]) rest machine

end PageMachine

namespace VmmState

def pageAddr (vaddr i : Nat) : Nat := (vaddr + i * pageSize) % 2 ^ 64

def pageAddrs (vaddr pageCount : Nat) : List Nat := (List.range pageCount).map (pageAddr vaddr)

/-- Allocate a range of virtual addresses and back every page of it with a frame. -/
def allocAndMap (pml4 : Nat) (state : VmmState) (pageCount : Nat) (flags : PageFlags)
    (kind : RegionKind) : Option Nat × VmmState :=
  if pageCount = 0 then (none, state)
  else
    let size := pageCount * pageSize % 2 ^ 64
    match state.ranges.allocVirtualRange size with
    | (none, ranges) => (none, { state with ranges := ranges })
    | (some vaddr, ranges) =>
      match PageMachine.mapFresh pml4 flags [] (pageAddrs vaddr pageCount) state.machine with
      | (false, machine) => (none, { state with
          machine := machine
          ranges := ranges.freeVirtualRange vaddr size })
      | (true, machine) => (some vaddr, {
          machine := machine
          ranges := ranges
          regions := state.regions ++ [⟨vaddr, size, flags, kind⟩]
          totalMapped := (state.totalMapped + size) % 2 ^ 64 })

def unmapAndFree (pml4 : Nat) (state : VmmState) (vaddr pageCount : Nat) : VmmState :=
  let size := pageCount * pageSize % 2 ^ 64
  { machine := (pageAddrs vaddr pageCount).foldl (PageMachine.releasePage pml4) state.machine
    ranges := state.ranges.freeVirtualRange vaddr size
    regions := state.regions.filter fun region => region.base != vaddr
    totalMapped := state.totalMapped - size }

def pagesFor (size : Nat) : Nat := (size + pageSize - 1) % 2 ^ 64 / pageSize

def mapMmio (pml4 : Nat) (state : VmmState) (physBase size : Nat) : Option Nat × VmmState :=
  let pageCount := pagesFor size
  let alignedPhys := physBase &&& Word.not64 0xFFF
  let physOffset := physBase - alignedPhys
  let totalSize := pageCount * pageSize % 2 ^ 64
  match state.ranges.allocVirtualRange totalSize with
  | (none, ranges) => (none, { state with ranges := ranges })
  | (some vaddr, ranges) =>
    let flags := (PageFlags.writable.union .noCache).union .noExecute
    match PageMachine.mapDevice pml4 flags []
        ((pageAddrs vaddr pageCount).zip (pageAddrs alignedPhys pageCount)) state.machine with
    | (false, machine) => (none, { state with
        machine := machine
        ranges := ranges.freeVirtualRange vaddr totalSize })
    | (true, machine) => (some ((vaddr + physOffset) % 2 ^ 64), {
        machine := machine
        ranges := ranges
        regions := state.regions ++ [⟨vaddr, totalSize, flags, .mmio⟩]
        totalMapped := (state.totalMapped + totalSize) % 2 ^ 64 })

def unmapMmio (pml4 : Nat) (state : VmmState) (vaddr size : Nat) : VmmState :=
  let alignedVaddr := vaddr &&& Word.not64 0xFFF
  let pageCount := pagesFor size
  let totalSize := pageCount * pageSize % 2 ^ 64
  { machine := (pageAddrs alignedVaddr pageCount).foldl (PageMachine.dropPage pml4) state.machine
    ranges := state.ranges.freeVirtualRange alignedVaddr totalSize
    regions := state.regions.filter fun region => region.base != alignedVaddr
    totalMapped := state.totalMapped - totalSize }

end VmmState

/-! ## Unmapping pages -/

variable {pages : List Page} {frames mine : List Nat} {addr frame i : Nat} {ok : Bool}

namespace PageMachine

variable {before machine next : PageMachine} {pml4 frame : Nat}

/-- A frame in use that is no page table. -/
structure Held (machine : PageMachine) (pml4 frame : Nat) : Prop where
  aligned : pageSize ∣ frame
  tracked : frame / pageSize < maxFrames
  busy : machine.frames.isFree (frame / pageSize) = false
  apart : ∀ p, pageTrie.nodeAt machine.memory 0 pml4 p ≠ some frame

theorem eq_of_div_eq {first second : Nat} (firstAligned : pageSize ∣ first)
    (secondAligned : pageSize ∣ second) (same : first / pageSize = second / pageSize) :
    first = second := by
  rw [← Nat.div_mul_cancel firstAligned, same, Nat.div_mul_cancel secondAligned]

/-- The pages were unmapped and the frames returned, and nothing else changed. -/
structure Released (machine next : PageMachine) (pml4 : Nat) (pages : List Page)
    (frames : List Nat) : Prop where
  tree : WellFormed next pml4
  nodes : ∀ p, pageTrie.nodeAt next.memory 0 pml4 p = pageTrie.nodeAt machine.memory 0 pml4 p
  gone : ∀ page ∈ pages, mappings next.memory pml4 page = none
  elsewhere : ∀ page, page ∉ pages →
    mappings next.memory pml4 page = mappings machine.memory pml4 page
  free : ∀ i, next.frames.isFree i = true ↔
    machine.frames.isFree i = true ∨ ∃ frame ∈ frames, frame / pageSize = i

theorem Released.refl (tree : WellFormed machine pml4) : Released machine machine pml4 [] [] where
  tree := tree
  nodes _ := rfl
  gone := nofun
  elsewhere _ _ := rfl
  free i := by simp

theorem Released.trans {middle : PageMachine} {pages' : List Page} {frames' : List Nat}
    (first : Released machine middle pml4 pages frames)
    (second : Released middle next pml4 pages' frames') :
    Released machine next pml4 (pages ++ pages') (frames ++ frames') where
  tree := second.tree
  nodes p := (second.nodes p).trans (first.nodes p)
  gone page member := by
    by_cases later : page ∈ pages'
    · exact second.gone page later
    · rw [second.elsewhere page later]
      exact first.gone page ((mem_append.mp member).resolve_right later)
  elsewhere page outside := by
    rw [mem_append, not_or] at outside
    rw [second.elsewhere page outside.2, first.elsewhere page outside.1]
  free i := by
    rw [second.free, first.free]
    simp only [mem_append, or_and_right, exists_or, or_assoc]

theorem Released.held {other : Nat}
    (released : Released machine next pml4 pages frames) (held : Held machine pml4 other)
    (aligned : ∀ frame ∈ frames, pageSize ∣ frame) (kept : other ∉ frames) :
    Held next pml4 other where
  aligned := held.aligned
  tracked := held.tracked
  busy := by
    rw [← Bool.not_eq_true, released.free, not_or]
    refine ⟨Bool.eq_false_iff.mp held.busy, ?_⟩
    rintro ⟨frame, member, same⟩
    exact kept (eq_of_div_eq (aligned frame member) held.aligned same ▸ member)
  apart p := by
    rw [released.nodes]
    exact held.apart p

section

variable (tree : WellFormed machine pml4)
  (mapped : mappings machine.memory pml4 (pageOf addr) = some ⟨frame, false⟩)
include tree mapped

theorem dropPage_released :
    (machine.unmapPage pml4 addr).1 = some frame ∧
      (dropPage pml4 machine addr).frames = machine.frames ∧
      Released machine (dropPage pml4 machine addr) pml4 [pageOf addr] [] := by
  have rewrites := unmapPage_rewrites machine pml4 addr
  have frames := rewrites.frames_eq
  have nodes := rewrites.nodeAt_eq tree
  unfold dropPage
  cases ran : machine.unmapPage pml4 addr with
  | mk reply next =>
    rw [ran] at frames nodes
    dsimp only at frames nodes
    obtain ⟨called, after⟩ := unmapPage_simulates tree ran
    obtain ⟨rfl, shape⟩ := called.unmap_of_mapped mapped
    refine ⟨rfl, frames, after, nodes, ?_, ?_, ?_⟩
    · intro page member
      cases mem_singleton.mp member
      rw [shape, update_self]
    · intro page outside
      rw [shape, update_of_ne (by simpa using outside)]
    · intro i
      simp only [frames, not_mem_nil, false_and, exists_false, or_false]

theorem releasePage_released (held : Held machine pml4 frame) :
    Released machine (releasePage pml4 machine addr) pml4 [pageOf addr] [frame] := by
  obtain ⟨reply, frames, dropped⟩ := dropPage_released tree mapped
  have shape : releasePage pml4 machine addr = { dropPage pml4 machine addr with
      frames := (dropPage pml4 machine addr).frames.freeFrame frame } := by
    unfold releasePage dropPage
    rw [← Prod.eta (machine.unmapPage pml4 addr), reply]
  have free (i : Nat) : ((dropPage pml4 machine addr).frames.freeFrame frame).isFree i = true ↔
      machine.frames.isFree i = true ∨ frame / pageSize = i := by
    rw [frames, isFree_freeFrame, isFree_markFree]
    simp only [Bool.or_eq_true, Bool.and_eq_true, decide_eq_true_eq, held.tracked, and_true]
    exact or_congr_right eq_comm
  rw [shape]
  refine ⟨⟨dropped.tree.unique, dropped.tree.aligned, ?_⟩, dropped.nodes, dropped.gone,
    dropped.elsewhere, fun i => by simp [free]⟩
  intro p table led available
  rcases (free _).mp available with old | same
  · rw [← frames] at old
    exact dropped.tree.taken led old
  · have aligned := table_aligned dropped.tree.aligned led
    rw [dropped.nodes] at led
    exact held.apart p (eq_of_div_eq held.aligned aligned same ▸ led)

end

/-- The pages of the entries: addresses with the frames they are mapped to. -/
def entryPages (entries : List (Nat × Nat)) : List Page := entries.map fun entry => pageOf entry.1

section

variable (entries : List (Nat × Nat)) (tree : WellFormed machine pml4)
  (mapped : ∀ entry ∈ entries,
    mappings machine.memory pml4 (pageOf entry.1) = some ⟨entry.2, false⟩)
  (distinct : (entryPages entries).Nodup)
include tree mapped distinct

theorem foldl_dropPage_released :
    Released machine ((entries.map Prod.fst).foldl (dropPage pml4) machine) pml4
      (entryPages entries) [] := by
  induction entries generalizing machine with
  | nil => exact Released.refl tree
  | cons entry rest ih =>
    obtain ⟨fresh, distinct⟩ := nodup_cons.mp distinct
    obtain ⟨here, later⟩ := forall_mem_cons.mp mapped
    have first := (dropPage_released tree here).2.2
    refine first.trans (ih first.tree (fun other member => ?_) distinct)
    rw [first.elsewhere _ ?_, later other member]
    rw [mem_singleton]
    exact fun same => fresh (List.mem_map.mpr ⟨other, member, same⟩)

theorem foldl_releasePage_released (held : ∀ entry ∈ entries, Held machine pml4 entry.2)
    (unshared : (entries.map Prod.snd).Nodup) :
    Released machine ((entries.map Prod.fst).foldl (releasePage pml4) machine) pml4
      (entryPages entries) (entries.map Prod.snd) := by
  induction entries generalizing machine with
  | nil => exact Released.refl tree
  | cons entry rest ih =>
    obtain ⟨fresh, distinct⟩ := nodup_cons.mp distinct
    obtain ⟨own, unshared⟩ := nodup_cons.mp unshared
    obtain ⟨here, later⟩ := forall_mem_cons.mp mapped
    obtain ⟨heldHere, heldLater⟩ := forall_mem_cons.mp held
    have first := releasePage_released tree here heldHere
    refine first.trans (ih first.tree (fun other member => ?_) distinct
      (fun other member => first.held (heldLater other member) ?_ ?_) unshared)
    · rw [first.elsewhere _ ?_, later other member]
      rw [mem_singleton]
      exact fun same => fresh (List.mem_map.mpr ⟨other, member, same⟩)
    · intro frame only
      rw [mem_singleton.mp only]
      exact heldHere.aligned
    · rw [mem_singleton]
      exact fun same => own (List.mem_map.mpr ⟨other, member, same⟩)

end

/-! ## Mapping pages -/

/--
What a mapping loop has done so far.  The entries are mapped and were not mapped
before; the frames `mine` were taken for them; every other frame that is free no
longer has become a table.
-/
structure Filled (before machine : PageMachine) (pml4 : Nat) (entries : List (Nat × Nat))
    (mine : List Nat) : Prop where
  tree : WellFormed machine pml4
  fresh : ∀ ⦃p table⦄, pageTrie.nodeAt machine.memory 0 pml4 p = some table →
    pageTrie.nodeAt before.memory 0 pml4 p = some table ∨
      before.frames.isFree (table / pageSize) = true
  mapped : ∀ entry ∈ entries,
    mappings machine.memory pml4 (pageOf entry.1) = some ⟨entry.2, false⟩
  elsewhere : ∀ page, page ∉ entryPages entries →
    mappings machine.memory pml4 page = mappings before.memory pml4 page
  absent : ∀ page ∈ entryPages entries, mappings before.memory pml4 page = none
  distinct : (entryPages entries).Nodup
  kept : ∀ i, machine.frames.isFree i = true → before.frames.isFree i = true
  taken : ∀ i, before.frames.isFree i = true → machine.frames.isFree i = true ∨
    (∃ p, pageTrie.nodeAt machine.memory 0 pml4 p = some (i * pageSize)) ∨ i * pageSize ∈ mine
  held : ∀ frame ∈ mine, Held machine pml4 frame ∧
    before.frames.isFree (frame / pageSize) = true
  unshared : mine.Nodup

namespace Filled

variable {entries : List (Nat × Nat)} {mine : List Nat} {addr phys : Nat} {flags : PageFlags}

theorem start (tree : WellFormed machine pml4) : Filled machine machine pml4 [] [] where
  tree := tree
  fresh _ _ led := .inl led
  mapped := nofun
  elsewhere _ _ := rfl
  absent := nofun
  distinct := nodup_nil
  kept _ free := free
  taken _ free := .inl free
  held := nofun
  unshared := nodup_nil

variable (filled : Filled before machine pml4 entries mine)
include filled

/-- A frame is taken from the allocator. -/
theorem take (free : machine.frames.isFree i = true) :
    Filled before { machine with frames := (machine.frames.takeFrame i).2 } pml4 entries
      (i * pageSize :: mine) := by
  have number : i * pageSize / pageSize = i := Nat.mul_div_cancel _ (by decide)
  have still (j : Nat) : (machine.frames.takeFrame i).2.isFree j = true ↔
      machine.frames.isFree j = true ∧ j ≠ i := by
    rw [isFree_takeFrame]
    simp
  refine ⟨filled.tree.mono fun _ available => ((still _).mp available).1, filled.fresh,
    filled.mapped, filled.elsewhere, filled.absent, filled.distinct, ?_, ?_, ?_, ?_⟩
  · intro j available
    exact filled.kept j ((still j).mp available).1
  · intro j available
    rcases filled.taken j available with old | table | own
    · by_cases same : j = i
      · exact .inr (.inr (same ▸ (.head _)))
      · exact .inl ((still j).mpr ⟨old, same⟩)
    · exact .inr (.inl table)
    · exact .inr (.inr (List.mem_cons_of_mem _ own))
  · refine List.forall_mem_cons.mpr ⟨⟨⟨Nat.dvd_mul_left _ _, ?_, ?_, ?_⟩, ?_⟩, ?_⟩
    · rw [number]
      exact isFree_lt free
    · rw [number, ← Bool.not_eq_true, still]
      simp
    · intro p led
      apply filled.tree.taken led
      rw [number]
      exact free
    · rw [number]
      exact filled.kept i free
    · intro frame member
      obtain ⟨held, origin⟩ := filled.held frame member
      refine ⟨⟨held.aligned, held.tracked, ?_, held.apart⟩, origin⟩
      rw [← Bool.not_eq_true, still, held.busy]
      simp
  · refine List.nodup_cons.mpr ⟨fun member => ?_, filled.unshared⟩
    have busy := (filled.held _ member).1.busy
    rw [number, free] at busy
    cases busy

/-- What `mapPage` does to the tables and to the free frames, whether it succeeds or not. -/
theorem extend {path : List (Fin 512)} (grown : Extends machine next pml4 path flags)
    {entries' : List (Nat × Nat)}
    (mapped : ∀ entry ∈ entries',
      mappings next.memory pml4 (pageOf entry.1) = some ⟨entry.2, false⟩)
    (elsewhere : ∀ page, page ∉ entryPages entries' →
      mappings next.memory pml4 page = mappings before.memory pml4 page)
    (absent : ∀ page ∈ entryPages entries', mappings before.memory pml4 page = none)
    (distinct : (entryPages entries').Nodup) : Filled before next pml4 entries' mine := by
  refine ⟨grown.tree, ?_, mapped, elsewhere, absent, distinct, ?_, ?_, ?_, filled.unshared⟩
  · intro p table led
    rcases grown.fresh led with old | ⟨_, _, free⟩
    · exact filled.fresh old
    · exact .inr (filled.kept _ free)
  · intro i free
    exact filled.kept i (grown.kept i free)
  · intro i free
    rcases filled.taken i free with old | ⟨p, led⟩ | own
    · rcases grown.taken i old with still | table
      · exact .inl still
      · exact .inr (.inl table)
    · exact .inr (.inl ⟨p, grown.nodes led⟩)
    · exact .inr (.inr own)
  · intro frame member
    obtain ⟨held, origin⟩ := filled.held frame member
    refine ⟨⟨held.aligned, held.tracked, ?_, ?_⟩, origin⟩
    · cases free : next.frames.isFree (frame / pageSize) with
      | false => rfl
      | true => rw [← held.busy, grown.kept _ free]
    · intro p led
      rcases grown.fresh led with old | ⟨_, _, free⟩
      · exact held.apart p old
      · rw [held.busy] at free
        cases free

/-- A page was mapped. -/
theorem map (aligned : pageSize ∣ phys) (bounded : phys < 2 ^ 52)
    (ran : machine.mapPage pml4 addr phys flags = (true, next)) :
    Filled before next pml4 (entries ++ [(addr, phys)]) mine := by
  obtain ⟨called, _⟩ := mapPage_simulates flags filled.tree aligned bounded ran
  have shape := called.mapped_inv
  have vacant := called.mapped_absent
  have outside : pageOf addr ∉ entryPages entries := by
    intro member
    obtain ⟨entry, inside, same⟩ := List.mem_map.mp member
    have there := filled.mapped entry inside
    rw [same, vacant] at there
    cases there
  have pages : entryPages (entries ++ [(addr, phys)]) = entryPages entries ++ [pageOf addr] :=
    map_append
  refine filled.extend (mapPage_extends filled.tree ran) ?_ ?_ ?_ ?_
  · intro entry member
    rw [shape]
    rcases mem_append.mp member with old | new
    · rw [update_of_ne, filled.mapped entry old]
      exact fun same => outside (List.mem_map.mpr ⟨entry, old, same⟩)
    · cases mem_singleton.mp new
      exact update_self ..
  · intro page away
    rw [pages, mem_append, mem_singleton, not_or] at away
    rw [shape, update_of_ne away.2, filled.elsewhere page away.1]
  · intro page member
    rw [pages] at member
    rcases mem_append.mp member with old | new
    · exact filled.absent page old
    · rw [mem_singleton.mp new, ← filled.elsewhere _ outside]
      exact vacant
  · rw [pages]
    exact nodup_append.mpr ⟨filled.distinct, nodup_singleton _, by
      rintro page old other new rfl
      exact outside (mem_singleton.mp new ▸ old)⟩

theorem refuse (ran : machine.mapPage pml4 addr phys flags = (false, next)) :
    Filled before next pml4 entries mine := by
  rcases mapPage_cases addr filled.tree phys flags with
    ⟨_, _, _, _, _, mapped⟩ | ⟨after, failed, grown, _⟩
  · rw [ran] at mapped
    cases mapped
  rw [ran] at failed
  cases failed
  have same := mappings_congr grown.find_eq
  refine filled.extend grown.toExtends ?_ ?_ filled.absent filled.distinct
  · rw [same]
    exact filled.mapped
  · rw [same]
    exact filled.elsewhere

/-- A frame that was taken and not used is returned. -/
theorem give {rest : List Nat} (own : mine = frame :: rest) :
    Filled before { machine with frames := machine.frames.freeFrame frame } pml4 entries rest := by
  subst own
  obtain ⟨fresh, unshared⟩ := List.nodup_cons.mp filled.unshared
  obtain ⟨⟨held, origin⟩, others⟩ := List.forall_mem_cons.mp filled.held
  have free (i : Nat) : (machine.frames.freeFrame frame).isFree i = true ↔
      machine.frames.isFree i = true ∨ i = frame / pageSize := by
    rw [isFree_freeFrame, isFree_markFree]
    simp only [Bool.or_eq_true, Bool.and_eq_true, decide_eq_true_eq, held.tracked, and_true]
  refine ⟨⟨filled.tree.unique, filled.tree.aligned, ?_⟩, filled.fresh, filled.mapped,
    filled.elsewhere, filled.absent, filled.distinct, ?_, ?_, ?_, unshared⟩
  · intro p table led available
    rcases (free _).mp available with old | same
    · exact filled.tree.taken led old
    · have aligned := table_aligned filled.tree.aligned led
      exact held.apart p (eq_of_div_eq aligned held.aligned same ▸ led)
  · intro i available
    rcases (free i).mp available with old | rfl
    · exact filled.kept i old
    · exact origin
  · intro i available
    rcases filled.taken i available with old | table | own
    · exact Or.inl ((free i).mpr (Or.inl old))
    · exact Or.inr (Or.inl table)
    · rcases List.mem_cons.mp own with here | later
      · refine Or.inl ((free i).mpr (Or.inr ?_))
        rw [← here, Nat.mul_div_cancel _ (by decide)]
      · exact Or.inr (Or.inr later)
  · intro other member
    obtain ⟨kept, otherOrigin⟩ := others other member
    refine ⟨⟨kept.aligned, kept.tracked, ?_, kept.apart⟩, otherOrigin⟩
    rw [← Bool.not_eq_true, free, not_or]
    refine ⟨Bool.eq_false_iff.mp kept.busy, fun same => ?_⟩
    exact fresh (eq_of_div_eq kept.aligned held.aligned same ▸ member)

theorem held_before (held : Held before pml4 frame) : Held machine pml4 frame where
  aligned := held.aligned
  tracked := held.tracked
  busy := by
    cases free : machine.frames.isFree (frame / pageSize) with
    | false => rfl
    | true => rw [← held.busy, filled.kept _ free]
  apart p led := by
    rcases filled.fresh led with old | free
    · exact held.apart p old
    · rw [held.busy] at free
      cases free

/-- Unmapping everything and returning all frames undoes the loop. -/
theorem undo
    (released : Released machine next pml4 (entryPages entries) frames) (all : frames.Perm mine) :
    Filled before next pml4 [] [] where
  tree := released.tree
  fresh p table led := filled.fresh ((released.nodes p).symm.trans led)
  mapped := nofun
  elsewhere page _ := by
    by_cases member : page ∈ entryPages entries
    · rw [released.gone page member, filled.absent page member]
    · rw [released.elsewhere page member, filled.elsewhere page member]
  absent := nofun
  distinct := List.nodup_nil
  kept i free := by
    rcases (released.free i).mp free with old | ⟨frame, member, rfl⟩
    · exact filled.kept i old
    · exact (filled.held frame (all.mem_iff.mp member)).2
  taken i free := by
    simp only [released.nodes, released.free]
    rcases filled.taken i free with old | table | own
    · exact .inl (.inl old)
    · exact .inr (.inl table)
    · refine .inl (.inr ⟨_, all.mem_iff.mpr own, Nat.mul_div_cancel _ (by decide)⟩)
  held := nofun
  unshared := List.nodup_nil

end Filled

variable {entries : List (Nat × Nat)}

section

variable (filled : Filled before machine pml4 entries mine)
  (owned : mine.Perm (entries.map Prod.snd))
include filled owned

/-- Rolling back the pages that were backed with frames. -/
theorem Filled.rollback :
    Filled before ((entries.map Prod.fst).foldl (releasePage pml4) machine) pml4 [] [] := by
  refine filled.undo (foldl_releasePage_released entries filled.tree filled.mapped filled.distinct
    (fun entry member => ?_) (owned.nodup_iff.mp filled.unshared)) owned.symm
  exact (filled.held _ (owned.mem_iff.mpr (List.mem_map_of_mem member))).1

theorem Filled.backed {flags : PageFlags} (free : machine.frames.isFree i = true)
    (mapped : PageMachine.mapPage { machine with frames := (machine.frames.takeFrame i).2 }
      pml4 addr (i * pageSize) flags = (true, next)) :
    Filled before next pml4 (entries ++ [(addr, i * pageSize)]) (i * pageSize :: mine) ∧
      (i * pageSize :: mine).Perm ((entries ++ [(addr, i * pageSize)]).map Prod.snd) ∧
      (entries ++ [(addr, i * pageSize)]).map Prod.fst = entries.map Prod.fst ++ [addr] := by
  have bounded : i * pageSize < 2 ^ 52 := by
    have low := isFree_lt free
    unfold maxFrames pageSize at *
    omega
  refine ⟨(filled.take free).map (dvd_mul_left _ _) bounded mapped, ?_, map_append⟩
  rw [map_append]
  exact (owned.cons _).trans (perm_append_singleton _ _).symm

end

/-- The loop of `allocAndMap` maps all pages, or it leaves nothing behind but tables. -/
theorem mapFresh_filled (todo : List Nat) (flags : PageFlags)
    (filled : Filled before machine pml4 entries mine) (owned : mine.Perm (entries.map Prod.snd))
    (ran : mapFresh pml4 flags (entries.map Prod.fst) todo machine = (ok, next)) :
    if ok then ∃ entries' mine', Filled before next pml4 entries' mine' ∧
      mine'.Perm (entries'.map Prod.snd) ∧ entries'.map Prod.fst = entries.map Prod.fst ++ todo
    else Filled before next pml4 [] [] := by
  induction todo generalizing machine entries mine with
  | nil =>
    cases ran
    exact ⟨entries, mine, filled, owned, (append_nil _).symm⟩
  | cons addr rest ih =>
    unfold mapFresh at ran
    rcases machine.frames.allocateFrame_cases with ⟨i, free, taken⟩ | ⟨refused, _⟩
    · simp only [taken, takeFrame] at ran
      split at ran
      next after failed =>
        cases ran
        exact (((filled.take free).refuse failed).give rfl).rollback owned
      next after mapped =>
        obtain ⟨more, mineNow, shape⟩ := filled.backed owned free mapped
        rw [← shape] at ran
        have result := ih more mineNow ran
        rw [shape, append_assoc] at result
        exact result
    · simp only [refused] at ran
      cases ran
      exact filled.rollback owned

theorem set_mask (phys : Nat) (flags : PageFlags) :
    set (phys &&& addrMask) flags = set phys flags := by
  unfold PageTableEntry.set
  rw [Nat.and_assoc, Nat.and_self]

theorem mapPage_mask (machine : PageMachine) (pml4 addr phys : Nat) (flags : PageFlags) :
    machine.mapPage pml4 addr (phys &&& addrMask) flags = machine.mapPage pml4 addr phys flags := by
  unfold mapPage
  simp only [set_mask]

/-- The loop of `mapMmio` maps all pages, or it leaves nothing behind but tables. -/
theorem mapDevice_filled (todo : List (Nat × Nat)) (flags : PageFlags)
    (filled : Filled before machine pml4 entries [])
    (ran : mapDevice pml4 flags (entries.map Prod.fst) todo machine = (ok, next)) :
    if ok then
      Filled before next pml4 (entries ++ todo.map fun page => (page.1, address page.2)) []
    else Filled before next pml4 [] [] := by
  induction todo generalizing machine entries with
  | nil =>
    cases ran
    rw [map_nil, append_nil]
    exact filled
  | cons page rest ih =>
    obtain ⟨addr, phys⟩ := page
    unfold mapDevice at ran
    rw [← mapPage_mask] at ran
    split at ran
    next after failed =>
      cases ran
      have kept := filled.refuse failed
      exact kept.undo (foldl_dropPage_released entries kept.tree kept.mapped kept.distinct)
        (List.Perm.refl [])
    next after mapped =>
      have more := filled.map (pageSize_dvd_address phys) (address_lt phys) mapped
      have shape : (entries ++ [(addr, address phys)]).map Prod.fst =
          entries.map Prod.fst ++ [addr] := map_append
      rw [← shape] at ran
      have result := ih more ran
      rw [append_assoc] at result
      exact result

end PageMachine

end CantayaOS.Memory
