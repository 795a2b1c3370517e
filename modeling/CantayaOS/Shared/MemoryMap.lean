import CantayaOS.Shared.BootInfo

/-!
# Editing the memory map

The bootloader fills the region table, retags the ranges that it occupied
itself, sorts the table and merges neighbours of one kind.  The table has a
fixed number of slots, and a region that finds no slot is dropped.  All that
the kernel relies on is which bytes the usable regions hold, so each operation
is described by what it does to them.
-/

namespace CantayaOS.Shared

open List UInt64

namespace MemoryRegion

/-- The first address behind the region; the addition wraps. -/
def stop (region : MemoryRegion) : UInt64 := region.base + region.size

def Holds (region : MemoryRegion) (x : Nat) : Prop :=
  region.base.toNat ≤ x ∧ x < region.stop.toNat

/-- What becomes of one region when a range is retagged: up to three pieces. -/
def pieces (region : MemoryRegion) (rangeBase rangeEnd : UInt64) (newKind : MemoryRegionKind) :
    List MemoryRegion :=
  if region.base ≥ rangeEnd ∨ region.stop ≤ rangeBase then
    [region]
  else
    let ovlStart := if region.base > rangeBase then region.base else rangeBase
    let ovlEnd := if region.stop < rangeEnd then region.stop else rangeEnd
    (if region.base < rangeBase then [⟨region.base, rangeBase - region.base, region.kind⟩] else []) ++
      [⟨ovlStart, ovlEnd - ovlStart, newKind⟩] ++
      (if region.stop > rangeEnd then [⟨rangeEnd, region.stop - rangeEnd, region.kind⟩] else [])

end MemoryRegion

variable {regions : List MemoryRegion} {region : MemoryRegion} {rangeBase : UInt64}
  {newKind : MemoryRegionKind}

variable {candidate write : MemoryRegion} {rangeSize : UInt64}

namespace MemoryMap

def empty : MemoryMap := ⟨[], Nat.zero_le _⟩

def push (regions : List MemoryRegion) (region : MemoryRegion) : List MemoryRegion :=
  if regions.length < maxMemoryRegions then regions ++ [region] else regions

theorem length_push (fits : regions.length ≤ maxMemoryRegions)
    (region : MemoryRegion) : (push regions region).length ≤ maxMemoryRegions := by
  unfold push
  split
  next room =>
    rw [length_append]
    exact room
  next => exact fits

theorem mem_push
    (member : candidate ∈ push regions region) : candidate ∈ regions ∨ candidate = region := by
  unfold push at member
  split at member
  next => simpa using member
  next => exact .inl member

/-- Add a memory region to the map; the flag is false if the map is full. -/
def addRegion (map : MemoryMap) (region : MemoryRegion) : Bool × MemoryMap :=
  (decide (map.regions.length < maxMemoryRegions),
    ⟨push map.regions region, length_push map.fits region⟩)

/--
The inner loop of the insertion sort.  The prefix that is already sorted is
kept with its last region in front, as the loop walks it from the end.
-/
def shiftIn (key : MemoryRegion) : List MemoryRegion → List MemoryRegion
  | [] => [key]
  | region :: rest =>
    if region.base > key.base then region :: shiftIn key rest else key :: region :: rest

def sorted (regions : List MemoryRegion) : List MemoryRegion :=
  (regions.foldl (fun sorted key => shiftIn key sorted) []).reverse

theorem shiftIn_eq_orderedInsert (key : MemoryRegion) (regions : List MemoryRegion) :
    shiftIn key regions = regions.orderedInsert (·.base ≥ ·.base) key := by
  induction regions with
  | nil => rfl
  | cons region rest ih =>
    rw [shiftIn, ih, orderedInsert_cons]
    by_cases above : region.base > key.base
    · rw [if_pos above, if_neg (UInt64.not_le.mpr above)]
    · rw [if_neg above, if_pos (UInt64.not_lt.mp above)]

theorem sorted_eq_insertionSort (regions : List MemoryRegion) :
    sorted regions = (regions.reverse.insertionSort (·.base ≥ ·.base)).reverse := by
  rw [sorted, List.insertionSort, foldr_reverse]
  simp only [shiftIn_eq_orderedInsert]

theorem sorted_perm (regions : List MemoryRegion) : (sorted regions).Perm regions := by
  rw [sorted_eq_insertionSort]
  exact (reverse_perm _).trans ((perm_insertionSort ..).trans (reverse_perm _))

def sortRegions (map : MemoryMap) : MemoryMap :=
  ⟨sorted map.regions, (sorted_perm map.regions).length_eq ▸ map.fits⟩

/-- The merging loop with the region at the write position held apart.  Sums wrap, as in the
release profile. -/
def mergeLoop (write : MemoryRegion) : List MemoryRegion → List MemoryRegion
  | [] => [write]
  | read :: rest =>
    if write.kind = read.kind ∧ write.stop = read.base then
      mergeLoop { write with size := write.size + read.size } rest
    else
      write :: mergeLoop read rest

def merged : List MemoryRegion → List MemoryRegion
  | [] => []
  | first :: rest => mergeLoop first rest

theorem length_mergeLoop (write : MemoryRegion) (regions : List MemoryRegion) :
    (mergeLoop write regions).length ≤ regions.length + 1 := by
  induction regions generalizing write with
  | nil => exact le_rfl
  | cons read rest ih =>
    unfold mergeLoop
    split
    next => exact Nat.le_succ_of_le (ih _)
    next => exact Nat.succ_le_succ (ih _)

theorem length_merged (regions : List MemoryRegion) : (merged regions).length ≤ regions.length := by
  cases regions with
  | nil => exact le_rfl
  | cons first rest => exact length_mergeLoop first rest

def mergeAdjacent (map : MemoryMap) : MemoryMap :=
  ⟨merged map.regions, le_trans (length_merged map.regions) map.fits⟩

theorem length_foldl_push (fits : regions.length ≤ maxMemoryRegions)
    (more : List MemoryRegion) : (more.foldl push regions).length ≤ maxMemoryRegions := by
  induction more generalizing regions with
  | nil => exact fits
  | cons region rest ih => exact ih (length_push fits region)

theorem mem_foldl_push {more : List MemoryRegion}
    (member : candidate ∈ more.foldl push regions) : candidate ∈ regions ∨ candidate ∈ more := by
  induction more generalizing regions with
  | nil => exact .inl member
  | cons region rest ih =>
    rcases ih member with before | later
    · rcases mem_push before with old | rfl
      · exact .inl old
      · exact .inr (.head _)
    · exact .inr (mem_cons_of_mem _ later)

/-- Re-tag all pages of the range with the new kind, splitting the regions that it cuts. -/
def retagRange (map : MemoryMap) (rangeBase rangeSize : UInt64) (newKind : MemoryRegionKind) :
    MemoryMap :=
  if rangeSize = 0 then
    map
  else
    ⟨(map.regions.flatMap (·.pieces rangeBase (rangeBase + rangeSize) newKind)).foldl push [],
      length_foldl_push (Nat.zero_le _) _⟩

/-! ## The bytes of the usable regions -/

/-- A usable region starts at a page boundary and holds only bytes that satisfy `good`. -/
def UsableRegion (good : Nat → Prop) (region : MemoryRegion) : Prop :=
  region.kind = .usable → 4096 ∣ region.base.toNat ∧ ∀ x, region.Holds x → good x

/-- Every usable region of the map starts at a page boundary and holds only good bytes. -/
def UsableWithin (good : Nat → Prop) (map : MemoryMap) : Prop :=
  ∀ region ∈ map.regions, UsableRegion good region

section

variable {good : Nat → Prop} {map : MemoryMap}

theorem empty_usableWithin : UsableWithin good empty := nofun

theorem UsableWithin.addRegion (within : UsableWithin good map)
    (fine : UsableRegion good region) : UsableWithin good (map.addRegion region).2 := by
  intro candidate member
  rcases mem_push member with old | rfl
  · exact within candidate old
  · exact fine

theorem UsableWithin.sortRegions (within : UsableWithin good map) :
    UsableWithin good map.sortRegions :=
  fun region member => within region ((sorted_perm map.regions).mem_iff.mp member)

/-- The wrapping sizes add up so that the merged region ends where the second one ended. -/
theorem usableRegion_merge {read : MemoryRegion} (first : UsableRegion good write)
    (second : UsableRegion good read) (sameKind : write.kind = read.kind)
    (touch : write.stop = read.base) :
    UsableRegion good { write with size := write.size + read.size } := by
  intro usable
  obtain ⟨aligned, firstGood⟩ := first usable
  obtain ⟨_, secondGood⟩ := second (sameKind ▸ usable)
  refine ⟨aligned, fun x inside => ?_⟩
  have stop : ({ write with size := write.size + read.size } : MemoryRegion).stop = read.stop := by
    unfold MemoryRegion.stop at touch ⊢
    rw [← touch, add_assoc]
  obtain ⟨low, high⟩ := inside
  rw [stop] at high
  by_cases early : x < write.stop.toNat
  · exact firstGood x ⟨low, early⟩
  · exact secondGood x ⟨touch ▸ Nat.le_of_not_lt early, high⟩

theorem mergeLoop_usable
    (first : UsableRegion good write) (others : ∀ region ∈ regions, UsableRegion good region) :
    ∀ region ∈ mergeLoop write regions, UsableRegion good region := by
  induction regions generalizing write with
  | nil => exact forall_mem_singleton.mpr first
  | cons read rest ih =>
    obtain ⟨second, later⟩ := forall_mem_cons.mp others
    unfold mergeLoop
    split
    next same => exact ih (usableRegion_merge first second same.1 same.2) later
    next => exact forall_mem_cons.mpr ⟨first, ih second later⟩

theorem merged_usable (all : ∀ region ∈ regions, UsableRegion good region) :
    ∀ region ∈ merged regions, UsableRegion good region := by
  cases regions with
  | nil => exact all
  | cons first rest =>
    obtain ⟨head, tail⟩ := forall_mem_cons.mp all
    exact mergeLoop_usable head tail

theorem UsableWithin.mergeAdjacent (within : UsableWithin good map) :
    UsableWithin good map.mergeAdjacent :=
  merged_usable within

/--
The pieces of a region keep its good bytes outside the range.  Only the piece
behind the range starts at a new address, the end of the range.
-/
theorem usableRegion_piece {piece : MemoryRegion} {rangeEnd : UInt64}
    (fine : UsableRegion good region) (other : newKind ≠ .usable)
    (boundary : region.kind = .usable → region.base < rangeEnd → rangeBase < region.stop →
      rangeEnd < region.stop → 4096 ∣ rangeEnd.toNat)
    (member : piece ∈ region.pieces rangeBase rangeEnd newKind) :
    UsableRegion (fun x => good x ∧ ¬ (rangeBase.toNat ≤ x ∧ x < rangeEnd.toNat)) piece := by
  intro usable
  unfold MemoryRegion.pieces at member
  split at member
  next clear =>
    cases mem_singleton.mp member
    obtain ⟨aligned, regionGood⟩ := fine usable
    refine ⟨aligned, fun x inside => ⟨regionGood x inside, ?_⟩⟩
    unfold MemoryRegion.Holds at inside
    rw [ge_iff_le, le_iff_toNat_le, le_iff_toNat_le] at clear
    omega
  next overlap =>
    obtain ⟨starts, reaches⟩ := not_or.mp overlap
    rw [UInt64.not_le] at starts
    rw [UInt64.not_le] at reaches
    simp only [mem_append, mem_singleton] at member
    rcases member with (before | rfl) | behind
    · split at before
      next cut =>
        cases mem_singleton.mp before
        obtain ⟨aligned, regionGood⟩ := fine usable
        refine ⟨aligned, fun x inside => ?_⟩
        have stop : region.base + (rangeBase - region.base) = rangeBase := by grind
        simp only [MemoryRegion.Holds, MemoryRegion.stop, stop] at inside
        have bound := lt_iff_toNat_lt.mp reaches
        exact ⟨regionGood x ⟨inside.1, inside.2.trans bound⟩, by omega⟩
      next => cases before
    · exact absurd usable other
    · split at behind
      next cut =>
        cases mem_singleton.mp behind
        obtain ⟨_, regionGood⟩ := fine usable
        refine ⟨boundary usable starts reaches cut, fun x inside => ?_⟩
        have stop : rangeEnd + (region.stop - rangeEnd) = region.stop := by grind
        simp only [MemoryRegion.Holds] at inside
        rw [MemoryRegion.stop, stop] at inside
        have bound := lt_iff_toNat_lt.mp starts
        exact ⟨regionGood x ⟨le_trans bound.le inside.1, inside.2⟩, by omega⟩
      next => cases behind

theorem UsableWithin.mono {better : Nat → Prop} (within : UsableWithin good map)
    (weaker : ∀ x, good x → better x) : UsableWithin better map := by
  intro region member usable
  obtain ⟨aligned, regionGood⟩ := within region member usable
  exact ⟨aligned, fun x inside => weaker x (regionGood x inside)⟩

def InRange (rangeBase rangeSize : UInt64) (x : Nat) : Prop :=
  rangeBase.toNat ≤ x ∧ x < rangeBase.toNat + rangeSize.toNat

/-- Retagging a range that ends at a page boundary takes its bytes out of the usable regions. -/
theorem UsableWithin.retagRange (within : UsableWithin good map) (other : newKind ≠ .usable)
    (bounded : rangeBase.toNat + rangeSize.toNat < 2 ^ 64)
    (aligned : 4096 ∣ rangeBase.toNat + rangeSize.toNat) :
    UsableWithin (fun x => good x ∧ ¬ InRange rangeBase rangeSize x)
      (map.retagRange rangeBase rangeSize newKind) := by
  have stop : (rangeBase + rangeSize).toNat = rangeBase.toNat + rangeSize.toNat := by
    rw [UInt64.toNat_add, Nat.mod_eq_of_lt bounded]
  unfold MemoryMap.retagRange
  split
  next empty =>
    refine within.mono fun x fine => ⟨fine, ?_⟩
    simp only [InRange, empty, UInt64.toNat_zero]
    omega
  next =>
    intro piece member
    obtain ⟨region, inMap, cut⟩ :=
      mem_flatMap.mp ((mem_foldl_push member).resolve_left not_mem_nil)
    have fine := usableRegion_piece (within region inMap) other
      (fun _ _ _ _ => stop ▸ aligned) cut
    rwa [stop] at fine

/-- Retagging a range without good bytes cuts no usable region. -/
theorem UsableWithin.retagRange_elsewhere (within : UsableWithin good map)
    (other : newKind ≠ .usable) (elsewhere : ∀ x, InRange rangeBase rangeSize x → ¬ good x) :
    UsableWithin good (map.retagRange rangeBase rangeSize newKind) := by
  unfold MemoryMap.retagRange
  split
  next => exact within
  next positive =>
    intro piece member
    obtain ⟨region, inMap, cut⟩ :=
      mem_flatMap.mp ((mem_foldl_push member).resolve_left not_mem_nil)
    have fine := usableRegion_piece (within region inMap) other ?_ cut
    · intro usable
      obtain ⟨aligned, pieceGood⟩ := fine usable
      exact ⟨aligned, fun x inside => (pieceGood x inside).1⟩
    · intro usable starts reaches ends
      obtain ⟨_, regionGood⟩ := within region inMap usable
      have nonzero : 0 < rangeSize.toNat := pos_of_ne_zero fun zero =>
        positive (UInt64.toNat_inj.mp zero)
      have sum := UInt64.toNat_add rangeBase rangeSize
      rw [UInt64.lt_iff_toNat_lt] at starts reaches ends
      -- The larger of the two starting points is a byte of both the range and the region.
      exfalso
      by_cases early : region.base.toNat ≤ rangeBase.toNat
      · refine elsewhere rangeBase.toNat ?_ (regionGood _ ⟨early, reaches⟩)
        unfold InRange
        omega
      · refine elsewhere region.base.toNat ?_ (regionGood _ ⟨le_rfl, by omega⟩)
        unfold InRange
        omega

end

end MemoryMap

end CantayaOS.Shared
