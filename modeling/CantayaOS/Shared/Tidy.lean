import CantayaOS.Shared.MemoryMap

/-!
# Sorting and merging

Before the kernel receives the map, its regions are sorted by their base and
neighbours of one kind are merged.  The merging only ever wraps a size, which
happens if one kind holds 2^64 bytes in a row.
-/

namespace CantayaOS.Shared

open List

variable {read : MemoryRegion}

namespace MemoryMap

variable {write region : MemoryRegion} {regions : List MemoryRegion} {kind : MemoryRegionKind} {x : Nat}

/-- The regions say that the address has the kind. -/
def KindAt (regions : List MemoryRegion) (kind : MemoryRegionKind) (x : Nat) : Prop :=
  ∃ region ∈ regions, region.kind = kind ∧ region.Covers x

theorem kindAt_cons :
    KindAt (region :: regions) kind x ↔ region.kind = kind ∧ region.Covers x ∨ KindAt regions kind x :=
  exists_mem_cons_iff ..

def totalUsableMemory (regions : List MemoryRegion) : UInt64 :=
  ((regions.filter (·.kind = .usable)).map (·.size)).sum

/-- The first region starts and ends before the second one starts. -/
def Before (first second : MemoryRegion) : Prop :=
  first.base < second.base ∧ first.base.toNat + first.size.toNat ≤ second.base.toNat

/-- The second region goes on with the kind of the first one where that one ends. -/
def Continues (first second : MemoryRegion) : Prop :=
  first.kind = second.kind ∧ first.base.toNat + first.size.toNat = second.base.toNat

def Parted (first second : MemoryRegion) : Prop := Before first second ∧ ¬ Continues first second

/-- The map says the same as the other one, in ascending order and with nothing left to merge. -/
structure Tidies (tidy map : MemoryMap) : Prop where
  kinds : ∀ kind x, KindAt tidy.regions kind x ↔ KindAt map.regions kind x
  total : totalUsableMemory tidy.regions = totalUsableMemory map.regions
  ascending : tidy.regions.Pairwise (·.base < ·.base)
  merged : tidy.regions.Pairwise fun first second => ¬ Continues first second

theorem sorted_ascending (regions : List MemoryRegion) :
    (sorted regions).Pairwise (·.base ≤ ·.base) := by
  rw [sorted_eq_insertionSort, pairwise_reverse]
  exact pairwise_insertionSort ..

theorem sorted_before (apart : Apart regions)
    (filled : ∀ region ∈ regions, 0 < region.size.toNat) : (sorted regions).Pairwise Before := by
  have order := sorted_perm regions
  have parted : Apart (sorted regions) :=
    order.symm.pairwise apart fun disjoint x both => disjoint x both.symm
  refine (parted.and (sorted_ascending regions)).imp_of_mem ?_
  rintro first second inFirst inSecond ⟨disjoint, starts⟩
  have firstFilled := filled first (order.mem_iff.mp inFirst)
  have secondFilled := filled second (order.mem_iff.mp inSecond)
  have away := disjoint second.base.toNat
  rw [UInt64.le_iff_toNat_le] at starts
  rw [Before, UInt64.lt_iff_toNat_lt]
  unfold MemoryRegion.Covers at away
  omega

theorem mem_mergeLoop (member : region ∈ mergeLoop write regions) :
    ∃ origin ∈ write :: regions, origin.kind = region.kind ∧ origin.base = region.base := by
  induction regions generalizing write with
  | nil =>
    cases mem_singleton.mp member
    exact ⟨_, (.head _), rfl, rfl⟩
  | cons read rest ih =>
    unfold mergeLoop at member
    split at member
    · obtain ⟨origin, among, same⟩ := ih member
      rcases mem_cons.mp among with rfl | later
      · exact ⟨write, (.head _), same⟩
      · exact ⟨origin, mem_cons_of_mem _ (mem_cons_of_mem _ later), same⟩
    · rcases mem_cons.mp member with rfl | later
      · exact ⟨region, (.head _), rfl, rfl⟩
      · obtain ⟨origin, among, same⟩ := ih later
        exact ⟨origin, mem_cons_of_mem _ among, same⟩

/-- A region that ends before the next one starts touches it exactly if its end is that start. -/
theorem stop_eq_iff (before : Before write read) :
    write.stop = read.base ↔ write.base.toNat + write.size.toNat = read.base.toNat := by
  have small := read.base.toNat_lt
  have ends := before.2
  rw [← UInt64.toNat_inj, MemoryRegion.stop, UInt64.toNat_add, Nat.mod_eq_of_lt (by omega)]

theorem pairwise_merged (order : (write :: read :: regions).Pairwise Before) :
    ({ write with size := write.size + read.size } :: regions).Pairwise Before := by
  obtain ⟨ahead, rest⟩ := pairwise_cons.mp order
  obtain ⟨next, later⟩ := pairwise_cons.mp rest
  have first := ahead read (.head _)
  refine pairwise_cons.mpr ⟨fun other member => ?_, later⟩
  have second := next other member
  refine ⟨UInt64.lt_trans first.1 second.1, ?_⟩
  have starts := first.2
  have ends := second.2
  change write.base.toNat + (write.size + read.size).toNat ≤ _
  rw [UInt64.toNat_add]
  omega

theorem mergeLoop_parted (order : (write :: regions).Pairwise Before) :
    (mergeLoop write regions).Pairwise Parted := by
  induction regions generalizing write with
  | nil => exact pairwise_singleton ..
  | cons read rest ih =>
    obtain ⟨ahead, rest'⟩ := pairwise_cons.mp order
    have next := (pairwise_cons.mp rest').1
    have start := ahead read (.head _)
    unfold mergeLoop
    split
    next => exact ih (pairwise_merged order)
    next refused =>
      refine pairwise_cons.mpr ⟨fun out member => ?_, ih rest'⟩
      obtain ⟨origin, among, sameKind, sameBase⟩ := mem_mergeLoop member
      have before := ahead origin among
      rw [Before, sameBase] at before
      refine ⟨before, ?_⟩
      rintro ⟨kinds, touch⟩
      rcases mem_cons.mp among with rfl | far
      · rw [← sameBase] at touch
        exact refused ⟨kinds.trans sameKind.symm, (stop_eq_iff start).mpr touch⟩
      · have beyond := UInt64.lt_iff_toNat_lt.mp (next origin far).1
        rw [sameBase] at beyond
        have ends := start.2
        omega

/-- No kind holds 2^64 bytes in a row. -/
def Interrupted (regions : List MemoryRegion) : Prop :=
  ∀ kind start, ∃ x, start ≤ x ∧ x < start + 2 ^ 64 ∧ ¬ KindAt regions kind x

theorem Interrupted.mono {fewer : List MemoryRegion} (interrupted : Interrupted regions)
    (less : ∀ kind x, KindAt fewer kind x → KindAt regions kind x) : Interrupted fewer := by
  intro kind start
  obtain ⟨x, low, high, missed⟩ := interrupted kind start
  exact ⟨x, low, high, fun has => missed (less kind x has)⟩

theorem kindAt_mergeLoop (order : (write :: regions).Pairwise Before)
    (interrupted : Interrupted (write :: regions)) :
    KindAt (mergeLoop write regions) kind x ↔ KindAt (write :: regions) kind x := by
  induction regions generalizing write kind x with
  | nil => exact .rfl
  | cons read rest ih =>
    obtain ⟨ahead, rest'⟩ := pairwise_cons.mp order
    have start := ahead read (.head _)
    unfold mergeLoop
    split
    next merges =>
      obtain ⟨sameKind, touch⟩ := merges
      rw [stop_eq_iff start] at touch
      have fits : write.size.toNat + read.size.toNat < 2 ^ 64 := by
        by_contra large
        obtain ⟨y, low, high, missed⟩ := interrupted write.kind write.base.toNat
        rw [kindAt_cons, kindAt_cons, not_or, not_or] at missed
        have noWrite : ¬ write.Covers y := fun covers => missed.1 ⟨rfl, covers⟩
        have noRead : ¬ read.Covers y := fun covers => missed.2.1 ⟨sameKind.symm, covers⟩
        unfold MemoryRegion.Covers at noWrite noRead
        omega
      have same (kind : MemoryRegionKind) (x : Nat) :
          KindAt ({ write with size := write.size + read.size } :: rest) kind x ↔
            KindAt (write :: read :: rest) kind x := by
        have size : (write.size + read.size).toNat = write.size.toNat + read.size.toNat := by
          rw [UInt64.toNat_add, Nat.mod_eq_of_lt fits]
        have covers : MemoryRegion.Covers { write with size := write.size + read.size } x ↔
            write.Covers x ∨ read.Covers x := by
          unfold MemoryRegion.Covers
          simp only [size]
          omega
        rw [kindAt_cons, kindAt_cons, kindAt_cons, covers, ← sameKind, ← or_assoc, ← and_or_left]
      rw [ih (pairwise_merged order), same]
      exact interrupted.mono fun kind x => (same kind x).mp
    next =>
      rw [kindAt_cons, kindAt_cons, ih rest']
      exact interrupted.mono fun kind x has => kindAt_cons.mpr (.inr has)

theorem totalUsableMemory_mergeLoop (write : MemoryRegion) (regions : List MemoryRegion) :
    totalUsableMemory (mergeLoop write regions) = totalUsableMemory (write :: regions) := by
  unfold totalUsableMemory at *
  induction regions generalizing write with
  | nil => rfl
  | cons read rest ih =>
    unfold mergeLoop
    split
    next merges =>
      rw [ih]
      by_cases usable : write.kind = .usable
      · have alike : read.kind = .usable := merges.1 ▸ usable
        simp [usable, alike, UInt64.add_assoc]
      · have alike : read.kind ≠ .usable := merges.1 ▸ usable
        simp [usable, alike]
    next =>
      by_cases usable : write.kind = .usable
      · simp [usable, ih]
      · simp [usable, ih]

theorem merged_spec (order : regions.Pairwise Before) :
    (merged regions).Pairwise Parted ∧
      (Interrupted regions → ∀ kind x, KindAt (merged regions) kind x ↔ KindAt regions kind x) ∧
      totalUsableMemory (merged regions) = totalUsableMemory regions := by
  cases regions with
  | nil => exact ⟨List.Pairwise.nil, fun _ _ _ => .rfl, rfl⟩
  | cons first rest =>
    exact ⟨mergeLoop_parted order, fun interrupted _ _ => kindAt_mergeLoop order interrupted,
      totalUsableMemory_mergeLoop first rest⟩

/-- Regions that nothing continues hold no row of 2^64 bytes, as none of them does. -/
theorem interrupted_of_parted (parted : regions.Pairwise Parted) : Interrupted regions := by
  intro kind start
  by_contra whole
  push Not at whole
  obtain ⟨first, inFirst, isKind, covers⟩ := whole start (by omega) (by omega)
  have small := first.size.toNat_lt
  unfold MemoryRegion.Covers at covers
  obtain ⟨second, inSecond, sameKind, goesOn⟩ :=
    whole (first.base.toNat + first.size.toNat) (by omega) (by omega)
  unfold MemoryRegion.Covers at goesOn
  have either : regions.Pairwise fun first second => Parted first second ∨ Parted second first :=
    parted.imp Or.inl
  have symmetric : Std.Symm fun first second => Parted first second ∨ Parted second first :=
    ⟨fun _ _ => Or.symm⟩
  have differ : first ≠ second := by
    rintro rfl
    omega
  rcases either.forall inFirst inSecond differ with ⟨⟨_, ends⟩, apart⟩ | ⟨⟨_, ends⟩, _⟩
  · exact apart ⟨isKind.trans sameKind.symm, by omega⟩
  · omega

/--
Sorting and merging a map of disjoint regions that are not empty tidies it if and
only if no kind holds 2^64 bytes in a row.
-/
theorem sortRegions_mergeAdjacent_tidies_iff (map : MemoryMap) (apart : Apart map.regions)
    (filled : ∀ region ∈ map.regions, 0 < region.size.toNat) :
    Tidies map.sortRegions.mergeAdjacent map ↔ Interrupted map.regions := by
  have order := sorted_perm map.regions
  have same (kind : MemoryRegionKind) (x : Nat) :
      KindAt (sorted map.regions) kind x ↔ KindAt map.regions kind x := by
    unfold KindAt
    simp only [order.mem_iff]
  obtain ⟨parted, kinds, total⟩ := merged_spec (sorted_before apart filled)
  constructor
  · exact fun tidies => (interrupted_of_parted parted).mono fun kind x => (tidies.kinds kind x).mpr
  · intro interrupted
    have kept := kinds (interrupted.mono fun kind x => (same kind x).mp)
    refine ⟨fun kind x => (kept kind x).trans (same kind x), total.trans ?_,
      parted.imp fun pair => pair.1.1, parted.imp And.right⟩
    exact ((order.filter _).map _).foldr_op_eq

theorem sortRegions_mergeAdjacent_tidies_pair : ∃ map : MemoryMap,
    map.regions = [⟨0x2000, 0x1000, .usable⟩, ⟨0x1000, 0x1000, .usable⟩] ∧
      Tidies map.sortRegions.mergeAdjacent map := by
  refine ⟨⟨_, by decide⟩, rfl, (sortRegions_mergeAdjacent_tidies_iff _ ?_ (by decide)).mpr ?_⟩
  · simp [Apart, MemoryRegion.Covers]
    omega
  · refine fun kind start => ⟨start + 0x3000, by omega, by omega, ?_⟩
    rintro ⟨region, member, -, covers⟩
    have high := covers.2
    simp only [mem_cons, not_mem_nil, or_false] at member
    rcases member with rfl | rfl <;> simp at high
    omega

/-- Two halves of the address space are merged into a region of size 0. -/
theorem mergeAdjacent_wraps : ∃ map : MemoryMap,
    map.regions = [⟨0, 0x8000000000000000, .usable⟩, ⟨0x8000000000000000, 0x8000000000000000, .usable⟩] ∧
      Apart map.regions ∧ (∀ region ∈ map.regions, 0 < region.size.toNat) ∧
      ¬ Tidies map.sortRegions.mergeAdjacent map := by
  refine ⟨⟨_, by decide⟩, rfl, ?_, by decide, fun tidies => ?_⟩
  · simp [Apart, MemoryRegion.Covers]
    omega
  · obtain ⟨region, member, -, covers⟩ := (tidies.kinds .usable 0).mpr
      ⟨_, (.head _), rfl, by decide, by decide⟩
    cases mem_singleton.mp member
    exact absurd covers.2 (by decide)

end MemoryMap

end CantayaOS.Shared
