import CantayaOS.Memory.VmmRanges

/-!
# Regions of the virtual memory manager

The recorded regions never overlap and add up to the counter of mapped bytes.
Every page of a region that the manager backed has a frame of its own, and
unmapping the region returns exactly these frames.  A request that fails leaves
no trace but page tables.
-/

namespace CantayaOS.Memory

open Lib Vmm VmmState PageMachine List Option Nat Span

/-- A region in use; `owned` if the manager backed it with frames of its own. -/
structure LiveRegion where
  region : VirtualRegion
  owned : Bool
  deriving DecidableEq

def LiveRegion.span (live : LiveRegion) : Span := ⟨live.region.base, live.region.size⟩

structure VmmSystem where
  state : VmmState
  live : List LiveRegion

abbrev VmmSystem.memory (system : VmmSystem) : Words :=
  system.state.machine.memory

inductive VmmEvent where
  | allocAndMap (pageCount : Nat) (flags : PageFlags) (kind : RegionKind)
  | mapMmio (physBase size : Nat)
  | unmapAndFree (vaddr pageCount : Nat)
  | unmapMmio (vaddr size : Nat)

variable {pageCount pml4 size vaddr x : Nat} {live : LiveRegion} {state : VmmState}

namespace VmmSystem

def start (machine : PageMachine) : VmmSystem := ⟨⟨machine, Vmm.init, [], 0⟩, []⟩

/-- The regions that a call recorded are in use from now on. -/
def record (system : VmmSystem) (owned : Bool) (state : VmmState) : VmmSystem :=
  ⟨state, system.live ++
    (state.regions.drop system.state.regions.length).map fun region => ⟨region, owned⟩⟩

/-- The region with this base is no longer in use. -/
def forget (system : VmmSystem) (base : Nat) (state : VmmState) : VmmSystem :=
  ⟨state, system.live.filter fun live => live.region.base != base⟩

/--
One call.  Requests are for at least one byte and at most the dynamic region;
an unmap is given the address and the size of a region in use that was made by
the call it belongs to.
-/
def step (pml4 : Nat) (system : VmmSystem) : VmmEvent → Option VmmSystem
  | .allocAndMap pageCount flags kind =>
    if 0 < pageCount ∧ pageCount * pageSize ≤ Vmm.regionEnd - Vmm.regionStart then
      some (system.record true (system.state.allocAndMap pml4 pageCount flags kind).2)
    else none
  | .mapMmio physBase size =>
    if physBase < 2 ^ 64 ∧ 0 < size ∧ size ≤ Vmm.regionEnd - Vmm.regionStart then
      some (system.record false (system.state.mapMmio pml4 physBase size).2)
    else none
  | .unmapAndFree vaddr pageCount =>
    if ∃ live ∈ system.live, live.owned = true ∧ live.span = ⟨vaddr, pageCount * pageSize⟩ then
      some (system.forget vaddr (system.state.unmapAndFree pml4 vaddr pageCount))
    else none
  | .unmapMmio vaddr size =>
    if ∃ live ∈ system.live, live.owned = false ∧
        live.span = ⟨vaddr &&& Word.not64 0xFFF, VmmState.pagesFor size * pageSize⟩ then
      some (system.forget (vaddr &&& Word.not64 0xFFF) (system.state.unmapMmio pml4 vaddr size))
    else none

structure Valid (pml4 : Nat) (system : VmmSystem) : Prop where
  tree : system.state.machine.WellFormed pml4
  recorded : system.state.regions = system.live.map LiveRegion.region
  ranges : VmmClient.Valid ⟨system.state.ranges, system.live.map LiveRegion.span⟩
  aligned : system.state.ranges.PageAligned
  pages : ∀ live ∈ system.live, pageSize ∣ live.region.base ∧ pageSize ∣ live.region.size
  total : system.state.totalMapped = (system.live.map fun live => live.region.size).sum
  unmapped : ∀ x, Vmm.regionStart ≤ x → x < Vmm.regionEnd →
    (∀ live ∈ system.live, ¬ live.span.Contains x) →
    mappings system.state.machine.memory pml4 (pageOf x) = none
  mapped : ∀ live ∈ system.live, ∀ x, live.span.Contains x → ∃ frame,
    mappings system.state.machine.memory pml4 (pageOf x) = some ⟨frame, false⟩ ∧
      (live.owned = true → system.state.machine.Held pml4 frame)
  exclusive : ∀ first ∈ system.live, first.owned = true → ∀ second ∈ system.live,
    second.owned = true → ∀ x y, first.span.Contains x → second.span.Contains y →
    mappings system.state.machine.memory pml4 (pageOf x) =
      mappings system.state.machine.memory pml4 (pageOf y) → pageOf x = pageOf y

variable {machine : PageMachine}

theorem start_valid (tree : machine.WellFormed pml4)
    (vacant : ∀ x, regionStart ≤ x → x < regionEnd →
      translate machine.memory pml4 x = none) : (start machine).Valid pml4 where
  tree := tree
  recorded := rfl
  ranges := VmmClient.start_valid
  aligned := ⟨(by decide : pageSize ∣ regionStart), nofun⟩
  pages := nofun
  total := rfl
  unmapped x low high _ := by
    have unmapped := vacant x low high
    rw [translate_eq_mappings, map_eq_none_iff] at unmapped
    exact unmapped
  mapped := nofun
  exclusive := nofun

/-- A request of whole pages for which a range was found. -/
structure Granted (system : VmmSystem) (vaddr size : Nat) (ranges : Vmm) : Prop where
  positive : 0 < size
  small : size ≤ Vmm.regionEnd - Vmm.regionStart
  whole : pageSize ∣ size
  grants : system.state.ranges.allocVirtualRange size = (some vaddr, ranges)

namespace Valid

variable {pml4 : Nat} {system : VmmSystem} (valid : system.Valid pml4)
include valid

theorem bounds (member : live ∈ system.live) : regionStart ≤ live.region.base ∧
      live.region.base + live.region.size ≤ regionEnd := by
  have inside : live.span ∈ system.live.map LiveRegion.span := mem_map_of_mem member
  obtain ⟨low, high⟩ := valid.ranges.within (mem_append_left _ inside)
  exact ⟨low, high.trans valid.ranges.below⟩

theorem contains_bounds (member : live ∈ system.live)
    (inside : live.span.Contains x) : regionStart ≤ x ∧ x < regionEnd := by
  obtain ⟨low, high⟩ := valid.bounds member
  obtain ⟨from_, behind⟩ := inside
  simp only [LiveRegion.span, stop] at from_ behind
  omega

theorem pairwise_apart : (system.live.map LiveRegion.span).Pairwise Span.Apart :=
  (pairwise_append.mp valid.ranges.pairwise_apart).1

theorem nonempty (member : live ∈ system.live) : 0 < live.region.size :=
  valid.ranges.nonempty live.span (mem_append_left _ (mem_map_of_mem member))

theorem contains_base (member : live ∈ system.live) : live.span.Contains live.region.base :=
  ⟨le_rfl, Nat.lt_add_of_pos_right (valid.nonempty member)⟩

theorem nodup_spans : (system.live.map LiveRegion.span).Nodup := by
  refine valid.pairwise_apart.imp_of_mem fun {first second} inside _ apart equal => ?_
  obtain ⟨own, member, rfl⟩ := List.mem_map.mp inside
  have base := valid.contains_base member
  exact apart _ base (equal ▸ base)

theorem apart {first second : LiveRegion} (firstMember : first ∈ system.live)
    (secondMember : second ∈ system.live) (different : first.region.base ≠ second.region.base) :
    first.span.Apart second.span := by
  refine valid.pairwise_apart.forall (mem_map_of_mem firstMember)
    (mem_map_of_mem secondMember) ?_
  exact fun same => different (congrArg base same)

theorem total_le : system.state.totalMapped ≤ regionEnd - regionStart := by
  have sizes : (system.live.map fun live => live.region.size) =
      (system.live.map LiveRegion.span).map Span.size := by
    rw [List.map_map]
    rfl
  rw [valid.total, sizes]
  refine sum_size_le ?_ ?_
  · intro span member
    obtain ⟨live, inside, rfl⟩ := List.mem_map.mp member
    exact valid.bounds inside
  · intro x
    have count := valid.ranges.tiles x
    dsimp only at count
    rw [cover_append] at count
    split at count <;> omega

theorem mem_pages (member : live ∈ system.live) (low : regionStart ≤ x) (high : x < regionEnd) :
    pageOf x ∈ rangePages live.region.base (live.region.size / pageSize) ↔
      live.span.Contains x := by
  obtain ⟨base, size⟩ := valid.pages live member
  obtain ⟨start, stop⟩ := valid.bounds member
  rw [mem_rangePages base start (by rwa [Nat.div_mul_cancel size]) low
    (high.trans (by decide)),
    Nat.div_mul_cancel size]
  rfl

section Alloc

variable {vaddr size : Nat} {ranges : Vmm} {machine : PageMachine} {entries : List (Nat × Nat)}
  {mine : List Nat} (granted : system.Granted vaddr size ranges)
include granted

theorem granted_range : pageSize ∣ vaddr ∧ regionStart ≤ vaddr ∧ vaddr + size ≤ regionEnd ∧
    ∀ live ∈ system.live, ∀ x, live.span.Contains x → ¬ (Span.mk vaddr size).Contains x := by
  have held := valid.ranges.alloc granted.positive granted.small granted.grants
  have member : Span.mk vaddr size ∈ Span.mk vaddr size :: system.live.map LiveRegion.span :=
    (.head _)
  obtain ⟨low, high⟩ := held.within (mem_append_left _ member)
  refine ⟨?_, low, high.trans held.below, ?_⟩
  · exact (allocVirtualRange_aligned valid.aligned granted.whole granted.grants).2 vaddr rfl
  · intro live inside x there here
    have apart := (pairwise_append.mp held.pairwise_apart).1
    exact (pairwise_cons.mp apart).1 live.span (mem_map_of_mem inside) x here there

/-- The call failed: the range goes back and nothing is mapped. -/
theorem fail (filled : PageMachine.Filled system.state.machine machine pml4 [] []) :
    Valid pml4 { system with state := { system.state with
      machine := machine
      ranges := ranges.freeVirtualRange vaddr size } } := by
  have base := (valid.granted_range granted).1
  have held := valid.ranges.alloc granted.positive granted.small granted.grants
  have freed := held.free (.head _)
  rw [erase_cons_head] at freed
  have same (page : Page) : mappings machine.memory pml4 page =
      mappings system.memory pml4 page := filled.elsewhere page nofun
  have alignedAfter := (allocVirtualRange_aligned valid.aligned granted.whole granted.grants).1
  refine ⟨filled.tree, valid.recorded, freed, held.free_aligned mem_cons_self alignedAfter base
    granted.whole, valid.pages, valid.total, ?_, ?_, ?_⟩
  · intro x low high outside
    exact (same _).trans (valid.unmapped x low high outside)
  · intro live member x inside
    obtain ⟨frame, there, owner⟩ := valid.mapped live member x inside
    exact ⟨frame, (same _).trans there, fun owned => filled.held_before (owner owned)⟩
  · intro first firstMember firstOwned second secondMember secondOwned x y inX inY equal
    rw [same, same] at equal
    exact valid.exclusive first firstMember firstOwned second secondMember secondOwned x y inX inY
      equal

variable (filled : PageMachine.Filled system.state.machine machine pml4 entries mine)
  (keys : entries.map Prod.fst = pageAddrs vaddr (size / pageSize))
include filled keys

omit filled in
theorem mem_entryPages (low : regionStart ≤ x) (high : x < regionEnd) :
    pageOf x ∈ entryPages entries ↔ (Span.mk vaddr size).Contains x := by
  obtain ⟨base, start, stop, _⟩ := valid.granted_range granted
  have pages : entryPages entries = rangePages vaddr (size / pageSize) := by
    unfold entryPages rangePages
    rw [← keys, List.map_map]
    rfl
  rw [pages, mem_rangePages base start (by rwa [Nat.div_mul_cancel granted.whole]) low
    (high.trans (by decide)), Nat.div_mul_cancel granted.whole]
  rfl

/-- Pages of the other regions keep their mapping. -/
theorem mappings_old (member : live ∈ system.live) (inside : live.span.Contains x) :
    mappings machine.memory pml4 (pageOf x) = mappings system.memory pml4 (pageOf x) := by
  obtain ⟨low, high⟩ := valid.contains_bounds member inside
  apply filled.elsewhere
  rw [valid.mem_entryPages granted keys low high]
  exact (valid.granted_range granted).2.2.2 live member x inside

/-- Pages of the new region have the frames of the loop. -/
theorem mappings_new (inside : (Span.mk vaddr size).Contains x) :
    ∃ entry ∈ entries, pageOf entry.1 = pageOf x ∧
      mappings machine.memory pml4 (pageOf x) = some ⟨entry.2, false⟩ := by
  obtain ⟨_, start, stop, _⟩ := valid.granted_range granted
  have low : regionStart ≤ x := start.trans inside.1
  have high : x < regionEnd := inside.2.trans_le stop
  obtain ⟨entry, member, same⟩ :=
    List.mem_map.mp ((valid.mem_entryPages granted keys low high).mpr inside)
  exact ⟨entry, member, same, same ▸ filled.mapped entry member⟩

/-- A frame of the new region was free before, a frame of another region was not. -/
theorem old_ne_new (owner : mine.Perm (entries.map Prod.snd)) (member : live ∈ system.live)
    (liveOwned : live.owned = true) {y : Nat} (inside : live.span.Contains x)
    (here : (Span.mk vaddr size).Contains y) :
    mappings machine.memory pml4 (pageOf x) ≠ mappings machine.memory pml4 (pageOf y) := by
  intro equal
  obtain ⟨entry, inEntries, _, there⟩ := valid.mappings_new granted filled keys here
  obtain ⟨frame, before, own⟩ := valid.mapped live member x inside
  rw [valid.mappings_old granted filled keys member inside, before, there] at equal
  cases equal
  have free := (filled.held _ (owner.mem_iff.mpr (List.mem_map_of_mem inEntries))).2
  rw [(own liveOwned).busy] at free
  cases free

/-- The call succeeded: the range is a region in use. -/
theorem succeed {flags : PageFlags} {kind : RegionKind} {owned : Bool}
    (owner : owned = true → mine.Perm (entries.map Prod.snd)) :
    Valid pml4 ⟨⟨machine, ranges, system.state.regions ++ [⟨vaddr, size, flags, kind⟩],
        (system.state.totalMapped + size) % 2 ^ 64⟩,
      system.live ++ [⟨⟨vaddr, size, flags, kind⟩, owned⟩]⟩ := by
  have held := valid.ranges.alloc granted.positive granted.small granted.grants
  have old {live : LiveRegion} (member : live ∈ system.live) {x : Nat}
      (inside : live.span.Contains x) := valid.mappings_old granted filled keys member inside
  have new {x : Nat} (inside : (Span.mk vaddr size).Contains x) :=
    valid.mappings_new granted filled keys inside
  refine ⟨filled.tree, ?_, ?_,
    (allocVirtualRange_aligned valid.aligned granted.whole granted.grants).1, ?_, ?_, ?_, ?_, ?_⟩
  · rw [valid.recorded, List.map_append]
    rfl
  · refine held.perm ?_
    rw [List.map_append]
    exact (List.perm_append_singleton _ _).symm
  · intro live member
    rcases List.mem_append.mp member with before | last
    · exact valid.pages live before
    · cases List.mem_singleton.mp last
      exact ⟨(valid.granted_range granted).1, granted.whole⟩
  · have total := Nat.add_le_add valid.total_le granted.small
    rw [Nat.mod_eq_of_lt, List.map_append, List.sum_append, valid.total]
    · rfl
    · simp only [regionStart, regionEnd] at total
      omega
  · intro x low high outside
    rw [filled.elsewhere]
    · exact valid.unmapped x low high fun live member =>
        outside live (List.mem_append_left _ member)
    · rw [valid.mem_entryPages granted keys low high]
      exact outside ⟨⟨vaddr, size, flags, kind⟩, owned⟩ (by simp)
  · intro live member x inside
    rcases List.mem_append.mp member with before | last
    · obtain ⟨frame, there, own⟩ := valid.mapped live before x inside
      exact ⟨frame, (old before inside).trans there, fun isOwned =>
        filled.held_before (own isOwned)⟩
    · cases List.mem_singleton.mp last
      obtain ⟨entry, inEntries, _, there⟩ := new inside
      refine ⟨entry.2, there, fun isOwned => (filled.held _ ?_).1⟩
      exact (owner isOwned).mem_iff.mpr (List.mem_map_of_mem inEntries)
  · intro first firstMember firstOwned second secondMember secondOwned x y inX inY equal
    rcases List.mem_append.mp firstMember with firstOld | firstNew
    · rcases List.mem_append.mp secondMember with secondOld | secondNew
      · rw [old firstOld inX, old secondOld inY] at equal
        exact valid.exclusive first firstOld firstOwned second secondOld secondOwned x y inX inY
          equal
      · cases List.mem_singleton.mp secondNew
        exact absurd equal (valid.old_ne_new granted filled keys (owner secondOwned) firstOld
          firstOwned inX inY)
    · cases List.mem_singleton.mp firstNew
      rcases List.mem_append.mp secondMember with secondOld | secondNew
      · exact absurd equal.symm (valid.old_ne_new granted filled keys (owner firstOwned) secondOld
          secondOwned inY inX)
      cases List.mem_singleton.mp secondNew
      obtain ⟨entry, member, page, there⟩ := new inX
      obtain ⟨entry', member', page', there'⟩ := new inY
      rw [there, there', Option.some.injEq, Mapping.mk.injEq] at equal
      have unshared := (owner firstOwned).nodup_iff.mp filled.unshared
      rw [← page, ← page', List.inj_on_of_nodup_map unshared member member' equal.1]

end Alloc

section Remove

variable {live : LiveRegion} (member : live ∈ system.live)
include member

theorem eq_of_base {other : LiveRegion} (there : other ∈ system.live)
    (same : other.region.base = live.region.base) : other = live := by
  refine inj_on_of_nodup_map valid.nodup_spans there member ?_
  by_contra different
  have apart := valid.pairwise_apart.forall (mem_map_of_mem there)
    (mem_map_of_mem member) different
  have here := valid.contains_base member
  rw [← same] at here
  exact apart other.region.base (valid.contains_base there) here

theorem forget_perm : system.live.Perm
    (live :: system.live.filter fun other => other.region.base != live.region.base) := by
  have shape : (system.live.filter fun other => other.region.base != live.region.base) =
      system.live.erase live := by
    rw [(List.Nodup.of_map _ valid.nodup_spans).erase_eq_filter]
    refine filter_congr fun other there => ?_
    rw [Bool.eq_iff_iff, bne_iff_ne, bne_iff_ne, not_iff_not]
    exact ⟨valid.eq_of_base member there, fun same => same ▸ rfl⟩
  rw [shape]
  exact perm_cons_erase member

/-- A region was unmapped and forgotten. -/
theorem remove {frames : List Nat}
    (released : PageMachine.Released system.state.machine machine pml4
      (rangePages live.region.base (live.region.size / pageSize)) frames)
    (own : ∀ frame ∈ frames, pageSize ∣ frame ∧ ∀ other ∈ system.live, other.owned = true →
      ∀ x, other.span.Contains x →
      mappings system.memory pml4 (pageOf x) = some ⟨frame, false⟩ →
      live.span.Contains x) :
    Valid pml4 (system.forget live.region.base
      { machine := machine
        ranges := system.state.ranges.freeVirtualRange live.region.base live.region.size
        regions := system.state.regions.filter fun region => region.base != live.region.base
        totalMapped := system.state.totalMapped - live.region.size }) := by
  obtain ⟨base, whole⟩ := valid.pages live member
  have order := valid.forget_perm member
  have stays {other : LiveRegion} (kept : other ∈ system.live.filter fun other =>
      other.region.base != live.region.base) :
      other ∈ system.live ∧ other.region.base ≠ live.region.base := by
    rw [mem_filter, bne_iff_ne] at kept
    exact kept
  -- Pages of the regions that stay keep their mapping.
  have old {other : LiveRegion} (kept : other ∈ system.live.filter fun other =>
      other.region.base != live.region.base) {x : Nat} (inside : other.span.Contains x) :
      ¬ live.span.Contains x ∧ mappings machine.memory pml4 (pageOf x) =
        mappings system.memory pml4 (pageOf x) := by
    obtain ⟨there, different⟩ := stays kept
    obtain ⟨low, high⟩ := valid.contains_bounds there inside
    have outside := valid.apart there member different x inside
    refine ⟨outside, released.elsewhere _ ?_⟩
    rw [valid.mem_pages member low high]
    exact outside
  refine ⟨released.tree, ?_, ?_,
    valid.ranges.free_aligned (mem_map_of_mem member) valid.aligned base whole, ?_, ?_, ?_,
    ?_, ?_⟩
  · simp only [valid.recorded, List.filter_map]
    rfl
  · have freed := valid.ranges.free (mem_map_of_mem member)
    refine freed.perm ?_
    have spans := (order.map LiveRegion.span).symm.trans
      (perm_cons_erase (List.mem_map_of_mem member))
    exact (List.Perm.cons_inv spans).symm
  · intro other kept
    exact valid.pages other (stays kept).1
  · have sum := (order.map fun other => other.region.size).sum_eq
    simp only [forget, valid.total, sum, List.map_cons, List.sum_cons, Nat.add_sub_cancel_left]
  · intro x low high outside
    by_cases inside : live.span.Contains x
    · exact released.gone _ ((valid.mem_pages member low high).mpr inside)
    simp only [forget]
    rw [released.elsewhere _ (fun page => inside ((valid.mem_pages member low high).mp page))]
    refine valid.unmapped x low high fun other there => ?_
    rcases List.mem_cons.mp (order.mem_iff.mp there) with rfl | kept
    · exact inside
    · exact outside other kept
  · intro other kept x inside
    obtain ⟨outside, same⟩ := old kept inside
    obtain ⟨there, _⟩ := stays kept
    obtain ⟨frame, mapped, held⟩ := valid.mapped other there x inside
    refine ⟨frame, same.trans mapped, fun owned => released.held (held owned)
      (fun frame inFrames => (own frame inFrames).1) fun inFrames => outside ?_⟩
    exact (own frame inFrames).2 other there owned x inside mapped
  · intro first firstKept firstOwned second secondKept secondOwned x y inX inY equal
    simp only [forget] at equal
    rw [(old firstKept inX).2, (old secondKept inY).2] at equal
    exact valid.exclusive first (stays firstKept).1 firstOwned second (stays secondKept).1
      secondOwned x y inX inY equal

/-- The pages of a region with the frames they are mapped to. -/
theorem exists_entries : ∃ entries : List (Nat × Nat),
    entries.map Prod.fst = pageAddrs live.region.base (live.region.size / pageSize) ∧
      entryPages entries =
        rangePages live.region.base (live.region.size / pageSize) ∧
      (entryPages entries).Nodup ∧
      ∀ entry ∈ entries, live.span.Contains entry.1 ∧
        mappings system.memory pml4 (pageOf entry.1) = some ⟨entry.2, false⟩ := by
  obtain ⟨base, whole⟩ := valid.pages live member
  obtain ⟨low, high⟩ := valid.bounds member
  have top : live.region.base + live.region.size / pageSize * pageSize ≤ regionEnd := by
    rwa [Nat.div_mul_cancel whole]
  let frameOf (addr : Nat) : Nat :=
    ((mappings system.memory pml4 (pageOf addr)).map Mapping.frame).getD 0
  let addrs := pageAddrs live.region.base (live.region.size / pageSize)
  have firsts : (addrs.map fun addr => (addr, frameOf addr)).map Prod.fst = addrs := by
    simp [Function.comp_def]
  have pages : entryPages (addrs.map fun addr => (addr, frameOf addr)) =
      rangePages live.region.base (live.region.size / pageSize) := by
    unfold entryPages
    rw [List.map_map]
    rfl
  refine ⟨addrs.map fun addr => (addr, frameOf addr), firsts, pages, ?_, ?_⟩
  · rw [pages]
    exact nodup_rangePages base low top
  · intro entry listed
    obtain ⟨addr, inAddrs, rfl⟩ := List.mem_map.mp listed
    obtain ⟨i, inside, rfl⟩ := List.mem_map.mp inAddrs
    rw [mem_range] at inside
    have here : live.span.Contains (pageAddr live.region.base i) := by
      rw [pageAddr_eq base top inside]
      simp only [Span.Contains, LiveRegion.span, stop, pageSize] at *
      omega
    obtain ⟨frame, mapped, _⟩ := valid.mapped live member _ here
    refine ⟨here, ?_⟩
    simp only [frameOf, mapped, map_some, Option.getD_some]

end Remove

/-- Unmapping an owned region returns the frames of its pages. -/
theorem unmapAndFree_released (member : live ∈ system.live)
    (owned : live.owned = true) : ∃ frames, PageMachine.Released system.state.machine
      ((pageAddrs live.region.base (live.region.size / pageSize)).foldl
        (releasePage pml4) system.state.machine) pml4
      (rangePages live.region.base (live.region.size / pageSize)) frames ∧
    (∀ frame ∈ frames, pageSize ∣ frame) ∧
    ∀ frame, frame ∈ frames ↔ ∃ x, live.span.Contains x ∧
      mappings system.memory pml4 (pageOf x) = some ⟨frame, false⟩ := by
  obtain ⟨entries, addrs, pages, distinct, mapped⟩ := valid.exists_entries member
  have held (entry : Nat × Nat) (listed : entry ∈ entries) :
      system.state.machine.Held pml4 entry.2 := by
    obtain ⟨inside, here⟩ := mapped entry listed
    obtain ⟨frame, there, own⟩ := valid.mapped live member entry.1 inside
    rw [here] at there
    cases there
    exact own owned
  have unshared : (entries.map Prod.snd).Nodup := by
    refine List.Nodup.map_on ?_ (List.Nodup.of_map _ distinct)
    intro first firstListed second secondListed same
    obtain ⟨inFirst, firstMapped⟩ := mapped first firstListed
    obtain ⟨inSecond, secondMapped⟩ := mapped second secondListed
    refine inj_on_of_nodup_map distinct firstListed secondListed ?_
    refine valid.exclusive live member owned live member owned _ _ inFirst inSecond ?_
    rw [firstMapped, secondMapped, same]
  have released := foldl_releasePage_released entries valid.tree
    (fun entry listed => (mapped entry listed).2) distinct held unshared
  rw [addrs, pages] at released
  refine ⟨entries.map Prod.snd, released, ?_, ?_⟩
  · intro frame inFrames
    obtain ⟨entry, listed, rfl⟩ := List.mem_map.mp inFrames
    exact (held entry listed).aligned
  · intro frame
    constructor
    · intro inFrames
      obtain ⟨entry, listed, rfl⟩ := List.mem_map.mp inFrames
      exact ⟨entry.1, mapped entry listed⟩
    · rintro ⟨x, inside, there⟩
      obtain ⟨low, high⟩ := valid.contains_bounds member inside
      have page := (valid.mem_pages member low high).mpr inside
      rw [← pages] at page
      obtain ⟨entry, listed, same⟩ := List.mem_map.mp page
      have here := (mapped entry listed).2
      rw [same, there] at here
      cases here
      exact mem_map_of_mem listed

theorem unmapMmio_released (member : live ∈ system.live) : PageMachine.Released system.state.machine
      ((pageAddrs live.region.base (live.region.size / pageSize)).foldl
        (dropPage pml4) system.state.machine) pml4
      (rangePages live.region.base (live.region.size / pageSize)) [] := by
  obtain ⟨entries, addrs, pages, distinct, mapped⟩ := valid.exists_entries member
  have released := foldl_dropPage_released entries valid.tree
    (fun entry listed => (mapped entry listed).2) distinct
  rw [addrs, pages] at released
  exact released

end Valid

theorem record_failed (system : VmmSystem) (owned : Bool)
    (same : state.regions = system.state.regions) :
    system.record owned state = { system with state := state } := by
  unfold record
  rw [same, drop_length, map_nil, append_nil]

theorem record_succeeded (system : VmmSystem) (owned : Bool)
    {region : VirtualRegion} (more : state.regions = system.state.regions ++ [region]) :
    system.record owned state = ⟨state, system.live ++ [⟨region, owned⟩]⟩ := by
  unfold record
  rw [more, drop_left]
  rfl

namespace Valid

variable {pml4 : Nat} {system next : VmmSystem} (valid : system.Valid pml4)
include valid

theorem allocAndMap (flags : PageFlags) (kind : RegionKind)
    (positive : 0 < pageCount) (small : pageCount * pageSize ≤ Vmm.regionEnd - Vmm.regionStart) :
    (system.record true (system.state.allocAndMap pml4 pageCount flags kind).2).Valid pml4 := by
  have bytes : 0 < pageCount * pageSize := mul_pos positive (by decide)
  have whole : pageSize ∣ pageCount * pageSize := dvd_mul_left _ _
  unfold VmmState.allocAndMap
  rw [if_neg positive.ne']
  dsimp only
  rw [size_mod small]
  split
  next ranges refused =>
    obtain rfl := Vmm.allocVirtualRange_none refused
    rw [record_failed]
    · exact valid
    · rfl
  next vaddr ranges granted =>
    split
    next machine ran =>
      have filled := mapFresh_filled _ flags (PageMachine.Filled.start valid.tree)
        (List.Perm.refl []) ran
      rw [record_failed]
      · exact valid.fail ⟨bytes, small, whole, granted⟩ filled
      · rfl
    next machine ran =>
      obtain ⟨entries, mine, filled, owner, keys⟩ := mapFresh_filled _ flags
        (PageMachine.Filled.start valid.tree) (List.Perm.refl []) ran
      rw [record_succeeded _ _ rfl]
      refine valid.succeed ⟨bytes, small, whole, granted⟩ filled ?_ fun _ => owner
      rw [keys, Nat.mul_div_cancel _ (by decide : 0 < pageSize)]
      rfl

theorem mapMmio (physBase : Nat) (positive : 0 < size)
    (small : size ≤ Vmm.regionEnd - Vmm.regionStart) :
    (system.record false (system.state.mapMmio pml4 physBase size).2).Valid pml4 := by
  obtain ⟨bytes, small⟩ := pagesFor_bounds positive small
  have whole : pageSize ∣ pagesFor size * pageSize := dvd_mul_left _ _
  have count (base : Nat) : (pageAddrs base (pagesFor size)).length =
      pagesFor size := by
    rw [VmmState.pageAddrs, length_map, length_range]
  unfold VmmState.mapMmio
  dsimp only
  rw [size_mod small]
  split
  next ranges refused =>
    obtain rfl := Vmm.allocVirtualRange_none refused
    rw [record_failed]
    · exact valid
    · rfl
  next vaddr ranges granted =>
    split
    next machine ran =>
      have filled := mapDevice_filled _ _ (PageMachine.Filled.start valid.tree) ran
      rw [record_failed]
      · exact valid.fail ⟨bytes, small, whole, granted⟩ filled
      · rfl
    next machine ran =>
      have filled := mapDevice_filled _ _ (PageMachine.Filled.start valid.tree) ran
      rw [record_succeeded _ _ rfl]
      refine valid.succeed ⟨bytes, small, whole, granted⟩ filled ?_ fun isRam => by cases isRam
      rw [Nat.mul_div_cancel _ (by decide : 0 < pageSize), nil_append, List.map_map]
      exact List.map_fst_zip (by rw [count, count])

/-- The region that is given to `unmapAndFree` returns its own frames only. -/
theorem unmapAndFree (member : live ∈ system.live) (owned : live.owned = true)
    (shape : live.span = ⟨vaddr, pageCount * pageSize⟩) :
    (system.forget vaddr (system.state.unmapAndFree pml4 vaddr pageCount)).Valid pml4 := by
  obtain ⟨base, size⟩ : live.region.base = vaddr ∧ live.region.size = pageCount * pageSize :=
    Span.mk.inj shape
  obtain ⟨low, high⟩ := valid.bounds member
  obtain ⟨frames, released, aligned, frame_iff⟩ := valid.unmapAndFree_released member owned
  have count : live.region.size / pageSize = pageCount := by
    rw [size, Nat.mul_div_cancel _ (by decide : 0 < pageSize)]
  have result := valid.remove member released fun frame inFrames =>
    ⟨aligned frame inFrames, fun other there otherOwned x inside mapped => ?_⟩
  · unfold VmmState.unmapAndFree
    rw [VmmState.size_mod (by omega), ← size]
    rw [count, base] at result
    exact result
  · obtain ⟨y, inLive, yMapped⟩ := (frame_iff frame).mp inFrames
    obtain ⟨yLow, yHigh⟩ := valid.contains_bounds member inLive
    obtain ⟨xLow, xHigh⟩ := valid.contains_bounds there inside
    have same := valid.exclusive other there otherOwned live member owned x y inside inLive
      (mapped.trans yMapped.symm)
    rw [← valid.mem_pages member xLow xHigh, same, valid.mem_pages member yLow yHigh]
    exact inLive

theorem unmapMmio (member : live ∈ system.live)
    (shape : live.span = ⟨vaddr &&& Word.not64 0xFFF, VmmState.pagesFor size * pageSize⟩) :
    (system.forget (vaddr &&& Word.not64 0xFFF) (system.state.unmapMmio pml4 vaddr size)).Valid
      pml4 := by
  obtain ⟨base, total⟩ : live.region.base = vaddr &&& Word.not64 0xFFF ∧
      live.region.size = VmmState.pagesFor size * pageSize := Span.mk.inj shape
  obtain ⟨low, high⟩ := valid.bounds member
  have count : live.region.size / pageSize = VmmState.pagesFor size := by
    rw [total, Nat.mul_div_cancel _ (by decide : 0 < pageSize)]
  have result := valid.remove member (valid.unmapMmio_released member) nofun
  unfold VmmState.unmapMmio
  dsimp only
  rw [VmmState.size_mod (by omega), ← total]
  rw [count, base] at result
  exact result

theorem step {event : VmmEvent} (stepped : system.step pml4 event = some next) :
    next.Valid pml4 := by
  cases event with
  | allocAndMap pageCount flags kind =>
    obtain ⟨request, stepped⟩ := Option.ite_none_right_eq_some.mp stepped
    cases stepped
    exact valid.allocAndMap flags kind request.1 request.2
  | mapMmio physBase size =>
    obtain ⟨request, stepped⟩ := Option.ite_none_right_eq_some.mp stepped
    cases stepped
    exact valid.mapMmio physBase request.2.1 request.2.2
  | unmapAndFree vaddr pageCount =>
    obtain ⟨⟨live, member, owned, shape⟩, stepped⟩ := Option.ite_none_right_eq_some.mp stepped
    cases stepped
    exact valid.unmapAndFree member owned shape
  | unmapMmio vaddr size =>
    obtain ⟨⟨live, member, _, shape⟩, stepped⟩ := Option.ite_none_right_eq_some.mp stepped
    cases stepped
    exact valid.unmapMmio member shape

end Valid

/-- The invariant holds after every run from a manager whose dynamic region is not mapped. -/
theorem run_valid {events : List VmmEvent} {system : VmmSystem} (tree : machine.WellFormed pml4)
    (vacant : ∀ x, regionStart ≤ x → x < regionEnd → translate machine.memory pml4 x = none)
    (reached : Transition.run (step pml4) (start machine) events = some system) :
    system.Valid pml4 :=
  Transition.run_invariant (fun _ _ _ valid stepped => valid.step stepped)
    (start_valid tree vacant) reached

/--
After every run, the recorded regions have no address in common and add up to
the counter.  Every byte of a region that the manager backed translates into a
frame in use that backs no other page of such a region.  Unmapping the region
returns exactly the frames of its pages to the allocator.
-/
theorem regions_backed_along_runs {machine : PageMachine} {pml4 : Nat} {events : List VmmEvent}
    {system : VmmSystem} (tree : machine.WellFormed pml4)
    (vacant : ∀ x, Vmm.regionStart ≤ x → x < Vmm.regionEnd → translate machine.memory pml4 x = none)
    (reached : Transition.run (step pml4) (start machine) events = some system) :
    (system.state.regions.map fun region => Span.mk region.base region.size).Pairwise Span.Apart ∧
      system.state.totalMapped = (system.state.regions.map VirtualRegion.size).sum ∧
      system.state.regions = system.live.map LiveRegion.region ∧
      (∀ live ∈ system.live, live.owned = true → ∀ x, live.span.Contains x → ∃ i,
        translate system.state.machine.memory pml4 x = some (i * pageSize + x % pageSize) ∧
          system.state.machine.frames.isFree i = false ∧
          ∀ other ∈ system.live, other.owned = true → ∀ y, other.span.Contains y →
            translate system.state.machine.memory pml4 y = some (i * pageSize + y % pageSize) →
            y / pageSize = x / pageSize) ∧
      ∀ live ∈ system.live, live.owned = true → ∀ i,
        (system.state.unmapAndFree pml4 live.region.base
            (live.region.size / pageSize)).machine.frames.isFree i = true ↔
          system.state.machine.frames.isFree i = true ∨ ∃ x, live.span.Contains x ∧
            translate system.state.machine.memory pml4 x = some (i * pageSize + x % pageSize) := by
  have valid := run_valid tree vacant reached
  -- A byte translates into frame `i` exactly if its page is mapped to that frame.
  have translates {live : LiveRegion} (member : live ∈ system.live) {x : Nat}
      (inside : live.span.Contains x) (i : Nat) :
      translate system.memory pml4 x = some (i * pageSize + x % pageSize) ↔
        mappings system.memory pml4 (pageOf x) = some ⟨i * pageSize, false⟩ := by
    obtain ⟨frame, mapped, _⟩ := valid.mapped live member x inside
    rw [translate_eq_mappings, mapped, map_some, Option.some.injEq, Option.some.injEq,
      Mapping.mk.injEq, add_right_cancel_iff, eq_self, and_true]
  refine ⟨?_, ?_, valid.recorded, ?_, ?_⟩
  · have apart := valid.pairwise_apart
    rw [valid.recorded, List.map_map]
    exact apart
  · rw [valid.total, valid.recorded, List.map_map]
    rfl
  · intro live member owned x inside
    obtain ⟨frame, mapped, held⟩ := valid.mapped live member x inside
    have shape := Nat.div_mul_cancel (held owned).aligned
    rw [← shape] at mapped
    refine ⟨frame / pageSize, (translates member inside _).mpr mapped, (held owned).busy, ?_⟩
    intro other there otherOwned y inOther same
    rw [translates there inOther] at same
    have pages := valid.exclusive other there otherOwned live member owned y x inOther inside
      (same.trans mapped.symm)
    obtain ⟨xLow, xHigh⟩ := valid.contains_bounds member inside
    obtain ⟨yLow, yHigh⟩ := valid.contains_bounds there inOther
    exact div_eq_of_pageOf_eq yLow (yHigh.trans (by decide)) xLow
      (xHigh.trans (by decide)) pages
  · intro live member owned i
    obtain ⟨frames, released, aligned, frame_iff⟩ := valid.unmapAndFree_released member owned
    refine (released.free i).trans (or_congr_right ?_)
    constructor
    · rintro ⟨frame, inFrames, rfl⟩
      obtain ⟨x, inside, mapped⟩ := (frame_iff frame).mp inFrames
      refine ⟨x, inside, (translates member inside _).mpr ?_⟩
      rw [Nat.div_mul_cancel (aligned frame inFrames)]
      exact mapped
    · rintro ⟨x, inside, translated⟩
      refine ⟨i * pageSize, (frame_iff _).mpr ⟨x, inside, ?_⟩, Nat.mul_div_cancel _ (by decide)⟩
      exact (translates member inside i).mp translated

/-- What a request for pages that failed leaves behind: at most page tables. -/
structure RolledBack (pml4 : Nat) (before after : VmmState) : Prop where
  translate_eq : ∀ vaddr, translate after.machine.memory pml4 vaddr =
    translate before.machine.memory pml4 vaddr
  regions_eq : after.regions = before.regions
  totalMapped_eq : after.totalMapped = before.totalMapped
  available_iff : ∀ x, after.ranges.Available x ↔ before.ranges.Available x
  kept : ∀ i, after.machine.frames.isFree i = true → before.machine.frames.isFree i = true
  free : ∀ i, before.machine.frames.isFree i = true → after.machine.frames.isFree i = true ∨
    ∃ p, pageTrie.nodeAt after.machine.memory 0 pml4 p = some (i * pageSize)

theorem RolledBack.refl (pml4 : Nat) (state : VmmState) : RolledBack pml4 state state :=
  ⟨fun _ => rfl, rfl, rfl, fun _ => .rfl, fun _ free => free, fun _ => Or.inl⟩

/-- A mapping loop that undid everything. -/
theorem RolledBack.of_filled {ranges : Vmm}
    (filled : PageMachine.Filled state.machine machine pml4 [] [])
    (available : ∀ x, ranges.Available x ↔ state.ranges.Available x) :
    RolledBack pml4 state { state with machine := machine, ranges := ranges } where
  translate_eq x := by
    rw [translate_eq_mappings, translate_eq_mappings, filled.elsewhere _ nofun]
  regions_eq := rfl
  totalMapped_eq := rfl
  available_iff := available
  kept := filled.kept
  free i free := by
    rcases filled.taken i free with still | table | passed
    · exact .inl still
    · exact .inr table
    · cases passed

/--
A request for pages that fails in a state reached by any run changes no
translation, no record and no available address, and every frame that it took
is free again or has become a page table.
-/
theorem failed_allocAndMap_leaves_tables {machine : PageMachine} {pml4 : Nat}
    {events : List VmmEvent} {system : VmmSystem} (tree : machine.WellFormed pml4)
    (vacant : ∀ x, Vmm.regionStart ≤ x → x < Vmm.regionEnd → translate machine.memory pml4 x = none)
    (reached : Transition.run (step pml4) (start machine) events = some system) {pageCount : Nat}
    (small : pageCount ≤ 131072) (flags : PageFlags) (kind : RegionKind) {after : VmmState}
    (failed : system.state.allocAndMap pml4 pageCount flags kind = (none, after)) :
    RolledBack pml4 system.state after := by
  have valid := run_valid tree vacant reached
  unfold allocAndMap at failed
  split at failed
  next =>
    cases failed
    exact RolledBack.refl pml4 _
  next positive =>
    have request : pageCount * pageSize ≤ regionEnd - regionStart := by
      simp only [pageSize, regionEnd, regionStart]
      omega
    have bytes : 0 < pageCount * pageSize :=
      mul_pos (pos_of_ne_zero positive) (by decide)
    have whole : pageSize ∣ pageCount * pageSize := dvd_mul_left _ _
    dsimp only at failed
    rw [size_mod request] at failed
    split at failed
    next ranges refused =>
      cases failed
      obtain rfl := allocVirtualRange_none refused
      exact RolledBack.refl pml4 _
    next vaddr ranges granted =>
      split at failed
      next next ran =>
        cases failed
        have filled := mapFresh_filled _ flags (PageMachine.Filled.start valid.tree)
          (List.Perm.refl []) ran
        have kept := valid.fail ⟨bytes, request, whole, granted⟩ filled
        exact RolledBack.of_filled filled fun x =>
          (kept.ranges.available_iff x).trans (valid.ranges.available_iff x).symm
      next => cases failed

theorem emptyTables_vacant (x : Nat) : translate emptyTables.memory 0x200000 x = none := by
  rw [translate_eq_find, find_empty fun _ => rfl, map_none]

/-- Two pages need five frames with their tables, of which there are four. -/
theorem failed_allocAndMap_leaves_tables_twoPages :
    ∃ after, (start emptyTables).state.allocAndMap 0x200000 2 .writable .kernelAlloc =
        (none, after) ∧
      RolledBack 0x200000 (start emptyTables).state after := by
  have refused : ((start emptyTables).state.allocAndMap 0x200000 2 .writable .kernelAlloc).1 =
      none := by decide +kernel
  have failed := Prod.ext_iff.mpr ⟨refused, rfl⟩
  have reached : Transition.run (step 0x200000) (start emptyTables) [] =
      some (start emptyTables) := rfl
  exact ⟨_, failed, failed_allocAndMap_leaves_tables emptyTables_wellFormed
    (fun x _ _ => emptyTables_vacant x) reached (by decide) .writable .kernelAlloc failed⟩

/--
A page is mapped again beside the registers of a device.  It has frame 0x100, which unmapping
returns.
-/
theorem regions_backed_along_runs_device :
    ∃ system, Transition.run (step 0x200000) (start emptyTables)
        [.allocAndMap 1 .writable .kernelAlloc, .mapMmio 0xFEE00020 0x20,
          .unmapAndFree regionStart 1, .allocAndMap 1 .writable .kernelAlloc] = some system ∧
      translate system.state.machine.memory 0x200000 regionStart = some 0x100000 ∧
      system.state.machine.frames.isFree 0x100 = false ∧
      (system.state.unmapAndFree 0x200000 regionStart 1).machine.frames.isFree 0x100 = true := by
  have enabled : ∃ system ∈ Transition.run (step 0x200000) (start emptyTables)
      [.allocAndMap 1 .writable .kernelAlloc, .mapMmio 0xFEE00020 0x20,
        .unmapAndFree regionStart 1, .allocAndMap 1 .writable .kernelAlloc],
      translate system.state.machine.memory 0x200000 regionStart = some 0x100000 ∧
      ∃ live ∈ system.live, live.owned = true ∧ live.region.base = regionStart ∧
        live.region.size = 0x1000 := by decide +kernel
  obtain ⟨system, reached, backed, live, member, owned, base, size⟩ := enabled
  obtain ⟨-, -, -, held, returned⟩ := regions_backed_along_runs emptyTables_wellFormed
    (fun x _ _ => emptyTables_vacant x) reached
  have first : live.span.Contains regionStart := by
    rw [LiveRegion.span, base, size]
    decide
  obtain ⟨i, there, busy, _⟩ := held live member owned regionStart first
  obtain rfl : i = 0x100 := by
    rw [backed, Option.some.injEq] at there
    simp only [pageSize, regionStart] at there
    omega
  have freed := (returned live member owned 0x100).mpr (.inr ⟨regionStart, first, backed⟩)
  rw [base, size] at freed
  exact ⟨system, reached, backed, busy, freed⟩

end VmmSystem

end CantayaOS.Memory
