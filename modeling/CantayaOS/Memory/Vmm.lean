import CantayaOS.Lib.Coalesce
import CantayaOS.Lib.Transition

/-!
# Virtual ranges of the dynamic kernel region

The virtual memory manager hands out ranges of the dynamic region, best fit
from a sorted free list and otherwise from a bump pointer, and coalesces a
range that comes back with its two neighbours.  The ranges that callers hold
and the ranges on the free list tile the region below the bump pointer in
every run.  Sums wrap, as in the release profile.  Flags and kind of a region
are not kept: no decision reads them.
-/

namespace CantayaOS.Memory

open Lib Span List Option

/-- The bump pointer and the free list of the manager. -/
structure Vmm where
  nextVaddr : Nat
  freeRegions : List Span
  deriving DecidableEq

variable {size : Nat} {left right : List Span} {range : Span}

namespace Vmm

def regionStart : Nat := 0xFFFFFFFFA0000000

def regionEnd : Nat := 0xFFFFFFFFC0000000

def init : Vmm := ⟨regionStart, []⟩

/-- The search loop over the free list, with the best index and its waste so far. -/
def bestFit (size : Nat) : List Span → Nat → Option Nat → Nat → Option Nat
  | [], _, bestIdx, _ => bestIdx
  | region :: rest, i, bestIdx, bestWaste =>
    if size ≤ region.size ∧ region.size - size < bestWaste then
      bestFit size rest (i + 1) (some i) (region.size - size)
    else
      bestFit size rest (i + 1) bestIdx bestWaste

/-- Take the front of the region at the index; an exact fit disappears from the list. -/
def carve (regions : List Span) (idx : Nat) (region : Span) (size : Nat) : List Span :=
  if region.size = size then
    regions.eraseIdx idx
  else
    regions.set idx ⟨(region.base + size) % 2 ^ 64, region.size - size⟩

def allocVirtualRange (vmm : Vmm) (size : Nat) : Option Nat × Vmm :=
  match (bestFit size vmm.freeRegions 0 none (2 ^ 64 - 1)).bind (fun idx =>
      vmm.freeRegions[idx]?.map fun region => (idx, region)) with
  | some (idx, region) =>
    (some region.base, { vmm with freeRegions := carve vmm.freeRegions idx region size })
  | none =>
    let newNext := (vmm.nextVaddr + size) % 2 ^ 64
    if newNext > regionEnd then
      (none, vmm)
    else
      (some vmm.nextVaddr, { vmm with nextVaddr := newNext })

/-- Merge the region at the index with the one behind it when the two touch. -/
def coalesceAt (regions : List Span) (i : Nat) : List Span :=
  match regions[i]?, regions[i + 1]? with
  | some current, some next =>
    if (current.base + current.size) % 2 ^ 64 = next.base then
      (regions.set i ⟨current.base, (current.size + next.size) % 2 ^ 64⟩).eraseIdx (i + 1)
    else
      regions
  | _, _ => regions

def freeVirtualRange (vmm : Vmm) (vaddr size : Nat) : Vmm :=
  let pos := vmm.freeRegions.findIdx fun region => decide (region.base > vaddr)
  let inserted := vmm.freeRegions.insertIdx pos ⟨vaddr, size⟩
  let merged := coalesceAt inserted pos
  { vmm with freeRegions := if 0 < pos then coalesceAt merged (pos - 1) else merged }

theorem bestFit_sound {whole : List Span} {bestIdx : Option Nat}
    (regions : List Span) (i bestWaste : Nat) (suffix : whole.drop i = regions)
    (before : ∀ idx, bestIdx = some idx → ∃ region, whole[idx]? = some region ∧ size ≤ region.size)
    {idx : Nat} (found : bestFit size regions i bestIdx bestWaste = some idx) :
    ∃ region, whole[idx]? = some region ∧ size ≤ region.size := by
  induction regions generalizing i bestIdx bestWaste with
  | nil => exact before idx found
  | cons region rest ih =>
    have here : whole[i]? = some region := by
      have head := congrArg (·[0]?) suffix
      simpa using head
    have later : whole.drop (i + 1) = rest := by
      rw [← tail_drop, suffix, tail_cons]
    unfold bestFit at found
    split at found
    next fits =>
      refine ih (i + 1) _ later ?_ found
      intro _ same
      cases same
      exact ⟨region, here, fits.1⟩
    next => exact ih (i + 1) _ later before found

/-- The search finds a region once one of them is large enough. -/
theorem bestFit_isSome (regions : List Span) (i bestWaste : Nat)
    (bestIdx : Option Nat) (enough : bestIdx.isSome ∨
      ∃ region ∈ regions, size ≤ region.size ∧ region.size - size < bestWaste) :
    (bestFit size regions i bestIdx bestWaste).isSome := by
  induction regions generalizing i bestIdx bestWaste with
  | nil => exact enough.resolve_right (by simp)
  | cons region rest ih =>
    unfold bestFit
    split
    next => exact ih (i + 1) _ _ (.inl rfl)
    next unfit =>
      refine ih (i + 1) _ _ (enough.imp_right ?_)
      rintro ⟨other, member, fits⟩
      rcases mem_cons.mp member with rfl | later
      · exact absurd fits unfit
      · exact ⟨other, later, fits⟩

/-- What one allocation does: carve from a region of the free list, bump, or fail unchanged. -/
inductive Outcome (vmm : Vmm) (size : Nat) : Option Nat × Vmm → Prop
  | exact (left right : List Span) (region : Span)
      (list : vmm.freeRegions = left ++ region :: right) (fits : region.size = size) :
      Outcome vmm size (some region.base, { vmm with freeRegions := left ++ right })
  | split (left right : List Span) (region : Span)
      (list : vmm.freeRegions = left ++ region :: right) (larger : size < region.size) :
      Outcome vmm size (some region.base, { vmm with freeRegions :=
        left ++ ⟨(region.base + size) % 2 ^ 64, region.size - size⟩ :: right })
  | bump (unfit : ¬ (bestFit size vmm.freeRegions 0 none (2 ^ 64 - 1)).isSome)
      (room : (vmm.nextVaddr + size) % 2 ^ 64 ≤ regionEnd) :
      Outcome vmm size
        (some vmm.nextVaddr, { vmm with nextVaddr := (vmm.nextVaddr + size) % 2 ^ 64 })
  | exhausted (full : regionEnd < (vmm.nextVaddr + size) % 2 ^ 64) : Outcome vmm size (none, vmm)

theorem allocVirtualRange_outcome (vmm : Vmm) (size : Nat) :
    Outcome vmm size (vmm.allocVirtualRange size) := by
  unfold allocVirtualRange
  split
  next idx region picked =>
    obtain ⟨idx, found, mapped⟩ := bind_eq_some_iff.mp picked
    obtain ⟨region, here, same⟩ := map_eq_some_iff.mp mapped
    cases same
    obtain ⟨_, there, large⟩ := bestFit_sound vmm.freeRegions 0 _ drop_zero
      (by rintro _ ⟨⟩) found
    cases here.symm.trans there
    obtain ⟨inside, rfl⟩ := List.getElem?_eq_some_iff.mp here
    have list : vmm.freeRegions =
        vmm.freeRegions.take idx ++ vmm.freeRegions[idx] :: vmm.freeRegions.drop (idx + 1) := by
      rw [getElem_cons_drop, take_append_drop]
    unfold carve
    split
    next fits =>
      rw [eraseIdx_eq_take_drop_succ]
      exact .exact _ _ _ list fits
    next differs =>
      rw [set_eq_take_append_cons_drop, if_pos inside]
      exact .split _ _ _ list (lt_of_le_of_ne large (Ne.symm differs))
  next unfound =>
    dsimp only
    split
    next full => exact .exhausted full
    next fits =>
      refine .bump (fun found => ?_) (le_of_not_gt fits)
      obtain ⟨idx, found⟩ := isSome_iff_exists.mp found
      obtain ⟨_, there, _⟩ := bestFit_sound vmm.freeRegions 0 _ drop_zero
        (by rintro _ ⟨⟩) found
      rw [found, bind_some, there] at unfound
      cases unfound

/-- The regions are in order and no two of them touch. -/
def Separated (regions : List Span) : Prop :=
  regions.Pairwise fun first second => first.stop < second.base

theorem coalesceAt_last (left : List Span) (region : Span) :
    coalesceAt (left ++ [region]) left.length = left ++ [region] := by
  simp [coalesceAt]

theorem coalesceAt_between (left right : List Span) (current next : Span) :
    coalesceAt (left ++ current :: next :: right) left.length =
      if current.stop % 2 ^ 64 = next.base then
        left ++ ⟨current.base, (current.size + next.size) % 2 ^ 64⟩ :: right
      else
        left ++ current :: next :: right := by
  have here : (left ++ current :: next :: right)[left.length]? = some current := by simp
  have behind : (left ++ current :: next :: right)[left.length + 1]? = some next := by simp
  unfold coalesceAt
  simp only [here, behind]
  refine if_congr .rfl ?_ rfl
  rw [List.set_append_right _ _ le_rfl, Nat.sub_self, List.set_cons_zero,
    List.eraseIdx_append_of_length_le (Nat.le_add_right _ _), Nat.add_sub_cancel_left,
    List.eraseIdx_cons_succ, List.eraseIdx_cons_zero]

/-- Where no sum wraps, the region is coalesced with the one behind it in the list. -/
theorem coalesceAt_eq_mergeNext (left right : List Span) (current : Span)
    (bounded : ∀ region ∈ current :: right, region.stop < 2 ^ 64) :
    coalesceAt (left ++ current :: right) left.length = left ++ mergeNext current right := by
  cases right with
  | nil => exact coalesceAt_last left current
  | cons next right =>
    obtain ⟨here, behind, _⟩ := forall_mem_cons.mp bounded |>.imp_right forall_mem_cons.mp
    rw [coalesceAt_between, Nat.mod_eq_of_lt here, mergeNext]
    by_cases touch : current.stop = next.base
    · have whole : (current.size + next.size) % 2 ^ 64 = current.size + next.size := by
        apply Nat.mod_eq_of_lt
        simp only [stop] at touch behind
        omega
      rw [if_pos touch, if_pos touch, whole]
    · rw [if_neg touch, if_neg touch]

theorem Separated.append {middle : Span} (leftOk : Separated left)
    (rightOk : Separated (middle :: right)) (below : ∀ region ∈ left, region.stop < middle.base) :
    Separated (left ++ middle :: right) := by
  refine pairwise_append.mpr ⟨leftOk, rightOk, fun region member => ?_⟩
  have first := below region member
  refine forall_mem_cons.mpr ⟨first, fun later laterMember => ?_⟩
  have second := (pairwise_cons.mp rightOk).1 later laterMember
  simp only [stop] at first second ⊢
  omega

theorem insertIdx_between (left right : List Span) (range : Span) :
    (left ++ right).insertIdx left.length range = left ++ range :: right := by
  induction left with
  | nil => rfl
  | cons first left ih => exact congrArg (first :: ·) ih

/-- Where no sum wraps, a range that comes back is inserted and coalesced on both sides. -/
theorem freeVirtualRange_eq {vmm : Vmm} (rangeBounded : range.stop < 2 ^ 64)
    (bounded : ∀ region ∈ vmm.freeRegions, region.stop < 2 ^ 64) :
    vmm.freeVirtualRange range.base range.size =
      { vmm with freeRegions := insertSorted vmm.freeRegions range } := by
  have list : vmm.freeRegions.takeWhile (·.base ≤ range.base) ++
      vmm.freeRegions.dropWhile (·.base ≤ range.base) = vmm.freeRegions :=
    takeWhile_append_dropWhile
  have position : vmm.freeRegions.findIdx (fun region => decide (region.base > range.base)) =
      (vmm.freeRegions.takeWhile (·.base ≤ range.base)).length := by
    have test : (fun region : Span => decide (region.base > range.base)) =
        fun region => !decide (region.base ≤ range.base) := by
      funext region
      rw [← decide_not]
      exact decide_eq_decide.mpr not_le.symm
    rw [test, takeWhile_eq_take_findIdx_not, length_take, min_eq_left findIdx_le_length]
  unfold freeVirtualRange insertSorted
  dsimp only
  rw [position]
  generalize vmm.freeRegions.takeWhile (·.base ≤ range.base) = left at list position ⊢
  generalize vmm.freeRegions.dropWhile (·.base ≤ range.base) = right at list ⊢
  rw [← list] at bounded
  obtain ⟨leftBounded, rightBounded⟩ := forall_mem_append.mp bounded
  have behind : ∀ region ∈ range :: right, region.stop < 2 ^ 64 :=
    forall_mem_cons.mpr ⟨rangeBounded, rightBounded⟩
  rw [← list, insertIdx_between, coalesceAt_eq_mergeNext left right range behind]
  rcases eq_nil_or_concat' left with rfl | ⟨left, previous, rfl⟩
  · rfl
  have merged : ∀ region ∈ mergeNext range right, region.stop < 2 ^ 64 := by
    refine forall_mergeNext (fun a b _ bound touch => ?_) behind
    simp only [stop] at touch bound ⊢
    omega
  have last : (left ++ [previous]).length - 1 = left.length := by simp
  rw [if_pos (by simp), insertBlock_snoc, last, append_assoc, singleton_append,
    coalesceAt_eq_mergeNext left _ previous (forall_mem_cons.mpr
      ⟨leftBounded previous (by simp), merged⟩)]

end Vmm

/-- The manager together with the ranges its callers hold. -/
structure VmmClient where
  vmm : Vmm
  live : List Span
  deriving DecidableEq

inductive VmmCall where
  | allocVirtualRange (size : Nat)
  | freeVirtualRange (range : Span)

namespace VmmClient

def start : VmmClient := ⟨Vmm.init, []⟩

/-- A request is nonzero and at most the dynamic region; only a live range is freed. -/
def step (client : VmmClient) : VmmCall → Option VmmClient
  | .allocVirtualRange size =>
    if 0 < size ∧ size ≤ Vmm.regionEnd - Vmm.regionStart then
      let (granted, vmm) := client.vmm.allocVirtualRange size
      some ⟨vmm, (granted.map fun vaddr => Span.mk vaddr size).toList ++ client.live⟩
    else
      none
  | .freeVirtualRange range =>
    if range ∈ client.live then
      some ⟨client.vmm.freeVirtualRange range.base range.size, client.live.erase range⟩
    else
      none

/-- The live and the free ranges cover the region below the bump pointer once, and nothing else. -/
def Tiles (client : VmmClient) : Prop :=
  ∀ x, Span.cover (client.live ++ client.vmm.freeRegions) x =
    if Vmm.regionStart ≤ x ∧ x < client.vmm.nextVaddr then 1 else 0

structure Valid (client : VmmClient) : Prop where
  tiles : client.Tiles
  nonempty : ∀ range ∈ client.live ++ client.vmm.freeRegions, 0 < range.size
  separated : Vmm.Separated client.vmm.freeRegions
  above : Vmm.regionStart ≤ client.vmm.nextVaddr
  below : client.vmm.nextVaddr ≤ Vmm.regionEnd

open Vmm

theorem start_valid : start.Valid where
  tiles x := by
    have empty : ¬ (regionStart ≤ x ∧ x < regionStart) := by omega
    exact (if_neg empty).symm
  nonempty := nofun
  separated := List.Pairwise.nil
  above := le_rfl
  below := by decide

namespace Valid

variable {client : VmmClient} (valid : client.Valid)
include valid

theorem within (member : range ∈ client.live ++ client.vmm.freeRegions) :
    regionStart ≤ range.base ∧ range.stop ≤ client.vmm.nextVaddr := by
  have nonempty := valid.nonempty range member
  have bounds (x : Nat) (inside : range.Contains x) :
      regionStart ≤ x ∧ x < client.vmm.nextVaddr := by
    have covered := cover_pos member inside
    rw [valid.tiles] at covered
    by_contra outside
    rw [if_neg outside] at covered
    exact lt_irrefl 0 covered
  have first := bounds range.base
  have last := bounds (range.stop - 1)
  simp only [Span.Contains, stop] at first last ⊢
  omega

theorem stop_lt (member : range ∈ client.live ++ client.vmm.freeRegions) : range.stop < 2 ^ 64 :=
  lt_of_le_of_lt (le_trans (valid.within member).2 valid.below) (by decide)

theorem pairwise_apart : (client.live ++ client.vmm.freeRegions).Pairwise Span.Apart := by
  refine Span.pairwise_apart fun x => ?_
  rw [valid.tiles]
  split <;> omega

/-- Moving cover between the two lists keeps the invariant. -/
theorem exchange {live free : List Span} (nonempty : ∀ range ∈ live ++ free, 0 < range.size)
    (separated : Vmm.Separated free)
    (same : ∀ x, cover (live ++ free) x =
      cover (client.live ++ client.vmm.freeRegions) x) :
    Valid ⟨{ client.vmm with freeRegions := free }, live⟩ where
  tiles x := (same x).trans (valid.tiles x)
  nonempty := nonempty
  separated := separated
  above := valid.above
  below := valid.below

theorem alloc_exact {region : Span} (list : client.vmm.freeRegions = left ++ region :: right) :
    Valid ⟨{ client.vmm with freeRegions := left ++ right }, region :: client.live⟩ := by
  have members := valid.nonempty
  have separated := valid.separated
  rw [list] at members separated
  refine valid.exchange (fun range member => members range ?_) ?_ fun x => ?_
  · simp only [mem_cons, mem_append] at member ⊢
    tauto
  · exact separated.sublist (by simp)
  · rw [list]
    simp only [cover_append, cover_cons]
    omega

theorem alloc_split {region : Span} (list : client.vmm.freeRegions = left ++ region :: right)
    (positive : 0 < size) (larger : size < region.size) : Valid ⟨{ client.vmm with freeRegions :=
        left ++ ⟨(region.base + size) % 2 ^ 64, region.size - size⟩ :: right },
      ⟨region.base, size⟩ :: client.live⟩ := by
  have bound : region.stop < 2 ^ 64 := valid.stop_lt (by simp [list])
  have members := valid.nonempty
  have separated := valid.separated
  rw [list] at members separated
  have whole : (region.base + size) % 2 ^ 64 = region.base + size := by
    apply Nat.mod_eq_of_lt
    simp only [stop] at bound
    omega
  rw [whole]
  obtain ⟨leftOk, regionRight, across⟩ := List.pairwise_append.mp separated
  obtain ⟨regionBefore, rightOk⟩ := List.pairwise_cons.mp regionRight
  refine valid.exchange ?_ (Vmm.Separated.append leftOk ?_ ?_) fun x => ?_
  · intro range member
    simp only [List.cons_append, List.mem_cons, List.mem_append] at member members
    rcases member with rfl | live | inLeft | rfl | inRight
    · exact positive
    · exact members range (.inl live)
    · exact members range (.inr (.inl inLeft))
    · exact Nat.sub_pos_of_lt larger
    · exact members range (.inr (.inr (.inr inRight)))
  · refine List.pairwise_cons.mpr ⟨fun later member => ?_, rightOk⟩
    have order := regionBefore later member
    simp only [stop] at order ⊢
    omega
  · intro earlier member
    exact Nat.lt_of_lt_of_le (across earlier member region (by simp)) (Nat.le_add_right _ _)
  · have merge := cover_merge region.base size (region.size - size) [] x
    rw [Nat.add_sub_cancel' larger.le] at merge
    change cover [region] x = _ at merge
    rw [list]
    simp only [cover_append, cover_cons] at merge ⊢
    omega

theorem alloc_bump (positive : 0 < size) (small : size ≤ regionEnd - regionStart)
    (room : (client.vmm.nextVaddr + size) % 2 ^ 64 ≤ regionEnd) :
    Valid ⟨{ client.vmm with nextVaddr := (client.vmm.nextVaddr + size) % 2 ^ 64 },
      ⟨client.vmm.nextVaddr, size⟩ :: client.live⟩ := by
  have above := valid.above
  have below := valid.below
  -- The sum stays below the top of the address space, so the bound check is meaningful.
  have whole : (client.vmm.nextVaddr + size) % 2 ^ 64 = client.vmm.nextVaddr + size := by
    apply Nat.mod_eq_of_lt
    simp only [regionEnd, regionStart] at small below
    omega
  rw [whole] at room ⊢
  refine ⟨fun x => ?_, ?_, valid.separated, above.trans (Nat.le_add_right _ _), room⟩
  · have before := valid.tiles x
    simp only [cons_append, cover_cons, Span.Contains, stop]
    grind
  · exact forall_mem_cons.mpr ⟨positive, valid.nonempty⟩

theorem free (held : range ∈ client.live) :
    Valid ⟨client.vmm.freeVirtualRange range.base range.size, client.live.erase range⟩ := by
  have order := perm_cons_erase held
  have apart := (order.append_right client.vmm.freeRegions).pairwise_iff
    (fun first => Span.Apart.symm first) |>.mp valid.pairwise_apart
  have here := mem_append_left client.vmm.freeRegions held
  have positive := valid.nonempty range here
  have nonempty : ∀ region ∈ client.vmm.freeRegions, 0 < region.size :=
    fun region member => valid.nonempty region (mem_append_right _ member)
  have separated : Sorted client.vmm.freeRegions := valid.separated
  rw [freeVirtualRange_eq (valid.stop_lt here)
    fun region member => valid.stop_lt (mem_append_right _ member)]
  refine valid.exchange (forall_mem_append.mpr ⟨fun region member => ?_, ?_⟩)
    (separated.insertSorted nonempty positive fun region member =>
      ((pairwise_cons.mp apart).1 region (mem_append_right _ member)).symm) fun x => ?_
  · exact valid.nonempty region (mem_append_left _ (mem_of_mem_erase member))
  · intro region member
    rcases mem_insertSorted member with listed | ⟨low, high⟩
    · exact nonempty region listed
    · simp only [stop] at high
      omega
  · have moved := cover_perm order x
    simp only [cover_append, cover_cons, cover_insertSorted] at moved ⊢
    omega

end Valid

theorem step_valid {client next : VmmClient} {call : VmmCall} (valid : client.Valid)
    (stepped : client.step call = some next) : next.Valid := by
  cases call with
  | allocVirtualRange size =>
    simp only [step, Option.ite_none_right_eq_some] at stepped
    obtain ⟨request, stepped⟩ := stepped
    have outcome := client.vmm.allocVirtualRange_outcome size
    generalize client.vmm.allocVirtualRange size = result at outcome stepped
    cases outcome with
    | exact left right region list fits =>
      cases stepped
      subst fits
      exact valid.alloc_exact list
    | split left right region list larger =>
      cases stepped
      exact valid.alloc_split list request.1 larger
    | bump unfit room =>
      cases stepped
      exact valid.alloc_bump request.1 request.2 room
    | exhausted full =>
      cases stepped
      exact valid
  | freeVirtualRange range =>
    obtain ⟨held, stepped⟩ := Option.ite_none_right_eq_some.mp stepped
    cases stepped
    exact valid.free held

/--
After every sequence of requests and of frees of live ranges, the live and the
free ranges tile the region below the bump pointer without overlap, the bump
pointer stays in the dynamic region, and the free list is strictly sorted with
no two ranges adjacent.
-/
theorem ranges_tile_dynamic_region {calls : List VmmCall} {client : VmmClient}
    (reached : Transition.run step start calls = some client) :
    client.Tiles ∧ (client.live ++ client.vmm.freeRegions).Pairwise Span.Apart ∧
      client.vmm.nextVaddr ≤ Vmm.regionEnd ∧
      client.vmm.freeRegions.Pairwise (fun first second => first.base < second.base) ∧
      ∀ first ∈ client.vmm.freeRegions, ∀ second ∈ client.vmm.freeRegions,
        first.stop ≠ second.base := by
  have valid : client.Valid :=
    Transition.run_invariant (fun _ _ _ => step_valid) start_valid reached
  refine ⟨valid.tiles, valid.pairwise_apart, valid.below, ?_, ?_⟩
  · exact valid.separated.imp fun before =>
      lt_of_le_of_lt (Nat.le_add_right _ _) before
  · refine fun first firstMember second secondMember =>
      List.Pairwise.forall_of_forall_of_flip (R := fun first second => first.stop ≠ second.base)
        (fun region member => ?_) (valid.separated.imp Nat.ne_of_lt)
        (valid.separated.imp fun before => ?_) firstMember secondMember
    · have positive := valid.nonempty region (mem_append_right _ member)
      simp only [Span.stop]
      omega
    · simp only [Span.stop, flip] at before ⊢
      omega

/--
A request of any 64-bit size is given a range of the dynamic region, or refused without a change,
exactly when a free range is large enough or the sum with the bump pointer does not wrap.
-/
theorem allocVirtualRange_within_region_iff (client : VmmClient) (valid : client.Valid)
    (size : Nat) (word : size < 2 ^ 64) :
    ((∀ vaddr, (client.vmm.allocVirtualRange size).1 = some vaddr →
        Vmm.regionStart ≤ vaddr ∧ vaddr + size ≤ Vmm.regionEnd) ∧
      ((client.vmm.allocVirtualRange size).1 = none →
        (client.vmm.allocVirtualRange size).2 = client.vmm)) ↔
      (∃ region ∈ client.vmm.freeRegions, size ≤ region.size) ∨
        client.vmm.nextVaddr + size < 2 ^ 64 := by
  have above := valid.above
  have below := valid.below
  have top : regionEnd < 2 ^ 64 := by decide
  have reused {left right : List Span} {region : Span}
      (list : client.vmm.freeRegions = left ++ region :: right) (fits : size ≤ region.size) :
      (regionStart ≤ region.base ∧ region.base + size ≤ regionEnd) ∧
        ∃ region ∈ client.vmm.freeRegions, size ≤ region.size := by
    have member : region ∈ client.vmm.freeRegions := by simp [list]
    have bounds := valid.within (mem_append_right _ member)
    simp only [Span.stop] at bounds
    exact ⟨by omega, region, member, fits⟩
  have outcome := client.vmm.allocVirtualRange_outcome size
  generalize client.vmm.allocVirtualRange size = result at outcome ⊢
  cases outcome with
  | exact left right region list fits =>
    obtain ⟨bounds, found⟩ := reused list (le_of_eq fits.symm)
    exact iff_of_true ⟨by rintro _ ⟨⟩; exact bounds, fun absent => by cases absent⟩ (.inl found)
  | split left right region list larger =>
    obtain ⟨bounds, found⟩ := reused list larger.le
    exact iff_of_true ⟨by rintro _ ⟨⟩; exact bounds, fun absent => by cases absent⟩ (.inl found)
  | bump unfit room =>
    have noFit : ¬ ∃ region ∈ client.vmm.freeRegions, size ≤ region.size := by
      rintro ⟨region, member, fits⟩
      have bounds := valid.within (mem_append_right _ member)
      refine unfit (bestFit_isSome _ _ _ _ (.inr ⟨region, member, fits, ?_⟩))
      simp only [Span.stop, regionEnd] at bounds below
      omega
    rw [or_iff_right noFit]
    constructor
    · rintro ⟨inside, _⟩
      have bounds := inside _ rfl
      omega
    · intro whole
      rw [Nat.mod_eq_of_lt whole] at room
      exact ⟨by rintro _ ⟨⟩; exact ⟨above, room⟩, fun absent => by cases absent⟩
  | exhausted full =>
    refine iff_of_true ⟨fun _ found => (by cases found), fun _ => rfl⟩ (.inr ?_)
    omega

/-- A request of one and a half gibibytes wraps the bump pointer to zero and is granted. -/
theorem allocVirtualRange_outside_region :
    start.Valid ∧ Vmm.init.allocVirtualRange 0x60000000 = (some Vmm.regionStart, ⟨0, []⟩) ∧
      ¬ Vmm.regionStart + 0x60000000 ≤ Vmm.regionEnd :=
  ⟨start_valid, by decide, by decide⟩

theorem allocVirtualRange_within_region_page :
    start.Valid ∧ ∀ vaddr, (start.vmm.allocVirtualRange 4096).1 = some vaddr →
      Vmm.regionStart ≤ vaddr ∧ vaddr + 4096 ≤ Vmm.regionEnd :=
  ⟨start_valid, ((allocVirtualRange_within_region_iff start start_valid 4096 (by decide)).mpr
    (.inr (by decide))).1⟩

/-- Two grants, a free in front of a live range, and a smaller grant that splits the freed range. -/
def splitCalls : List VmmCall :=
  [.allocVirtualRange 0x3000, .allocVirtualRange 0x1000,
    .freeVirtualRange ⟨Vmm.regionStart, 0x3000⟩, .allocVirtualRange 0x1000]

def splitClient : VmmClient :=
  ⟨⟨Vmm.regionStart + 0x4000, [⟨Vmm.regionStart + 0x1000, 0x2000⟩]⟩,
    [⟨Vmm.regionStart, 0x1000⟩, ⟨Vmm.regionStart + 0x3000, 0x1000⟩]⟩

theorem ranges_tile_dynamic_region_splitCalls :
    Transition.run step start splitCalls = some splitClient ∧ splitClient.Tiles :=
  have reached : Transition.run step start splitCalls = some splitClient := by decide +kernel
  ⟨reached, (ranges_tile_dynamic_region reached).1⟩

end VmmClient

end CantayaOS.Memory
