import CantayaOS.Memory.FrameRefinement
import CantayaOS.Memory.TableGrowth

/-!
# Page tables refine a partial map

Mapping, unmapping and changing flags refine a partial map from pages to
frames: each changes the mapping of its own page only, also when it fails.
-/

namespace CantayaOS.Memory

open Lib PageTableEntry TableTree PageMachine Option Function Nat

/-- What a page is mapped to: a frame, alone or as part of a huge page. -/
structure Mapping where
  frame : Nat
  huge : Bool

def mappings (memory : Words) (pml4Phys : Nat) (page : Page) : Option Mapping :=
  (pageTrie.find memory 0 pml4Phys (pagePath (page * pageSize))).map fun found =>
    ⟨leafTarget (page * pageSize) found, !found.2.isEmpty⟩

inductive PageCall where
  | mapPage (vaddr phys : Nat) (flags : PageFlags)
  | unmapPage (vaddr : Nat)
  | updateFlags (vaddr : Nat) (newFlags : PageFlags)

inductive PageReply where
  | done (ok : Bool)
  | frame (phys : Option Nat)
  deriving DecidableEq

def PageCall.vaddr : PageCall → Nat
  | .mapPage vaddr _ _ | .unmapPage vaddr | .updateFlags vaddr _ => vaddr

/-- The callers' side: addresses are page aligned and frames are physical addresses. -/
def PageCall.Aligned : PageCall → Prop
  | .mapPage vaddr phys _ => pageSize ∣ vaddr ∧ pageSize ∣ phys ∧ phys < 2 ^ 52
  | .unmapPage vaddr | .updateFlags vaddr _ => pageSize ∣ vaddr

instance : ∀ call : PageCall, Decidable call.Aligned
  | .mapPage _ _ _ => inferInstanceAs (Decidable (_ ∧ _ ∧ _))
  | .unmapPage _ | .updateFlags _ _ => inferInstanceAs (Decidable (_ ∣ _))

inductive MapCall : (Page → Option Mapping) → PageCall × PageReply → (Page → Option Mapping) → Prop
    where
  | mapped {pages : Page → Option Mapping} (vaddr phys : Nat) (flags : PageFlags)
      (absent : pages (pageOf vaddr) = none) :
      MapCall pages (.mapPage vaddr phys flags, .done true)
        (Function.update pages (pageOf vaddr) (some ⟨phys, false⟩))
  | notMapped {pages : Page → Option Mapping} (vaddr phys : Nat) (flags : PageFlags) :
      MapCall pages (.mapPage vaddr phys flags, .done false) pages
  | unmapped {pages : Page → Option Mapping} (vaddr frame : Nat)
      (present : pages (pageOf vaddr) = some ⟨frame, false⟩) :
      MapCall pages (.unmapPage vaddr, .frame (some frame))
        (Function.update pages (pageOf vaddr) none)
  | notUnmapped {pages : Page → Option Mapping} (vaddr : Nat)
      (absent : ∀ frame, pages (pageOf vaddr) ≠ some ⟨frame, false⟩) :
      MapCall pages (.unmapPage vaddr, .frame none) pages
  | updated {pages : Page → Option Mapping} (vaddr frame : Nat) (newFlags : PageFlags)
      (present : pages (pageOf vaddr) = some ⟨frame, false⟩) :
      MapCall pages (.updateFlags vaddr newFlags, .done true) pages
  | notUpdated {pages : Page → Option Mapping} (vaddr : Nat) (newFlags : PageFlags)
      (absent : ∀ frame, pages (pageOf vaddr) ≠ some ⟨frame, false⟩) :
      MapCall pages (.updateFlags vaddr newFlags, .done false) pages

inductive MapTrace : (Page → Option Mapping) → List (PageCall × PageReply) →
    (Page → Option Mapping) → Prop where
  | nil (pages : Page → Option Mapping) : MapTrace pages [] pages
  | cons {first middle last : Page → Option Mapping} {call : PageCall × PageReply}
      {rest : List (PageCall × PageReply)} (here : MapCall first call middle)
      (later : MapTrace middle rest last) : MapTrace first (call :: rest) last

/-! ## Reading the map -/

variable {frame : Nat} {before after : Page → Option Mapping} {ok : Bool} {next : PageMachine}
  {flags : PageFlags}

theorem pagePath_page (vaddr : Nat) : pagePath (pageOf vaddr * pageSize) = pagePath vaddr := by
  rw [pagePath_eq_iff]
  apply Fin.ext
  simp only [pageOf, pageSize]
  omega

theorem leafTarget_nil {page : Nat} (entry : PageTableEntry) :
    leafTarget (page * pageSize) (entry, []) = address entry := by
  have size : leafSize 0 - 1 = 2 ^ 12 - 1 := by decide
  have aligned : page * pageSize % 2 ^ 12 = 0 := mul_mod_left page pageSize
  simp only [leafTarget, List.length_nil, size, and_two_pow_sub_one_eq_mod, aligned, or_zero]

/-- Translation reads the partial map. -/
theorem translate_eq_mappings (memory : Words) (pml4Phys vaddr : Nat) :
    translate memory pml4Phys vaddr =
      (mappings memory pml4Phys (pageOf vaddr)).map fun mapping =>
        mapping.frame + vaddr % pageSize := by
  rw [translate_eq_find, mappings, pagePath_page]
  cases led : pageTrie.find memory 0 pml4Phys (pagePath vaddr) with
  | none => rfl
  | some found => exact congrArg some (leafTarget_page vaddr (Trie.find_rest_lt led))

theorem mappings_eq_single_iff {memory : Words} {pml4Phys vaddr : Nat} :
    mappings memory pml4Phys (pageOf vaddr) = some ⟨frame, false⟩ ↔
      ∃ entry, pageTrie.find memory 0 pml4Phys (pagePath vaddr) = some (entry, []) ∧
        address entry = frame := by
  rw [mappings, pagePath_page]
  constructor
  · intro mapped
    obtain ⟨⟨entry, rest⟩, led, shape⟩ := map_eq_some_iff.mp mapped
    simp only [Mapping.mk.injEq, Bool.not_eq_false'] at shape
    obtain rfl := List.isEmpty_iff.mp shape.2
    exact ⟨entry, led, (leafTarget_nil entry).symm.trans shape.1⟩
  · rintro ⟨entry, led, rfl⟩
    rw [led, map_some, leafTarget_nil]
    rfl

/-- Maps that agree on lookups of other pages and on the changed page agree as updates. -/
theorem mappings_update {before after : Words} {pml4Phys vaddr : Nat} {mapping : Option Mapping}
    (elsewhere : ∀ other, pageOf other ≠ pageOf vaddr →
      pageTrie.find after 0 pml4Phys (pagePath other) =
        pageTrie.find before 0 pml4Phys (pagePath other))
    (here : mappings after pml4Phys (pageOf vaddr) = mapping) :
    mappings after pml4Phys =
      update (mappings before pml4Phys) (pageOf vaddr) mapping := by
  funext page
  have number : pageOf (page * pageSize) = page := by
    apply Fin.ext
    simp only [pageOf, pageSize]
    omega
  by_cases same : page = pageOf vaddr
  · rw [same, update_self, here]
  · rw [update_of_ne same]
    unfold mappings
    rw [elsewhere (page * pageSize) (by rw [number]; exact same)]

theorem mappings_congr {before after : Words} {pml4Phys : Nat}
    (same : ∀ path, pageTrie.find after 0 pml4Phys path = pageTrie.find before 0 pml4Phys path) :
    mappings after pml4Phys = mappings before pml4Phys := by
  funext page
  unfold mappings
  rw [same]

namespace PageMachine

def call (pml4Phys : Nat) (machine : PageMachine) : PageCall → PageReply × PageMachine
  | .mapPage vaddr phys flags =>
    let (ok, next) := machine.mapPage pml4Phys vaddr phys flags
    (.done ok, next)
  | .unmapPage vaddr =>
    let (phys, next) := machine.unmapPage pml4Phys vaddr
    (.frame phys, next)
  | .updateFlags vaddr newFlags =>
    let (ok, next) := machine.updateFlags pml4Phys vaddr newFlags
    (.done ok, next)

/-- One entry of a trace: a call with the value it returns. -/
def step (pml4Phys : Nat) (machine : PageMachine) (entry : PageCall × PageReply) :
    Option PageMachine :=
  let (reply, next) := machine.call pml4Phys entry.1
  if reply = entry.2 then some next else none

variable {machine : PageMachine} {pml4Phys vaddr phys : Nat}

theorem mapPage_simulates (flags : PageFlags)
    (tree : WellFormed machine pml4Phys) (aligned : pageSize ∣ phys) (bounded : phys < 2 ^ 52)
    (ran : machine.mapPage pml4Phys vaddr phys flags = (ok, next)) :
    MapCall (mappings machine.memory pml4Phys) (.mapPage vaddr phys flags, .done ok)
        (mappings next.memory pml4Phys) ∧
      WellFormed next pml4Phys := by
  rcases mapPage_cases vaddr tree phys flags with
    ⟨middle, table, same, here, absent, mapped⟩ | ⟨next', failed, same, _⟩
  · rw [ran] at mapped
    cases mapped
    obtain ⟨writes, elsewhere, found⟩ :=
      writeEntry same.tree here (set phys (flags.union .present))
    refine ⟨?_, writeLeaf same.tree writes⟩
    rw [isPresent_set _ _ (present_union flags)] at found
    have single := mappings_eq_single_iff.mpr ⟨_, found, address_set aligned bounded _⟩
    rw [mappings_update elsewhere single, mappings_congr same.find_eq]
    apply MapCall.mapped
    rw [mappings, pagePath_page, absent, map_none]
  · rw [ran] at failed
    cases failed
    rw [mappings_congr same.find_eq]
    exact ⟨MapCall.notMapped _ _ _, same.tree⟩

/-- The walk to a page's own entry finds it exactly when the page is mapped on its own. -/
theorem walkToTable_cases (memory : Words) (pml4Phys vaddr : Nat) :
    (∃ table, walkToTable memory pml4Phys vaddr = some table ∧
        pageTrie.nodeAt memory 0 pml4Phys (tablePath vaddr) = some table ∧
        isPresent (memory (ptSlot table vaddr)) = true ∧
        mappings memory pml4Phys (pageOf vaddr) =
          some ⟨address (memory (ptSlot table vaddr)), false⟩) ∨
      ((∀ table, walkToTable memory pml4Phys vaddr = some table →
          isPresent (memory (ptSlot table vaddr)) = false) ∧
        ∀ frame, mappings memory pml4Phys (pageOf vaddr) ≠ some ⟨frame, false⟩) := by
  rw [walkToTable_eq]
  cases here : pageTrie.nodeAt memory 0 pml4Phys (tablePath vaddr) with
  | none =>
    refine .inr ⟨fun _ => nofun, fun frame mapped => ?_⟩
    obtain ⟨entry, led, _⟩ := mappings_eq_single_iff.mp mapped
    rw [pagePath_eq] at led
    obtain ⟨table, reached⟩ := Trie.nodeAt_of_find_last led
    rw [here] at reached
    cases reached
  | some table =>
    have last := find_last here
    cases present : isPresent (memory (ptSlot table vaddr)) with
    | true =>
      rw [present] at last
      exact .inl ⟨table, rfl, rfl, present, mappings_eq_single_iff.mpr ⟨_, last, rfl⟩⟩
    | false =>
      rw [present] at last
      refine .inr ⟨fun _ same => Option.some.inj same ▸ present, fun frame mapped => ?_⟩
      obtain ⟨entry, led, _⟩ := mappings_eq_single_iff.mp mapped
      rw [last] at led
      cases led

section

variable (tree : WellFormed machine pml4Phys)
include tree

theorem unmapPage_simulates {frame : Option Nat}
    (ran : machine.unmapPage pml4Phys vaddr = (frame, next)) :
    MapCall (mappings machine.memory pml4Phys) (.unmapPage vaddr, .frame frame)
        (mappings next.memory pml4Phys) ∧
      WellFormed next pml4Phys := by
  unfold unmapPage at ran
  rcases walkToTable_cases machine.memory pml4Phys vaddr with
    ⟨table, walked, here, present, mapped⟩ | ⟨absent, unmapped⟩
  · simp only [walked, present] at ran
    cases ran
    obtain ⟨writes, elsewhere, found⟩ := writeEntry tree here 0
    refine ⟨?_, writeLeaf tree writes⟩
    rw [not_isPresent_zero, if_neg Bool.false_ne_true] at found
    have gone : mappings (update machine.memory (ptSlot table vaddr) 0)
        pml4Phys (pageOf vaddr) = none := by
      rw [mappings, pagePath_page, found, map_none]
    rw [mappings_update elsewhere gone]
    exact MapCall.unmapped _ _ mapped
  · have unchanged : (none, machine) = (frame, next) := by
      rw [← ran]
      split
      · rfl
      next table walked =>
        simp only [absent table walked, Bool.not_false, if_true]
    cases unchanged
    exact ⟨MapCall.notUnmapped _ unmapped, tree⟩

theorem updateFlags_simulates {newFlags : PageFlags}
    (ran : machine.updateFlags pml4Phys vaddr newFlags = (ok, next)) :
    MapCall (mappings machine.memory pml4Phys) (.updateFlags vaddr newFlags, .done ok)
        (mappings next.memory pml4Phys) ∧
      WellFormed next pml4Phys := by
  unfold updateFlags at ran
  rcases walkToTable_cases machine.memory pml4Phys vaddr with
    ⟨table, walked, here, present, mapped⟩ | ⟨absent, unmapped⟩
  · simp only [walked, present] at ran
    cases ran
    obtain ⟨writes, elsewhere, found⟩ := writeEntry tree here
      (set (address (machine.memory (ptSlot table vaddr))) (newFlags.union .present))
    refine ⟨?_, writeLeaf tree writes⟩
    rw [isPresent_set _ _ (present_union newFlags)] at found
    have kept := mappings_eq_single_iff.mpr
      ⟨_, found, address_set (pageSize_dvd_address _) (address_lt _) _⟩
    rw [mappings_update elsewhere kept, ← mapped, update_eq_self]
    exact MapCall.updated _ _ _ mapped
  · have unchanged : (false, machine) = (ok, next) := by
      rw [← ran]
      split
      · rfl
      next table walked =>
        simp only [absent table walked, Bool.not_false, if_true]
    cases unchanged
    exact ⟨MapCall.notUpdated _ _ unmapped, tree⟩

/-- Every call simulates a call on the partial map and keeps the tree well formed. -/
theorem call_simulates {request : PageCall} {reply : PageReply} (aligned : request.Aligned)
    (ran : machine.call pml4Phys request = (reply, next)) :
    MapCall (mappings machine.memory pml4Phys) (request, reply) (mappings next.memory pml4Phys) ∧
      WellFormed next pml4Phys := by
  cases request with
  | mapPage vaddr phys flags =>
    cases ran
    exact mapPage_simulates flags tree aligned.2.1 aligned.2.2 rfl
  | unmapPage vaddr =>
    cases ran
    exact unmapPage_simulates tree rfl
  | updateFlags vaddr newFlags =>
    cases ran
    exact updateFlags_simulates tree rfl

end

theorem step_eq_some {entry : PageCall × PageReply}
    (stepped : machine.step pml4Phys entry = some next) :
    machine.call pml4Phys entry.1 = (entry.2, next) := by
  unfold step at stepped
  split at stepped
  next reply after ran =>
    split at stepped
    next same =>
      cases stepped
      rw [ran, same]
    · cases stepped

theorem run_simulates {trace : List (PageCall × PageReply)} {last : PageMachine}
    (tree : WellFormed machine pml4Phys) (aligned : ∀ entry ∈ trace, entry.1.Aligned)
    (ran : Transition.run (step pml4Phys) machine trace = some last) :
    MapTrace (mappings machine.memory pml4Phys) trace (mappings last.memory pml4Phys) ∧
      WellFormed last pml4Phys := by
  induction trace generalizing machine with
  | nil =>
    cases ran
    exact ⟨.nil _, tree⟩
  | cons entry rest ih =>
    obtain ⟨next, stepped, later⟩ := Transition.run_cons_eq_some ran
    obtain ⟨here, kept⟩ := call_simulates tree (aligned entry (.head _))
      (step_eq_some stepped)
    obtain ⟨traced, final⟩ := ih kept
      (fun other member => aligned other (List.mem_cons_of_mem _ member)) later
    exact ⟨.cons here traced, final⟩

end PageMachine

def PageCall.page : PageCall → Page
  | .mapPage vaddr _ _ | .unmapPage vaddr | .updateFlags vaddr _ => pageOf vaddr

def PageReply.Refused : PageReply → Prop
  | .done ok => ok = false
  | .frame phys => phys = none

/-- A call leaves all other pages alone, and when it fails also its own. -/
theorem MapCall.elsewhere {request : PageCall}
    {reply : PageReply} (called : MapCall before (request, reply) after) {page : Page}
    (other : page ≠ request.page ∨ reply.Refused) : after page = before page := by
  cases called with
  | mapped vaddr phys flags absent =>
    rcases other with other | refused
    · exact update_of_ne other _ _
    · cases refused
  | notMapped => rfl
  | unmapped vaddr frame present =>
    rcases other with other | refused
    · exact update_of_ne other _ _
    · cases refused
  | notUnmapped => rfl
  | updated => rfl
  | notUpdated => rfl

theorem MapCall.mapped_inv {vaddr phys : Nat}
    (called : MapCall before (.mapPage vaddr phys flags, .done true) after) :
    after = update before (pageOf vaddr) (some ⟨phys, false⟩) := by
  cases called
  rfl

theorem MapCall.mapped_absent {vaddr phys : Nat}
    (called : MapCall before (.mapPage vaddr phys flags, .done true) after) :
    before (pageOf vaddr) = none := by
  cases called with
  | mapped _ _ _ absent => exact absent

theorem MapCall.unmapped_inv {vaddr : Nat}
    (called : MapCall before (.unmapPage vaddr, .frame (some frame)) after) :
    before (pageOf vaddr) = some ⟨frame, false⟩ ∧
      after = update before (pageOf vaddr) none := by
  cases called with
  | unmapped vaddr frame present => exact ⟨present, rfl⟩

theorem MapCall.unmap_of_mapped {vaddr : Nat}
    {reply : Option Nat} (called : MapCall before (.unmapPage vaddr, .frame reply) after)
    (mapped : before (pageOf vaddr) = some ⟨frame, false⟩) :
    reply = some frame ∧ after = update before (pageOf vaddr) none := by
  cases called with
  | unmapped _ other present =>
    rw [mapped] at present
    cases present
    exact ⟨rfl, rfl⟩
  | notUnmapped _ absent => exact absurd mapped (absent frame)

theorem MapCall.updated_inv {vaddr : Nat} {newFlags : PageFlags}
    (called : MapCall before (.updateFlags vaddr newFlags, .done ok) after) : after = before := by
  cases called <;> rfl

/-- What the operations do to translation, from a given state of the tables. -/
structure PagingContract (machine : PageMachine) (pml4Phys : Nat) : Prop where
  mapped : ∀ vaddr phys flags next, (PageCall.mapPage vaddr phys flags).Aligned →
    machine.mapPage pml4Phys vaddr phys flags = (true, next) →
    ∀ k < pageSize, translate next.memory pml4Phys (vaddr + k) = some (phys + k)
  unmapped : ∀ vaddr frame next, (PageCall.unmapPage vaddr).Aligned →
    machine.unmapPage pml4Phys vaddr = (some frame, next) →
    ∀ k < pageSize, translate machine.memory pml4Phys (vaddr + k) = some (frame + k) ∧
      translate next.memory pml4Phys (vaddr + k) = none
  updated : ∀ vaddr newFlags ok next, (PageCall.updateFlags vaddr newFlags).Aligned →
    machine.updateFlags pml4Phys vaddr newFlags = (ok, next) →
    ∀ other, translate next.memory pml4Phys other = translate machine.memory pml4Phys other
  elsewhere : ∀ (request : PageCall) reply next, request.Aligned →
    machine.call pml4Phys request = (reply, next) →
    ∀ other, pageOf other ≠ request.page ∨ reply.Refused →
      translate next.memory pml4Phys other = translate machine.memory pml4Phys other

theorem PageMachine.WellFormed.contract {machine : PageMachine} {pml4Phys : Nat}
    (tree : machine.WellFormed pml4Phys) : PagingContract machine pml4Phys := by
  have offset {vaddr k : Nat} (aligned : pageSize ∣ vaddr) (inside : k < pageSize) :
      (vaddr + k) % pageSize = k := by
    rw [add_mod, mod_eq_zero_of_dvd aligned, zero_add, mod_mod, mod_eq_of_lt inside]
  refine ⟨?_, ?_, ?_, ?_⟩
  · intro vaddr phys flags next aligned ran k inside
    obtain ⟨called, _⟩ := mapPage_simulates flags tree aligned.2.1 aligned.2.2 ran
    rw [translate_eq_mappings, pageOf_offset aligned.1 inside, offset aligned.1 inside,
      called.mapped_inv, update_self, map_some]
  · intro vaddr frame next aligned ran k inside
    obtain ⟨called, _⟩ := unmapPage_simulates tree ran
    obtain ⟨present, gone⟩ := called.unmapped_inv
    rw [translate_eq_mappings, translate_eq_mappings, pageOf_offset aligned inside,
      offset aligned inside, present, gone, update_self]
    exact ⟨rfl, rfl⟩
  · intro vaddr newFlags ok next _ ran other
    obtain ⟨called, _⟩ := updateFlags_simulates tree ran
    rw [translate_eq_mappings, translate_eq_mappings, called.updated_inv]
  · intro request reply next aligned ran other different
    obtain ⟨called, _⟩ := call_simulates tree aligned ran
    rw [translate_eq_mappings, translate_eq_mappings, called.elsewhere different]

/--
Refinement of the page tables.  From a well-formed tree every sequence of calls
with aligned addresses is one of a partial map from pages to frames, the tree
stays well formed, translation reads the map, and in every state reached the
operations have their effect on the translation of their own page and none on
that of other pages.
-/
theorem paging_refines_partialMap (machine last : PageMachine) (pml4Phys : Nat)
    (trace : List (PageCall × PageReply)) (tree : machine.WellFormed pml4Phys)
    (aligned : ∀ entry ∈ trace, entry.1.Aligned)
    (ran : Transition.run (PageMachine.step pml4Phys) machine trace = some last) :
    MapTrace (mappings machine.memory pml4Phys) trace (mappings last.memory pml4Phys) ∧
      last.WellFormed pml4Phys ∧
      (∀ vaddr, translate last.memory pml4Phys vaddr =
        (mappings last.memory pml4Phys (pageOf vaddr)).map fun mapping =>
          mapping.frame + vaddr % pageSize) ∧
      PagingContract last pml4Phys := by
  obtain ⟨traced, final⟩ := run_simulates tree aligned ran
  exact ⟨traced, final, translate_eq_mappings last.memory pml4Phys, final.contract⟩

/-- Empty tables at 2 MiB, with four free frames from 1 MiB on. -/
def emptyTables : PageMachine := ⟨fun _ => 0, FrameAllocator.init fourFrameMap⟩

theorem emptyTables_wellFormed : emptyTables.WellFormed 0x200000 :=
  TableTree.empty (fun _ => rfl) (by decide) (by decide +kernel)

/-- Empty tables with one frame more. -/
def fiveFrames : PageMachine :=
  ⟨fun _ => 0, FrameAllocator.init ⟨[⟨0x100000, 0x5000, .usable⟩], by decide⟩⟩

theorem fiveFrames_wellFormed : fiveFrames.WellFormed 0x200000 :=
  TableTree.empty (fun _ => rfl) (by decide) (by decide +kernel)

/-- Mapping a page, changing its flags, and unmapping it again. -/
def mapUnmapTrace : List (PageCall × PageReply) :=
  [(.mapPage 0x400000 0x5000 .writable, .done true), (.updateFlags 0x400000 .user, .done true),
    (.unmapPage 0x400000, .frame (some 0x5000))]

theorem paging_refines_partialMap_mapUnmap :
    ∃ last, Transition.run (PageMachine.step 0x200000) emptyTables mapUnmapTrace = some last ∧
      MapTrace (mappings emptyTables.memory 0x200000) mapUnmapTrace
        (mappings last.memory 0x200000) := by
  refine ⟨_, (Option.some_get (by decide +kernel)).symm, ?_⟩
  have aligned : ∀ entry ∈ mapUnmapTrace, entry.1.Aligned := by decide
  exact (paging_refines_partialMap emptyTables _ 0x200000 mapUnmapTrace emptyTables_wellFormed
    aligned (Option.some_get _).symm).1

end CantayaOS.Memory
