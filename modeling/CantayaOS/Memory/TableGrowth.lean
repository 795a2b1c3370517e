import CantayaOS.Memory.PageTrie

/-!
# How page tables grow

Walking to a page creates the tables that are missing on the way.  Each of them
is made of a frame that was free, no lookup notices it, and no other word in
use changes.
-/

namespace CantayaOS.Memory

open Lib PageTableEntry FrameAllocator List Function

variable {frame vaddr : Nat} {first second third : PageMachine} {flags : PageFlags}

namespace PageMachine

/-- The tables form a tree, and the frames of all tables are taken from the allocator. -/
def WellFormed (machine : PageMachine) (pml4Phys : Nat) : Prop :=
  TableTree machine.memory pml4Phys fun table =>
    machine.frames.isFree (table / pageSize) = true

variable {machine next : PageMachine} {pml4Phys table : Nat} {p : List (Fin 512)}
  {index : Fin 512}

def tableFlags (flags : PageFlags) : PageFlags :=
  (PageFlags.present.union .writable).union (flags.inter .user)

theorem tableFlags_and (flags : PageFlags) {mask : Nat} (notUser : 4 &&& mask = 0) :
    (tableFlags flags).bits &&& mask = 3 &&& mask := by
  have both : PageFlags.present.bits ||| PageFlags.writable.bits = 3 := rfl
  have user : PageFlags.user.bits = 4 := rfl
  simp only [tableFlags, PageFlags.union, PageFlags.inter, both, user]
  rw [Nat.and_or_distrib_right, Nat.and_assoc, notUser, Nat.and_zero, Nat.or_zero]

theorem decode_new {depth : Nat} (inner : depth < 3) (aligned : pageSize ∣ frame)
    (bounded : frame < 2 ^ 52) (flags : PageFlags) :
    pageTrie.decode depth (set frame (tableFlags flags)) = .node frame := by
  have present : isPresent (set frame (tableFlags flags)) = true :=
    isPresent_set _ _ (tableFlags_and flags (by decide))
  have small : isHuge (set frame (tableFlags flags)) = false := by
    have bit : PageFlags.hugePage.bits = 128 := rfl
    unfold isHuge
    rw [set_and_bits _ _ (by decide), tableFlags_and flags (by decide)]
    rfl
  have level : depth = 0 ∨ depth = 1 ∨ depth = 2 := by omega
  rcases level with rfl | rfl | rfl <;>
    simp [pageTrie, present, small, address_set aligned bounded]

theorem takeFrame_available {fa : FrameAllocator} {table : Nat}
    (free : (fa.takeFrame frame).2.isFree (table / pageSize) = true) :
    fa.isFree (table / pageSize) = true ∧ table ≠ frame * pageSize := by
  rw [isFree_takeFrame] at free
  refine ⟨by simp_all, ?_⟩
  rintro rfl
  rw [Nat.mul_div_cancel _ (by decide)] at free
  simp at free

def Exhausted (machine : PageMachine) : Prop :=
  ∀ i < machine.frames.totalFrames, machine.frames.isFree i = false

/--
What creating entries along a path does.  The tables that exist stay, with all
present entries; a new table is made of a free frame and a new entry above the
last level points to one; and a frame that is free no longer has become a
table.
-/
structure Extends (machine next : PageMachine) (pml4Phys : Nat) (path : List (Fin 512))
    (flags : PageFlags) : Prop where
  tree : WellFormed next pml4Phys
  nodes : ∀ ⦃p table⦄, pageTrie.nodeAt machine.memory 0 pml4Phys p = some table →
    pageTrie.nodeAt next.memory 0 pml4Phys p = some table
  fresh : ∀ ⦃p table⦄, pageTrie.nodeAt next.memory 0 pml4Phys p = some table →
    pageTrie.nodeAt machine.memory 0 pml4Phys p = some table ∨
      p <+: path ∧ p ≠ [] ∧ machine.frames.isFree (table / pageSize) = true
  slots : ∀ ⦃p table index⦄, pageTrie.nodeAt machine.memory 0 pml4Phys p = some table →
    ¬ (p ++ [index]) <+: path ∨ isPresent (machine.memory (entryAddr table index)) = true →
    next.memory (entryAddr table index) = machine.memory (entryAddr table index)
  entries : ∀ ⦃p table index⦄, pageTrie.nodeAt next.memory 0 pml4Phys p = some table →
    p.length < 3 → isPresent (next.memory (entryAddr table index)) = true →
    pageTrie.nodeAt machine.memory 0 pml4Phys p = some table ∧
        next.memory (entryAddr table index) = machine.memory (entryAddr table index) ∨
      ∃ frame, next.memory (entryAddr table index) = set frame (tableFlags flags)
  outside : ∀ w, machine.frames.isFree (w / pageSize) = false →
    (∀ p table, pageTrie.nodeAt machine.memory 0 pml4Phys p = some table →
      w / pageSize ≠ table / pageSize) →
    next.memory w = machine.memory w
  kept : ∀ i, next.frames.isFree i = true → machine.frames.isFree i = true
  taken : ∀ i, machine.frames.isFree i = true →
    next.frames.isFree i = true ∨
      ∃ p, pageTrie.nodeAt next.memory 0 pml4Phys p = some (i * pageSize)

namespace Extends

variable {path : List (Fin 512)} {flags : PageFlags}

theorem refl (tree : WellFormed machine pml4Phys) :
    Extends machine machine pml4Phys path flags where
  tree := tree
  nodes _ _ led := led
  fresh _ _ led := .inl led
  slots _ _ _ _ _ := rfl
  entries _ _ _ led _ _ := .inl ⟨led, rfl⟩
  outside _ _ _ := rfl
  kept _ free := free
  taken _ free := .inl free

theorem trans (left : Extends first second pml4Phys path flags)
    (right : Extends second third pml4Phys path flags) :
    Extends first third pml4Phys path flags where
  tree := right.tree
  nodes _ _ led := right.nodes (left.nodes led)
  fresh p table led := by
    rcases right.fresh led with old | ⟨inside, below, free⟩
    · exact left.fresh old
    · exact .inr ⟨inside, below, left.kept _ free⟩
  slots p table index led why := by
    have same := left.slots led why
    rw [← same, right.slots (left.nodes led)]
    rw [same]
    exact why
  entries p table index led inner present := by
    rcases right.entries led inner present with ⟨old, same⟩ | new
    · rw [same] at present ⊢
      exact left.entries old inner present
    · exact .inr new
  outside w busy apart := by
    rw [right.outside w, left.outside w busy apart]
    · cases free : second.frames.isFree (w / pageSize) with
      | false => rfl
      | true => rw [← busy, left.kept _ free]
    · intro p table led same
      rcases left.fresh led with old | ⟨_, _, free⟩
      · exact apart p table old same
      · rw [← same, busy] at free
        cases free
  kept i free := left.kept i (right.kept i free)
  taken i free := by
    rcases left.taken i free with still | ⟨p, led⟩
    · exact right.taken i still
    · exact .inr ⟨p, right.nodes led⟩

theorem mono {longer : List (Fin 512)} (grown : Extends machine next pml4Phys path flags)
    (shorter : path <+: longer) : Extends machine next pml4Phys longer flags :=
  { grown with
    fresh := fun _ _ led => (grown.fresh led).imp_right fun ⟨inside, below, free⟩ =>
      ⟨inside.trans shorter, below, free⟩
    slots := fun _ _ _ led why => grown.slots led
      (why.imp_left fun off inside => off (inside.trans shorter)) }

end Extends

/-- The tables of a path were created, and no lookup changed. -/
structure Grows (machine next : PageMachine) (pml4Phys : Nat) (path : List (Fin 512))
    (flags : PageFlags) : Prop extends Extends machine next pml4Phys path flags where
  find_eq : ∀ path, pageTrie.find next.memory 0 pml4Phys path =
    pageTrie.find machine.memory 0 pml4Phys path

variable {path : List (Fin 512)}

theorem Grows.refl
    (tree : WellFormed machine pml4Phys) : Grows machine machine pml4Phys path flags :=
  ⟨Extends.refl tree, fun _ => rfl⟩

theorem Grows.trans (left : Grows first second pml4Phys path flags)
    (right : Grows second third pml4Phys path flags) : Grows first third pml4Phys path flags :=
  ⟨left.toExtends.trans right.toExtends, fun path =>
    (right.find_eq path).trans (left.find_eq path)⟩

/-- An available frame that is installed as a table under an entry of its own. -/
theorem grows_of_installs (flags : PageFlags)
    (tree : WellFormed machine pml4Phys) (free : machine.frames.isFree frame = true)
    (here : pageTrie.nodeAt machine.memory 0 pml4Phys p = some table)
    (absent : isPresent (machine.memory (entryAddr table index)) = false)
    (inner : p.length < 3) (onPath : (p ++ [index]) <+: path) :
    Grows machine
        ⟨update (zeroFrame machine.memory (frame * pageSize)) (entryAddr table index)
          (set (frame * pageSize) (tableFlags flags)), (machine.frames.takeFrame frame).2⟩
        pml4Phys path flags ∧
      pageTrie.nodeAt
        (update (zeroFrame machine.memory (frame * pageSize)) (entryAddr table index)
          (set (frame * pageSize) (tableFlags flags))) 0 pml4Phys (p ++ [index]) =
        some (frame * pageSize) := by
  have aligned : pageSize ∣ frame * pageSize := Nat.dvd_mul_left _ _
  have number : frame * pageSize / pageSize = frame := Nat.mul_div_cancel _ (by decide)
  have bounded : frame * pageSize < 2 ^ 52 := by
    have low := isFree_lt free
    unfold maxFrames pageSize at *
    omega
  have available : machine.frames.isFree (frame * pageSize / pageSize) = true := by
    rw [number]
    exact free
  have installs := tree.installs here absent aligned available
    (decode_new inner aligned bounded flags)
  have avoids {q : List (Fin 512)} {y : Nat} {j : Fin 512}
      (led : pageTrie.nodeAt machine.memory 0 pml4Phys q = some y)
      (why : ¬ (q ++ [j]) <+: path ∨ isPresent (machine.memory (entryAddr y j)) = true) :
      entryAddr y j ≠ entryAddr table index := by
    intro clash
    obtain ⟨rfl, rfl⟩ := tree.distinct led here clash
    rcases why with off | present
    · exact off onPath
    · rw [clash, absent] at present
      cases present
  refine ⟨⟨⟨?_, ?_, ?_, ?_, ?_, ?_, ?_, ?_⟩, installs.find_eq tree.distinct⟩,
    installs.nodeAt_new tree.distinct⟩
  · exact (tree.install available installs).mono fun _ => takeFrame_available
  · intro q y led
    rcases installs.nodeAt_cases tree.distinct q with ⟨rfl, _⟩ | ⟨_, same⟩
    · obtain ⟨z, reached, decoded⟩ := Trie.nodeAt_snoc_eq_some.mp led
      rw [here] at reached
      cases reached
      rw [pageTrie_slot, decode_absent absent] at decoded
      cases decoded
    · rw [same, led]
  · intro q y led
    rcases installs.nodeAt_inv tree.distinct led with old | ⟨rfl, rfl⟩
    · exact .inl old
    · exact .inr ⟨onPath, by simp, available⟩
  · intro q y j led why
    exact installs.same led (avoids led why)
  · intro q y j led _ present
    dsimp only at present ⊢
    by_cases written : entryAddr y j = entryAddr table index
    · rw [written, update_self]
      exact .inr ⟨_, rfl⟩
    rcases installs.nodeAt_inv tree.distinct led with old | ⟨rfl, rfl⟩
    · exact .inl ⟨old, installs.same old written⟩
    · rw [update_of_ne written, zeroFrame_of_eq aligned (entryAddr_div aligned j),
        not_isPresent_zero] at present
      cases present
  · intro w busy apart
    have elsewhere : w ≠ entryAddr table index := by
      rintro rfl
      exact apart p table here (entryAddr_div (table_aligned tree.aligned here) index)
    refine (update_of_ne elsewhere _ _).trans (zeroFrame_of_ne aligned ?_)
    rw [number]
    intro same
    rw [same, free] at busy
    cases busy
  · intro i still
    rw [isFree_takeFrame, Bool.and_eq_true] at still
    exact still.1
  · intro i before
    by_cases taken : i = frame
    · subst taken
      exact .inr ⟨p ++ [index], installs.nodeAt_new tree.distinct⟩
    · rw [isFree_takeFrame, before]
      exact .inl (by simpa using taken)

/--
One level of the walk that creates tables.  No lookup changes; the walk arrives
at a table one level down, or it stops because no frame is left or a huge page
is in the way.
-/
theorem nextTable_cases {checkHuge : Bool} (tree : WellFormed machine pml4Phys)
    (here : pageTrie.nodeAt machine.memory 0 pml4Phys p = some table)
    (level : (p.length = 0 ∧ checkHuge = false) ∨
      ((p.length = 1 ∨ p.length = 2) ∧ checkHuge = true)) (flags : PageFlags)
    (onPath : (p ++ [index]) <+: path) :
    (∃ child next, machine.nextTable checkHuge table index flags = (some child, next) ∧
        Grows machine next pml4Phys path flags ∧
        pageTrie.nodeAt next.memory 0 pml4Phys (p ++ [index]) = some child) ∨
      (∃ next, machine.nextTable checkHuge table index flags = (none, next) ∧
        Grows machine next pml4Phys path flags ∧
        (next.Exhausted ∨
          ∀ rest, pageTrie.find machine.memory 0 pml4Phys (p ++ index :: rest) ≠ none)) := by
  have inner : p.length < 3 := by omega
  cases present : isPresent (machine.memory (entryAddr table index)) with
  | false =>
    simp only [nextTable, present]
    rcases machine.frames.allocateFrame_cases with ⟨frame, free, taken⟩ | ⟨refused, busy⟩
    · have bounded : frame * pageSize < 2 ^ 52 := by
        have low := isFree_lt free
        unfold maxFrames pageSize at *
        omega
      have target := address_set (dvd_mul_left pageSize frame) bounded (tableFlags flags)
      obtain ⟨grows, led⟩ := grows_of_installs flags tree free here present inner onPath
      refine .inl ⟨frame * pageSize, _, ?_, grows, led⟩
      rw [taken]
      exact Prod.ext (congrArg some target) rfl
    · rw [refused]
      exact .inr ⟨machine, rfl, Grows.refl tree, .inl busy⟩
  | true =>
    simp only [nextTable, present]
    cases huge : checkHuge && isHuge (machine.memory (entryAddr table index)) with
    | false =>
      refine .inl ⟨_, machine, rfl, Grows.refl tree, ?_⟩
      refine Trie.nodeAt_snoc_eq_some.mpr ⟨table, here, ?_⟩
      rcases level with ⟨zero, _⟩ | ⟨one | two, rfl⟩
      · simp [pageTrie, zero, present]
      · rw [Bool.true_and] at huge
        simp [pageTrie, one, present, huge]
      · rw [Bool.true_and] at huge
        simp [pageTrie, two, present, huge]
    | true =>
      refine .inr ⟨machine, rfl, Grows.refl tree, .inr ?_⟩
      intro rest
      rw [Trie.find_append here]
      rw [Bool.and_eq_true] at huge
      rcases level with ⟨_, no⟩ | ⟨one | two, _⟩
      · rw [no] at huge
        cases huge.1
      · simp [pageTrie, Trie.find, one, present, huge.2]
      · simp [pageTrie, Trie.find, two, present, huge.2]

/-- The walk of `unmapPage` and `updateFlags` follows the trie. -/
theorem walkToTable_eq (memory : Words) (pml4Phys vaddr : Nat) :
    walkToTable memory pml4Phys vaddr = pageTrie.nodeAt memory 0 pml4Phys (tablePath vaddr) := by
  simp only [walkToTable, tablePath, Trie.nodeAt, pageTrie]
  cases isPresent (memory (entryAddr pml4Phys (pml4Index vaddr)))
  case false => rfl
  generalize address (memory (entryAddr pml4Phys (pml4Index vaddr))) = pdp
  simp only [Bool.not_true, Bool.false_eq_true, if_false]
  cases isPresent (memory (entryAddr pdp (pdpIndex vaddr)))
  case false => rfl
  cases isHuge (memory (entryAddr pdp (pdpIndex vaddr)))
  case true => rfl
  generalize address (memory (entryAddr pdp (pdpIndex vaddr))) = pd
  simp only [Bool.not_true, Bool.or_false, Bool.false_eq_true, if_false]
  cases isPresent (memory (entryAddr pd (pdIndex vaddr)))
  case false => rfl
  cases isHuge (memory (entryAddr pd (pdIndex vaddr))) <;> rfl

/-- What `mapPage` does: it maps the page, or it changes no lookup. -/
theorem mapPage_cases (vaddr : Nat) (tree : WellFormed machine pml4Phys) (phys : Nat)
    (flags : PageFlags) :
    (∃ middle table, Grows machine middle pml4Phys (tablePath vaddr) flags ∧
        pageTrie.nodeAt middle.memory 0 pml4Phys (tablePath vaddr) = some table ∧
        pageTrie.find machine.memory 0 pml4Phys (pagePath vaddr) = none ∧
        machine.mapPage pml4Phys vaddr phys flags = (true, { middle with
          memory := update middle.memory (ptSlot table vaddr)
            (set phys (flags.union .present)) })) ∨
      (∃ next, machine.mapPage pml4Phys vaddr phys flags = (false, next) ∧
        Grows machine next pml4Phys (tablePath vaddr) flags ∧
        (next.Exhausted ∨ pageTrie.find machine.memory 0 pml4Phys (pagePath vaddr) ≠ none)) := by
  have root : pageTrie.nodeAt machine.memory 0 pml4Phys [] = some pml4Phys := rfl
  have first : ([] ++ [pml4Index vaddr]) <+: tablePath vaddr := prefix_append _ _
  have second : ([pml4Index vaddr] ++ [pdpIndex vaddr]) <+: tablePath vaddr :=
    prefix_append [pml4Index vaddr, pdpIndex vaddr] [pdIndex vaddr]
  have third : ([pml4Index vaddr, pdpIndex vaddr] ++ [pdIndex vaddr]) <+: tablePath vaddr :=
    prefix_refl _
  unfold mapPage
  rcases nextTable_cases tree root (.inl ⟨rfl, rfl⟩) flags first with
    ⟨pdp, one, ran, same, here⟩ | ⟨next, ran, same, reason⟩
  · rcases nextTable_cases same.tree here (.inr ⟨.inl rfl, rfl⟩) flags second with
      ⟨pd, two, ran', same', here⟩ | ⟨next, ran', same', reason⟩
    · rcases nextTable_cases same'.tree here (.inr ⟨.inr rfl, rfl⟩) flags third with
        ⟨pt, last, ran'', same'', here⟩ | ⟨next, ran'', same'', reason⟩
      · have total := (same.trans same').trans same''
        have found := find_last here
        simp only [ran, ran', ran'']
        cases present : isPresent (last.memory (entryAddr pt (ptIndex vaddr))) with
        | true =>
          rw [present, total.find_eq] at found
          exact .inr ⟨last, rfl, total, .inr (by rw [found]; exact nofun)⟩
        | false =>
          rw [present, total.find_eq] at found
          exact .inl ⟨last, pt, total, here, found, rfl⟩
      · simp only [ran, ran', ran'']
        refine .inr ⟨next, rfl, (same.trans same').trans same'', reason.imp_right fun found => ?_⟩
        rw [← (same.trans same').find_eq]
        exact found [ptIndex vaddr]
    · simp only [ran, ran']
      refine .inr ⟨next, rfl, same.trans same', reason.imp_right fun found => ?_⟩
      rw [← same.find_eq]
      exact found [pdIndex vaddr, ptIndex vaddr]
  · simp only [ran]
    exact .inr ⟨next, rfl, same, reason.imp_right fun found =>
      found [pdpIndex vaddr, pdIndex vaddr, ptIndex vaddr]⟩

/-- Writing an absent entry of a page changes no table. -/
theorem Extends.writeEntry (grown : Extends machine next pml4Phys (tablePath vaddr) flags)
    (here : pageTrie.nodeAt next.memory 0 pml4Phys (tablePath vaddr) = some table)
    (absent : isPresent (next.memory (ptSlot table vaddr)) = false)
    (entry : PageTableEntry) :
    Extends machine { next with
      memory := update next.memory (ptSlot table vaddr) entry }
      pml4Phys (pagePath vaddr) flags := by
  obtain ⟨writes, _, _⟩ := TableTree.writeEntry grown.tree here entry
  have nodes := writes.nodeAt_eq grown.tree.distinct
  have longer : tablePath vaddr <+: pagePath vaddr := prefix_append _ [ptIndex vaddr]
  refine (grown.mono longer).trans
    ⟨TableTree.writeLeaf grown.tree writes, ?_, ?_, ?_, ?_, ?_, fun _ free => free,
      fun _ free => .inl free⟩
  · intro p x led
    rw [nodes, led]
  · intro p x led
    exact .inl ((nodes p).symm.trans led)
  · intro p x i led why
    refine update_of_ne ?_ _ _
    intro clash
    obtain ⟨rfl, rfl⟩ := grown.tree.distinct led here clash
    rcases why with off | present
    · exact off (prefix_refl _)
    · rw [clash, absent] at present
      cases present
  · intro p x i led inner _
    rw [nodes] at led
    refine .inl ⟨led, update_of_ne ?_ _ _⟩
    intro clash
    obtain ⟨rfl, _⟩ := grown.tree.distinct led here clash
    exact absurd inner (by decide : ¬ 3 < 3)
  · intro w _ apart
    refine update_of_ne ?_ _ _
    rintro rfl
    exact apart _ table here (entryAddr_div (table_aligned grown.tree.aligned here) _)

/-- Mapping a page only creates entries along its path, whether it succeeds or not. -/
theorem mapPage_extends {phys : Nat} {ok : Bool} (tree : WellFormed machine pml4Phys)
    (ran : machine.mapPage pml4Phys vaddr phys flags = (ok, next)) :
    Extends machine next pml4Phys (pagePath vaddr) flags := by
  rcases mapPage_cases vaddr tree phys flags with
    ⟨middle, table, grown, here, unseen, mapped⟩ | ⟨after, failed, grown, _⟩
  · rw [ran] at mapped
    cases mapped
    refine grown.toExtends.writeEntry here ?_ _
    have found := find_last here
    rw [grown.find_eq, unseen] at found
    simpa using found.symm
  · rw [ran] at failed
    cases failed
    exact grown.toExtends.mono (prefix_append _ [ptIndex vaddr])

/-- At most the entry of one page that has a page table was written. -/
def Rewrites (machine next : PageMachine) (pml4Phys vaddr : Nat) : Prop :=
  next = machine ∨ ∃ table entry,
    pageTrie.nodeAt machine.memory 0 pml4Phys (tablePath vaddr) = some table ∧
      next = { machine with
        memory := Function.update machine.memory (entryAddr table (ptIndex vaddr)) entry }

theorem unmapPage_rewrites (machine : PageMachine) (pml4Phys vaddr : Nat) :
    Rewrites machine (machine.unmapPage pml4Phys vaddr).2 pml4Phys vaddr := by
  unfold unmapPage
  rw [walkToTable_eq]
  cases here : pageTrie.nodeAt machine.memory 0 pml4Phys (tablePath vaddr) with
  | none => exact .inl rfl
  | some table =>
    cases present : isPresent (machine.memory (ptSlot table vaddr)) with
    | false => exact .inl (by simp [present])
    | true => exact .inr ⟨table, 0, here, by simp [present]⟩

theorem updateFlags_rewrites (machine : PageMachine) (pml4Phys vaddr : Nat) (newFlags : PageFlags) :
    Rewrites machine (machine.updateFlags pml4Phys vaddr newFlags).2 pml4Phys vaddr := by
  unfold updateFlags
  rw [walkToTable_eq]
  cases here : pageTrie.nodeAt machine.memory 0 pml4Phys (tablePath vaddr) with
  | none => exact .inl rfl
  | some table =>
    cases present : isPresent (machine.memory (ptSlot table vaddr)) with
    | false => exact .inl (by simp [present])
    | true => exact .inr ⟨table, _, here, by simp [present]; rfl⟩

namespace Rewrites

variable {vaddr : Nat} (rewrites : Rewrites machine next pml4Phys vaddr)
include rewrites

theorem frames_eq : next.frames = machine.frames := by
  rcases rewrites with rfl | ⟨_, _, _, rfl⟩ <;> rfl

variable (tree : WellFormed machine pml4Phys)
include tree

theorem nodeAt_eq (p : List (Fin 512)) :
    pageTrie.nodeAt next.memory 0 pml4Phys p = pageTrie.nodeAt machine.memory 0 pml4Phys p := by
  rcases rewrites with rfl | ⟨table, entry, here, rfl⟩
  · rfl
  · exact (TableTree.writeEntry tree here entry).1.nodeAt_eq tree.distinct p

theorem wellFormed : WellFormed next pml4Phys := by
  rcases rewrites with rfl | ⟨table, entry, here, rfl⟩
  · exact tree
  · exact TableTree.writeLeaf tree (TableTree.writeEntry tree here entry).1

theorem slot_eq (inner : p.length < 3)
    (led : pageTrie.nodeAt machine.memory 0 pml4Phys p = some table) (i : Fin 512) :
    next.memory (entryAddr table i) = machine.memory (entryAddr table i) := by
  rcases rewrites with rfl | ⟨pt, entry, here, rfl⟩
  · rfl
  · refine update_of_ne ?_ _ _
    intro clash
    obtain ⟨rfl, _⟩ := tree.distinct led here clash
    exact absurd inner (by decide : ¬ 3 < 3)

theorem outside {w : Nat} (apart : ∀ p table,
      pageTrie.nodeAt machine.memory 0 pml4Phys p = some table →
      w / pageSize ≠ table / pageSize) : next.memory w = machine.memory w := by
  rcases rewrites with rfl | ⟨pt, entry, here, rfl⟩
  · rfl
  · refine update_of_ne ?_ _ _
    rintro rfl
    exact apart _ pt here (entryAddr_div (table_aligned tree.aligned here) _)

end Rewrites

end PageMachine

end CantayaOS.Memory
