import CantayaOS.Memory.PagingRefinement

/-!
# Page tables of user processes

The top-level table of a process owns the tables below its lower half and
shares those below its upper half with the kernel.  Freeing it returns each of
the tables it owns once and nothing else.  The shared half shows the kernel's
mappings as long as the kernel creates no further top-level entry.
-/

namespace CantayaOS.Memory

open Lib PageTableEntry FrameAllocator List Option Function Trie

variable {i : Fin 512} {table vaddr : Nat} {memory : Words} {p : List (Fin 512)}
  {request : PageCall} {flags : PageFlags}

variable {kernelPml4 newPml4 pml4Phys : Nat} {indices : List (Fin 512)}

namespace PageMachine

theorem mem_lowerHalf : i ∈ lowerHalf ↔ i.val < 256 := by
  simp [lowerHalf]

theorem mem_upperHalf : i ∈ upperHalf ↔ 256 ≤ i.val := by
  simp [upperHalf]

/-! ## Creation -/

theorem entryAddr_index {j : Fin 512} (same : entryAddr table i = entryAddr table j) : i = j := by
  unfold entryAddr at same
  exact Fin.ext (by omega)

theorem copyEntries_cons (memory : Words) (newPml4 kernelPml4 : Nat) (i : Fin 512)
    (rest : List (Fin 512)) :
    copyEntries memory newPml4 kernelPml4 (i :: rest) =
      copyEntries (Function.update memory (entryAddr newPml4 i)
        (memory (entryAddr kernelPml4 i))) newPml4 kernelPml4 rest := rfl

theorem copyEntries_of_ne {w : Nat} (other : ∀ i ∈ indices, w ≠ entryAddr newPml4 i) :
    copyEntries memory newPml4 kernelPml4 indices w = memory w := by
  induction indices generalizing memory with
  | nil => rfl
  | cons i rest ih =>
    obtain ⟨here, later⟩ := forall_mem_cons.mp other
    rw [copyEntries_cons, ih later, update_of_ne here]

theorem copyEntries_of_mem (apart : ∀ j k, entryAddr kernelPml4 j ≠ entryAddr newPml4 k)
    (listed : i ∈ indices) :
    copyEntries memory newPml4 kernelPml4 indices (entryAddr newPml4 i) =
      memory (entryAddr kernelPml4 i) := by
  induction indices generalizing memory with
  | nil => cases listed
  | cons j rest ih =>
    rw [copyEntries_cons]
    by_cases later : i ∈ rest
    · rw [ih later, update_of_ne (apart i j)]
    · obtain rfl : i = j := (mem_cons.mp listed).resolve_right later
      rw [copyEntries_of_ne, update_self]
      intro k inside same
      exact later (entryAddr_index same ▸ inside)

/-- What the creation of a top-level table leaves behind. -/
structure Created (machine created : PageMachine) (kernelPml4 user : Nat) : Prop where
  aligned : pageSize ∣ user
  free : machine.frames.isFree (user / pageSize) = true
  frames : ∀ i, created.frames.isFree i = (machine.frames.isFree i && decide (i ≠ user / pageSize))
  lower : ∀ i : Fin 512, i.val < 256 → created.memory (entryAddr user i) = 0
  upper : ∀ i : Fin 512, 256 ≤ i.val →
    created.memory (entryAddr user i) = machine.memory (entryAddr kernelPml4 i)
  elsewhere : ∀ w, w / pageSize ≠ user / pageSize → created.memory w = machine.memory w

variable {machine created : PageMachine} {kernelPml4 user : Nat}

theorem createUserPageTable_created (tree : WellFormed machine kernelPml4)
    (made : machine.createUserPageTable kernelPml4 = (some user, created)) :
    Created machine created kernelPml4 user := by
  unfold createUserPageTable at made
  rcases machine.frames.allocateFrame_cases with ⟨frame, free, taken⟩ | ⟨refused, _⟩
  · rw [taken] at made
    cases made
    have aligned : pageSize ∣ frame * pageSize := Nat.dvd_mul_left _ _
    have number : frame * pageSize / pageSize = frame := Nat.mul_div_cancel _ (by decide)
    have other : kernelPml4 / pageSize ≠ frame := by
      rintro rfl
      exact tree.taken (p := []) rfl free
    have inFrame (i : Fin 512) : entryAddr (frame * pageSize) i / pageSize = frame := by
      rw [entryAddr_div aligned, number]
    have inKernel (i : Fin 512) : entryAddr kernelPml4 i / pageSize ≠ frame := by
      rw [entryAddr_div tree.aligned]
      exact other
    refine ⟨aligned, by rwa [number], ?_, ?_, ?_, ?_⟩
    · intro i
      rw [number]
      exact isFree_takeFrame machine.frames frame i
    · intro i low
      dsimp only
      rw [copyEntries_of_ne, zeroFrame_of_eq aligned (by rw [inFrame, number])]
      intro j high same
      rw [mem_upperHalf, ← entryAddr_index same] at high
      omega
    · intro i high
      dsimp only
      rw [copyEntries_of_mem _ (mem_upperHalf.mpr high),
        zeroFrame_of_ne aligned (by rw [number]; exact inKernel i)]
      intro j k same
      apply inKernel j
      rw [same, inFrame]
    · intro w outside
      rw [number] at outside
      dsimp only
      rw [copyEntries_of_ne, zeroFrame_of_ne aligned (by rwa [number])]
      rintro j _ rfl
      exact outside (inFrame j)
  · rw [refused] at made
    cases made

namespace Created

variable (made : Created machine created kernelPml4 user)
include made

theorem not_free : created.frames.isFree (user / pageSize) = false := by
  rw [made.frames]
  simp

theorem kept {i : Nat} (free : created.frames.isFree i = true) :
    machine.frames.isFree i = true := by
  rw [made.frames, Bool.and_eq_true] at free
  exact free.1

variable (tree : WellFormed machine kernelPml4)
include tree

theorem kernel_apart (led : pageTrie.nodeAt machine.memory 0 kernelPml4 p = some table) :
    table / pageSize ≠ user / pageSize := by
  intro same
  apply tree.taken led
  rw [same]
  exact made.free

theorem kernel_slot
    (led : pageTrie.nodeAt machine.memory 0 kernelPml4 p = some table) (i : Fin 512) :
    created.memory (entryAddr table i) = machine.memory (entryAddr table i) := by
  apply made.elsewhere
  rw [entryAddr_div (table_aligned tree.aligned led)]
  exact made.kernel_apart tree led

theorem kernel_nodeAt (p : List (Fin 512)) :
    pageTrie.nodeAt created.memory 0 kernelPml4 p =
      pageTrie.nodeAt machine.memory 0 kernelPml4 p :=
  (walk_congr fun _ i _ _ _ led => made.kernel_slot tree led i).1

theorem kernel_tree : WellFormed created kernelPml4 := by
  refine ⟨?_, tree.aligned, ?_⟩
  · intro p q table left right
    rw [made.kernel_nodeAt tree] at left right
    exact tree.unique left right
  · intro p table led free
    rw [made.kernel_nodeAt tree] at led
    exact tree.taken led (made.kept free)

omit tree in
theorem nodeAt_lower (low : i.val < 256) (p : List (Fin 512)) :
    pageTrie.nodeAt created.memory 0 user (i :: p) = none := by
  simp only [nodeAt, pageTrie_slot, made.lower i low, decode_absent not_isPresent_zero]

theorem nodeAt_upper (high : 256 ≤ i.val) (p : List (Fin 512)) :
    pageTrie.nodeAt created.memory 0 user (i :: p) =
      pageTrie.nodeAt machine.memory 0 kernelPml4 (i :: p) := by
  have same : created.memory (entryAddr user i) = created.memory (entryAddr kernelPml4 i) := by
    rw [made.upper i high, made.kernel_slot tree (p := []) rfl]
  rw [← made.kernel_nodeAt tree]
  simp only [nodeAt, pageTrie_slot, same]

theorem kernel_of_nodeAt (led : pageTrie.nodeAt created.memory 0 user p = some table) :
    p = [] ∧ table = user ∨ pageTrie.nodeAt machine.memory 0 kernelPml4 p = some table := by
  cases p with
  | nil =>
    cases led
    exact .inl ⟨rfl, rfl⟩
  | cons i p =>
    by_cases low : i.val < 256
    · rw [made.nodeAt_lower low] at led
      cases led
    · rw [made.nodeAt_upper tree (not_lt.mp low)] at led
      exact .inr led

theorem user_tree : WellFormed created user := by
  refine ⟨?_, made.aligned, ?_⟩
  · intro p q table left right
    rcases made.kernel_of_nodeAt tree left with ⟨rfl, rfl⟩ | leftOld
    · rcases made.kernel_of_nodeAt tree right with ⟨rfl, _⟩ | rightOld
      · rfl
      · exact (made.kernel_apart tree rightOld rfl).elim
    · rcases made.kernel_of_nodeAt tree right with ⟨rfl, rfl⟩ | rightOld
      · exact (made.kernel_apart tree leftOld rfl).elim
      · exact tree.unique leftOld rightOld
  · intro p table led free
    rcases made.kernel_of_nodeAt tree led with ⟨rfl, rfl⟩ | old
    · rw [made.not_free] at free
      cases free
    · exact tree.taken old (made.kept free)

end Created

/-- The addresses that freeing a user table passes to the allocator, in this order. -/
def freedTables (memory : Words) (pml4Phys : Nat) : List Nat :=
  pageTrie.postorder memory (fun depth => if depth = 0 then lowerHalf else List.finRange 512)
    3 0 pml4Phys

/-- The three nested loops free the tables of the list one after the other. -/
theorem freeUserPageTable_eq (machine : PageMachine) (pml4Phys : Nat) :
    machine.freeUserPageTable pml4Phys = { machine with
      frames := (freedTables machine.memory pml4Phys).foldl freeFrame
        machine.frames } := by
  unfold freeUserPageTable freedTables
  simp only [Trie.postorder, foldl_append, foldl_flatMap, Nat.reduceEqDiff]
  congr 3
  funext frames i
  cases top : isPresent (machine.memory (entryAddr pml4Phys i)) with
  | false => simp [pageTrie, top]
  | true =>
    simp only [pageTrie, top, Bool.not_true, Bool.false_eq_true, if_false, foldl_append,
      foldl_flatMap]
    congr 2
    funext frames j
    generalize address (machine.memory (entryAddr pml4Phys i)) = pdp
    cases present : isPresent (machine.memory (entryAddr pdp j)) with
    | false => simp
    | true =>
      cases huge : isHuge (machine.memory (entryAddr pdp j)) with
      | true => simp
      | false =>
        simp only [Bool.not_true, Bool.or_false, Bool.false_eq_true, if_false, foldl_append,
          foldl_flatMap]
        congr 2
        funext frames k
        generalize machine.memory
          (entryAddr (address (machine.memory (entryAddr pdp j))) k) = pde
        cases isPresent pde <;> cases isHuge pde <;> simp

theorem mem_freedTables : table ∈ freedTables memory pml4Phys ↔ ∃ p, (∀ i ∈ p.head?, i.val < 256) ∧
        pageTrie.nodeAt memory 0 pml4Phys p = some table := by
  unfold freedTables
  rw [mem_postorder]
  constructor
  · rintro ⟨p, _, listed, led⟩
    refine ⟨p, fun i first => mem_lowerHalf.mp ?_, led⟩
    rw [head?_eq_getElem?] at first
    simpa using listed 0 i first
  · rintro ⟨p, low, led⟩
    refine ⟨p, nodeAt_length led, fun k i at_k => ?_, led⟩
    cases k with
    | zero =>
      rw [← head?_eq_getElem?] at at_k
      simpa [mem_lowerHalf] using low i at_k
    | succ k => simp

theorem nodup_freedTables {machine : PageMachine}
    (tree : WellFormed machine pml4Phys) : (freedTables machine.memory pml4Phys).Nodup := by
  refine nodup_postorder (fun depth => ?_) tree.unique
  split
  · exact (nodup_finRange 512).filter _
  · exact nodup_finRange 512

/-! ## The tables that a process owns -/

theorem pml4Index_lower (low : vaddr < 2 ^ 47) : (pml4Index vaddr).val < 256 := by
  simp only [pml4Index, index_eq]
  omega

theorem pml4Index_upper (high : 0xFFFF800000000000 ≤ vaddr)
    (bounded : vaddr < 2 ^ 64) : 256 ≤ (pml4Index vaddr).val := by
  simp only [pml4Index, index_eq]
  omega

/--
The machine while the table is in use, and the frames that would be free without
it: those that are free and those of the root and of the tables below its lower half.
-/
structure UserSystem where
  machine : PageMachine
  spare : Nat → Bool

/-- A call on the table, or calls of other clients that leave the allocator as given. -/
inductive UserEvent where
  | page (request : PageCall)
  | others (frames : FrameAllocator)

/-- A call on a page of the lower half; the frames that are mapped are those of other clients. -/
def OnLowerHalf (spare : Nat → Bool) : PageCall → Prop
  | .mapPage vaddr phys flags => vaddr < 2 ^ 47 ∧ (PageCall.mapPage vaddr phys flags).Aligned ∧
      spare (phys / pageSize) = false
  | .unmapPage vaddr | .updateFlags vaddr _ => vaddr < 2 ^ 47 ∧ pageSize ∣ vaddr

instance (spare : Nat → Bool) : ∀ request, Decidable (OnLowerHalf spare request)
  | .mapPage _ _ _ => inferInstanceAs (Decidable (_ ∧ _ ∧ _))
  | .unmapPage _ | .updateFlags _ _ => inferInstanceAs (Decidable (_ ∧ _))

theorem OnLowerHalf.aligned {spare : Nat → Bool} :
    ∀ {request : PageCall}, OnLowerHalf spare request → request.Aligned
  | .mapPage _ _ _, inside => inside.2.1
  | .unmapPage _, inside | .updateFlags _ _, inside => inside.2

def lowerStep (user : Nat) (system : UserSystem) : UserEvent → Option UserSystem
  | .page request =>
    if OnLowerHalf system.spare request then
      some { system with machine := (system.machine.call user request).2 }
    else none
  | .others frames =>
    some ⟨{ system.machine with frames }, fun i =>
      if frames.isFree i = system.machine.frames.isFree i then system.spare i else frames.isFree i⟩

/-- Other clients free no table and no mapped frame. -/
def Spares (user : Nat) (system : UserSystem) : UserEvent → Prop
  | .page _ => True
  | .others frames => ∀ i, system.machine.frames.isFree i = false → frames.isFree i = true →
      (∀ p, pageTrie.nodeAt system.machine.memory 0 user p ≠ some (i * pageSize)) ∧
        ∀ vaddr < 2 ^ 47, ∀ mapping, mappings system.machine.memory user (pageOf vaddr) =
          some mapping → mapping.frame / pageSize ≠ i

/-- The lower half maps whole frames, and none that is spare. -/
def MapsData (memory : Words) (user : Nat) (spare : Nat → Bool) : Prop :=
  ∀ vaddr < 2 ^ 47, ∀ mapping, mappings memory user (pageOf vaddr) = some mapping →
    pageSize ∣ mapping.frame ∧ spare (mapping.frame / pageSize) = false

/-- The tables below the lower half and the root are exactly the spare frames that are not free. -/
structure OwnsLower (user : Nat) (system : UserSystem) : Prop where
  tree : WellFormed system.machine user
  lower : ∀ ⦃p table⦄, (∀ i ∈ p.head?, i.val < 256) →
    pageTrie.nodeAt system.machine.memory 0 user p = some table →
    system.spare (table / pageSize) = true
  upper : ∀ ⦃i p table⦄, 256 ≤ i.val →
    pageTrie.nodeAt system.machine.memory 0 user (i :: p) = some table →
    system.spare (table / pageSize) = false
  kept : ∀ i, system.machine.frames.isFree i = true → system.spare i = true
  taken : ∀ i, system.spare i = true → system.machine.frames.isFree i = true ∨
    ∃ p, pageTrie.nodeAt system.machine.memory 0 user p = some (i * pageSize)
  data : MapsData system.machine.memory user system.spare
  bounded : ∀ i, system.spare i = true → i < maxFrames

variable {origin : PageMachine} {spare : Nat → Bool}

theorem Created.ownsLower (made : Created origin created kernelPml4 user)
    (tree : WellFormed origin kernelPml4) : OwnsLower user ⟨created, origin.frames.isFree⟩ where
  tree := made.user_tree tree
  lower p table low led := by
    cases p with
    | nil =>
      cases led
      exact made.free
    | cons i p =>
      rw [made.nodeAt_lower (low i rfl)] at led
      cases led
  upper i p table high led := by
    rw [made.nodeAt_upper tree high] at led
    exact Bool.eq_false_iff.mpr (tree.taken led)
  kept _ := made.kept
  taken i free := by
    by_cases root : i = user / pageSize
    · refine .inr ⟨[], ?_⟩
      rw [root, Nat.div_mul_cancel made.aligned]
      rfl
    · refine .inl ((made.frames i).trans ?_)
      rw [show origin.frames.isFree i = true from free]
      simpa using root
  bounded _ := isFree_lt
  data vaddr low mapping mapped := by
    rw [mappings, pagePath_page] at mapped
    simp only [pagePath, find, pageTrie_slot, made.lower _ (pml4Index_lower low)] at mapped
    cases mapped

namespace OwnsLower

section

variable {next : PageMachine} (owns : OwnsLower user ⟨machine, spare⟩)
include owns

/-- A call on the lower half maps a data frame or no further frame. -/
theorem data_of_call {reply : PageReply} (inside : OnLowerHalf spare request)
    (called : MapCall (mappings machine.memory user) (request, reply) (mappings next.memory user)) :
    MapsData next.memory user spare := by
  intro vaddr low mapping mapped
  by_cases old : mappings machine.memory user (pageOf vaddr) = some mapping
  · exact owns.data vaddr low mapping old
  generalize mappings next.memory user = after at called mapped
  cases called with
  | mapped target phys flags absent =>
    by_cases same : pageOf vaddr = pageOf target
    · rw [same, update_self] at mapped
      cases mapped
      exact ⟨inside.2.1.2.1, inside.2.2⟩
    · rw [update_of_ne same] at mapped
      exact absurd mapped old
  | unmapped target frame present =>
    by_cases same : pageOf vaddr = pageOf target
    · rw [same, update_self] at mapped
      cases mapped
    · rw [update_of_ne same] at mapped
      exact absurd mapped old
  | notMapped | notUnmapped | updated | notUpdated => exact absurd mapped old

section

variable (data : MapsData next.memory user spare)
include data

theorem grow (low : vaddr < 2 ^ 47) (grown : Extends machine next user (pagePath vaddr) flags) :
    OwnsLower user ⟨next, spare⟩ where
  tree := grown.tree
  lower p table lowPath led := by
    rcases grown.fresh led with old | ⟨_, _, free⟩
    · exact owns.lower lowPath old
    · exact owns.kept _ free
  upper i p table high led := by
    rcases grown.fresh led with old | ⟨inside, _, _⟩
    · exact owns.upper high old
    have first : i = pml4Index vaddr := by
      obtain ⟨rest, shape⟩ := inside
      exact (List.cons.inj shape).1
    have below := pml4Index_lower low
    omega
  kept i free := owns.kept i (grown.kept i free)
  taken i free := by
    rcases owns.taken i free with still | ⟨p, led⟩
    · exact grown.taken i still
    · exact .inr ⟨p, grown.nodes led⟩
  data := data
  bounded := owns.bounded

theorem rewrites (written : Rewrites machine next user vaddr) : OwnsLower user ⟨next, spare⟩ where
  tree := written.wellFormed owns.tree
  lower p table low led := owns.lower low ((written.nodeAt_eq owns.tree p).symm.trans led)
  upper i p table high led := owns.upper high ((written.nodeAt_eq owns.tree _).symm.trans led)
  kept i free := owns.kept i (written.frames_eq ▸ free)
  taken i free := by
    dsimp only
    rw [written.frames_eq]
    simp only [written.nodeAt_eq owns.tree]
    exact owns.taken i free
  data := data
  bounded := owns.bounded

end

theorem call (inside : OnLowerHalf spare request) :
    OwnsLower user ⟨(machine.call user request).2, spare⟩ := by
  have data := owns.data_of_call inside (call_simulates owns.tree inside.aligned rfl).1
  cases request with
  | mapPage vaddr phys flags =>
    exact owns.grow data inside.1 (mapPage_extends owns.tree rfl)
  | unmapPage vaddr => exact owns.rewrites data (unmapPage_rewrites machine user vaddr)
  | updateFlags vaddr newFlags =>
    exact owns.rewrites data (updateFlags_rewrites machine user vaddr newFlags)

/-- Other clients take and free frames of their own. -/
theorem interfere {frames : FrameAllocator} (spares : Spares user ⟨machine, spare⟩ (.others frames)) :
    OwnsLower user ⟨{ machine with frames }, fun i =>
      if frames.isFree i = machine.frames.isFree i then spare i else frames.isFree i⟩ := by
  -- the frame of a table is as free as before
  have node {p : List (Fin 512)} {table : Nat}
      (led : pageTrie.nodeAt machine.memory 0 user p = some table) :
      frames.isFree (table / pageSize) = machine.frames.isFree (table / pageSize) := by
    have busy := Bool.eq_false_iff.mpr (owns.tree.taken led)
    rw [busy]
    by_contra free
    refine (spares _ busy (Bool.eq_true_of_not_eq_false free)).1 p ?_
    rwa [Nat.div_mul_cancel (table_aligned owns.tree.aligned led)]
  refine ⟨⟨owns.tree.unique, owns.tree.aligned, fun p table led => ?_⟩, fun p table low led => ?_,
    fun i p table high led => ?_, fun i free => ?_, fun i free => ?_,
    fun vaddr low mapping mapped => ?_, fun i free => ?_⟩
  · exact (node led).symm ▸ owns.tree.taken led
  · exact (if_pos (node led)).trans (owns.lower low led)
  · exact (if_pos (node led)).trans (owns.upper high led)
  · by_cases same : frames.isFree i = machine.frames.isFree i
    · exact (if_pos same).trans (owns.kept i (same ▸ free))
    · exact (if_neg same).trans free
  · by_cases same : frames.isFree i = machine.frames.isFree i
    · exact same ▸ owns.taken i ((if_pos same).symm.trans free)
    · exact .inl ((if_neg same).symm.trans free)
  · obtain ⟨aligned, busy⟩ := owns.data vaddr low mapping mapped
    refine ⟨aligned, ?_⟩
    by_cases same : frames.isFree (mapping.frame / pageSize) =
      machine.frames.isFree (mapping.frame / pageSize)
    · exact (if_pos same).trans busy
    refine (if_neg same).trans (Bool.eq_false_of_not_eq_true fun free => ?_)
    rw [free] at same
    exact (spares _ (Bool.eq_false_of_not_eq_true (Ne.symm same)) free).2 vaddr low mapping mapped rfl
  · by_cases same : frames.isFree i = machine.frames.isFree i
    · exact owns.bounded i ((if_pos same).symm.trans free)
    · exact isFree_lt ((if_neg same).symm.trans free)

/-- The tables that are freed are the spare frames that are not free. -/
theorem mem_freedTables_iff (table : Nat) :
    table ∈ freedTables machine.memory user ↔
      pageSize ∣ table ∧ spare (table / pageSize) = true ∧
        machine.frames.isFree (table / pageSize) = false := by
  rw [mem_freedTables]
  constructor
  · rintro ⟨p, low, led⟩
    exact ⟨table_aligned owns.tree.aligned led, owns.lower low led,
      Bool.eq_false_iff.mpr (owns.tree.taken led)⟩
  · rintro ⟨aligned, free, busy⟩
    rcases owns.taken _ free with still | ⟨p, led⟩
    · cases busy.symm.trans still
    rw [Nat.div_mul_cancel aligned] at led
    refine ⟨p, fun i first => ?_, led⟩
    cases p with
    | nil => cases first
    | cons j p =>
      cases first
      by_contra high
      cases (owns.upper (not_lt.mp high) led).symm.trans free

end

theorem step {system next : UserSystem} {event : UserEvent} (owns : OwnsLower user system)
    (spares : Spares user system event) (stepped : lowerStep user system event = some next) :
    OwnsLower user next := by
  cases event with
  | page request =>
    obtain ⟨inside, rfl⟩ := ite_some_none_eq_some.mp stepped
    exact owns.call inside
  | others frames =>
    cases stepped
    exact owns.interfere spares

end OwnsLower

/--
Freeing a user table after any calls on its lower half passes the top-level
table and every table that those calls allocated to the allocator once.  The
mapped frames and the tables below the shared upper half are not among them.
The frames that are free afterwards are those that were free before the table
was created, but for what other clients have taken and freed since.
-/
theorem freeUserPageTable_frees_owned_once {origin created last : PageMachine} {spare : Nat → Bool}
    {kernelPml4 user : Nat} {events : List UserEvent} (tree : origin.WellFormed kernelPml4)
    (made : origin.createUserPageTable kernelPml4 = (some user, created))
    (ran : Transition.run (lowerStep user) ⟨created, origin.frames.isFree⟩ events =
      some ⟨last, spare⟩)
    (spares : Transition.Meets (lowerStep user) (Spares user) ⟨created, origin.frames.isFree⟩
      events) :
    last.freeUserPageTable user = { last with
        frames := (freedTables last.memory user).foldl FrameAllocator.freeFrame last.frames } ∧
      (freedTables last.memory user).Nodup ∧ user ∈ freedTables last.memory user ∧
      (∀ table, table ∈ freedTables last.memory user ↔
        pageSize ∣ table ∧ spare (table / pageSize) = true ∧
          last.frames.isFree (table / pageSize) = false) ∧
      (∀ vaddr < 2 ^ 47, ∀ phys, translate last.memory user vaddr = some phys →
        ∀ table ∈ freedTables last.memory user, phys / pageSize ≠ table / pageSize) ∧
      (∀ i p table, 256 ≤ i.val → pageTrie.nodeAt last.memory 0 user (i :: p) = some table →
        table ∉ freedTables last.memory user) ∧
      (∀ i, (last.freeUserPageTable user).frames.isFree i = spare i) ∧
      ((∀ event ∈ events, ∃ request, event = .page request) → spare = origin.frames.isFree) := by
  have owns : OwnsLower user ⟨last, spare⟩ :=
    Transition.run_preserves (fun _ _ _ => OwnsLower.step)
      ((createUserPageTable_created tree made).ownsLower tree) spares ran
  have members := owns.mem_freedTables_iff
  refine ⟨freeUserPageTable_eq last user, nodup_freedTables owns.tree,
    mem_freedTables.mpr ⟨[], nofun, rfl⟩, members, ?_, ?_, ?_, ?_⟩
  · intro vaddr low phys translated table freed same
    rw [translate_eq_mappings] at translated
    obtain ⟨mapping, mapped, rfl⟩ := Option.map_eq_some_iff.mp translated
    obtain ⟨⟨number, frame⟩, busy⟩ := owns.data vaddr low mapping mapped
    have offset : (mapping.frame + vaddr % pageSize) / pageSize = mapping.frame / pageSize := by
      rw [frame]
      unfold pageSize
      omega
    rw [← offset, same] at busy
    cases busy.symm.trans ((members table).mp freed).2.1
  · intro i p table high led freed
    cases (owns.upper high led).symm.trans ((members table).mp freed).2.1
  · intro i
    rw [freeUserPageTable_eq, Bool.eq_iff_iff, isFree_foldl_freeFrame, List.mem_map]
    constructor
    · rintro (free | ⟨⟨table, freed, rfl⟩, _⟩)
      · exact owns.kept i free
      · exact ((members table).mp freed).2.1
    · intro free
      have number : i * pageSize / pageSize = i := Nat.mul_div_cancel _ (by decide)
      cases still : last.frames.isFree i with
      | true => exact .inl rfl
      | false =>
        refine .inr ⟨⟨i * pageSize, (members _).mpr ?_, number⟩, owns.bounded i free⟩
        rw [number]
        exact ⟨Nat.dvd_mul_left _ _, free, still⟩
  · intro pages
    have kept (system : UserSystem) (event : UserEvent) (next : UserSystem)
        (same : system.spare = origin.frames.isFree) (page : ∃ request, event = .page request)
        (stepped : lowerStep user system event = some next) :
        next.spare = origin.frames.isFree := by
      obtain ⟨request, rfl⟩ := page
      obtain ⟨_, rfl⟩ := ite_some_none_eq_some.mp stepped
      exact same
    have same := Transition.run_preserves kept rfl
      (Transition.meets_of_forall (fun event member _ => pages event member) _) ran
    exact same

theorem emptyTables_created :
    emptyTables.createUserPageTable 0x200000 =
      (some 0x100000, (emptyTables.createUserPageTable 0x200000).2) :=
  Prod.ext (by decide +kernel) rfl

theorem fiveFrames_created :
    fiveFrames.createUserPageTable 0x200000 =
      (some 0x100000, (fiveFrames.createUserPageTable 0x200000).2) :=
  Prod.ext (by decide +kernel) rfl

/-- Another client takes a frame, which is mapped.  All frames but this one are freed. -/
theorem freeUserPageTable_frees_owned_once_mapped :
    ∃ created last spare, fiveFrames.createUserPageTable 0x200000 = (some 0x100000, created) ∧
      Transition.run (lowerStep 0x100000) ⟨created, fiveFrames.frames.isFree⟩
        [.others created.frames.allocateFrame.2, .page (.mapPage 0x400000 0x101000 .writable)] =
          some ⟨last, spare⟩ ∧
      translate last.memory 0x100000 0x400000 = some 0x101000 ∧
      (freedTables last.memory 0x100000).Nodup ∧
      ∀ i ∈ List.range' 0x100 5,
        (last.freeUserPageTable 0x100000).frames.isFree i = decide (i ≠ 0x101) := by
  have seen : ∃ last ∈ Transition.run (lowerStep 0x100000)
      ⟨(fiveFrames.createUserPageTable 0x200000).2, fiveFrames.frames.isFree⟩
      [.others (fiveFrames.createUserPageTable 0x200000).2.frames.allocateFrame.2,
        .page (.mapPage 0x400000 0x101000 .writable)],
      translate last.machine.memory 0x100000 0x400000 = some 0x101000 ∧
        ∀ i ∈ List.range' 0x100 5, last.spare i = decide (i ≠ 0x101) := by decide +kernel
  obtain ⟨⟨last, spare⟩, ran, mapped, spares⟩ := seen
  have alone : Spares 0x100000
      ⟨(fiveFrames.createUserPageTable 0x200000).2, fiveFrames.frames.isFree⟩
      (.others (fiveFrames.createUserPageTable 0x200000).2.frames.allocateFrame.2) := by
    intro i busy free
    rcases (fiveFrames.createUserPageTable 0x200000).2.frames.allocateFrame_cases with
      ⟨j, _, taken⟩ | ⟨refused, _⟩
    · rw [taken, isFree_takeFrame, busy] at free
      cases free
    · cases busy.symm.trans ((congrArg (·.2.isFree i) refused).symm.trans free)
  obtain ⟨-, once, -, -, -, -, free, -⟩ := freeUserPageTable_frees_owned_once
    fiveFrames_wellFormed fiveFrames_created ran ⟨alone, fun _ _ => ⟨trivial, fun _ _ => trivial⟩⟩
  exact ⟨_, last, spare, fiveFrames_created, ran, mapped, once, fun i member =>
    (free i).trans (spares i member)⟩

/-! ## The shared upper half -/

def OnUpperHalf (request : PageCall) : Prop :=
  request.Aligned ∧ 0xFFFF800000000000 ≤ request.vaddr ∧ request.vaddr < 2 ^ 64

instance (request : PageCall) : Decidable (OnUpperHalf request) :=
  inferInstanceAs (Decidable (_ ∧ _ ∧ _))

/-- One call on the upper half of the kernel's tables. -/
def upperStep (kernelPml4 : Nat) (machine : PageMachine) (request : PageCall) :
    Option PageMachine :=
  if OnUpperHalf request then some (machine.call kernelPml4 request).2 else none

/-- A page is mapped only below a top-level entry that the user table has a copy of. -/
def UnderCopiedEntry (created : PageMachine) (user : Nat) : PageCall → Prop
  | .mapPage vaddr _ _ => isPresent (created.memory (entryAddr user (pml4Index vaddr))) = true
  | .unmapPage _ | .updateFlags _ _ => True

instance (created : PageMachine) (user : Nat) :
    ∀ request, Decidable (UnderCopiedEntry created user request)
  | .mapPage _ _ _ => inferInstanceAs (Decidable (_ = true))
  | .unmapPage _ | .updateFlags _ _ => inferInstanceAs (Decidable True)

/-- The two top-level tables hold the same entries for the upper half. -/
structure SharesUpper (created : PageMachine) (kernelPml4 user : Nat) (machine : PageMachine) :
    Prop where
  tree : WellFormed machine kernelPml4
  aligned : pageSize ∣ user
  busy : machine.frames.isFree (user / pageSize) = false
  apart : ∀ p table, pageTrie.nodeAt machine.memory 0 kernelPml4 p = some table →
    user / pageSize ≠ table / pageSize
  copied : ∀ i : Fin 512, 256 ≤ i.val →
    machine.memory (entryAddr user i) = created.memory (entryAddr user i)
  shared : ∀ i : Fin 512, 256 ≤ i.val →
    machine.memory (entryAddr kernelPml4 i) = created.memory (entryAddr user i)

theorem Created.sharesUpper (made : Created machine created kernelPml4 user)
    (tree : WellFormed machine kernelPml4) : SharesUpper created kernelPml4 user created where
  tree := made.kernel_tree tree
  aligned := made.aligned
  busy := made.not_free
  apart p table led := by
    rw [made.kernel_nodeAt tree] at led
    exact (made.kernel_apart tree led).symm
  copied _ _ := rfl
  shared i high := by
    rw [made.upper i high, made.kernel_slot tree (p := []) rfl]

namespace SharesUpper

variable {next : PageMachine} (shares : SharesUpper created kernelPml4 user machine)
include shares

theorem user_outside (i : Fin 512)
    (led : pageTrie.nodeAt machine.memory 0 kernelPml4 p = some table) :
    entryAddr user i / pageSize ≠ table / pageSize := by
  rw [entryAddr_div shares.aligned]
  exact shares.apart p table led

theorem grow (high : 256 ≤ (pml4Index vaddr).val)
    (present : isPresent (created.memory (entryAddr user (pml4Index vaddr))) = true)
    (grown : Extends machine next kernelPml4 (pagePath vaddr) flags) :
    SharesUpper created kernelPml4 user next where
  tree := grown.tree
  aligned := shares.aligned
  busy := by
    cases free : next.frames.isFree (user / pageSize) with
    | false => rfl
    | true => rw [← shares.busy, grown.kept _ free]
  apart p table led := by
    rcases grown.fresh led with old | ⟨_, _, free⟩
    · exact shares.apart p table old
    · intro same
      rw [← same, shares.busy] at free
      cases free
  copied i upper := by
    rw [grown.outside _ (by rw [entryAddr_div shares.aligned]; exact shares.busy)
      (fun p table led => shares.user_outside i led), shares.copied i upper]
  shared i upper := by
    rw [grown.slots (p := []) rfl, shares.shared i upper]
    by_cases own : i = pml4Index vaddr
    · subst own
      rw [shares.shared _ high]
      exact .inr present
    · refine .inl fun inside => own ?_
      obtain ⟨rest, shape⟩ := inside
      exact (List.cons.inj shape).1

theorem rewrites (written : Rewrites machine next kernelPml4 vaddr) :
    SharesUpper created kernelPml4 user next where
  tree := written.wellFormed shares.tree
  aligned := shares.aligned
  busy := written.frames_eq ▸ shares.busy
  apart p table led := shares.apart p table ((written.nodeAt_eq shares.tree p).symm.trans led)
  copied i upper := by
    rw [written.outside shares.tree fun p table led => shares.user_outside i led,
      shares.copied i upper]
  shared i upper := by
    rw [written.slot_eq shares.tree (p := []) (by decide) rfl, shares.shared i upper]

theorem step (under : UnderCopiedEntry created user request)
    (stepped : upperStep kernelPml4 machine request = some next) :
    SharesUpper created kernelPml4 user next := by
  obtain ⟨inside, stepped⟩ := ite_none_right_eq_some.mp stepped
  cases stepped
  cases request with
  | mapPage vaddr phys flags =>
    exact shares.grow (pml4Index_upper inside.2.1 inside.2.2) under
      (mapPage_extends shares.tree rfl)
  | unmapPage vaddr => exact shares.rewrites (unmapPage_rewrites machine kernelPml4 vaddr)
  | updateFlags vaddr newFlags =>
    exact shares.rewrites (updateFlags_rewrites machine kernelPml4 vaddr newFlags)

theorem translate_eq (high : 256 ≤ (pml4Index vaddr).val) :
    translate machine.memory user vaddr = translate machine.memory kernelPml4 vaddr := by
  have same : machine.memory (entryAddr user (pml4Index vaddr)) =
      machine.memory (entryAddr kernelPml4 (pml4Index vaddr)) := by
    rw [shares.copied _ high, shares.shared _ high]
  simp only [translate, same]

/-- Mapping a page below an entry that was not copied is visible to the kernel only. -/
theorem translate_ne {phys : Nat} (inside : OnUpperHalf (.mapPage vaddr phys flags))
    (absent : ¬ UnderCopiedEntry created user (.mapPage vaddr phys flags))
    (mapped : machine.mapPage kernelPml4 vaddr phys flags = (true, next)) :
    translate next.memory user vaddr ≠ translate next.memory kernelPml4 vaddr := by
  have high : 256 ≤ (pml4Index vaddr).val := pml4Index_upper inside.2.1 inside.2.2
  have kept : next.memory (entryAddr user (pml4Index vaddr)) =
      created.memory (entryAddr user (pml4Index vaddr)) := by
    rw [(mapPage_extends shares.tree mapped).outside _
      (by rw [entryAddr_div shares.aligned]; exact shares.busy)
      (fun p table led => shares.user_outside _ led), shares.copied _ high]
  have hidden : translate next.memory user vaddr = none := by
    simp [translate, kept, Bool.eq_false_iff.mpr absent]
  have seen := shares.tree.contract.mapped vaddr phys flags next inside.1 mapped 0 (by decide)
  rw [add_zero] at seen
  rw [hidden, seen]
  exact (some_ne_none _).symm

end SharesUpper

/--
In every run of calls on the upper half of the kernel's tables that maps pages
only below top-level entries present when the user table was created, the user
table translates every upper-half address as the kernel does.  The next page
that is mapped below another entry breaks this.
-/
theorem upper_half_shared_along_runs {machine created last : PageMachine}
    {kernelPml4 user : Nat} {calls : List PageCall} (tree : machine.WellFormed kernelPml4)
    (made : machine.createUserPageTable kernelPml4 = (some user, created))
    (ran : Transition.run (upperStep kernelPml4) created calls = some last)
    (under : ∀ request ∈ calls, UnderCopiedEntry created user request) :
    (∀ vaddr, 0xFFFF800000000000 ≤ vaddr → vaddr < 2 ^ 64 →
      translate last.memory user vaddr = translate last.memory kernelPml4 vaddr) ∧
      ∀ vaddr phys flags next, OnUpperHalf (.mapPage vaddr phys flags) →
        ¬ UnderCopiedEntry created user (.mapPage vaddr phys flags) →
        last.mapPage kernelPml4 vaddr phys flags = (true, next) →
        translate next.memory user vaddr ≠ translate next.memory kernelPml4 vaddr := by
  have shares : SharesUpper created kernelPml4 user last :=
    Transition.run_preserves (fun _ _ _ shares under stepped => shares.step under stepped)
      ((createUserPageTable_created tree made).sharesUpper tree)
      (Transition.meets_of_forall (fun request member _ => under request member) created) ran
  refine ⟨?_, ?_⟩
  · intro vaddr high bounded
    exact shares.translate_eq (pml4Index_upper high bounded)
  · intro vaddr phys flags next inside absent mapped
    exact shares.translate_ne inside absent mapped

/-- Empty tables at 2 MiB, with eight free frames from 1 MiB on. -/
def blankTables : PageMachine :=
  ⟨fun _ => 0, FrameAllocator.init ⟨[⟨0x100000, 0x8000, .usable⟩], by decide⟩⟩

/-- The tables with one page of the kernel's image mapped. -/
def kernelTables : PageMachine :=
  (blankTables.mapPage 0x200000 0xFFFFFFFF80000000 0x5000 .writable).2

theorem kernelTables_wellFormed : kernelTables.WellFormed 0x200000 := by
  have blank : blankTables.WellFormed 0x200000 :=
    TableTree.empty (fun _ => rfl) (by decide) (by decide +kernel)
  exact (mapPage_extends blank (Prod.eta _).symm).tree

theorem kernelTables_created :
    kernelTables.createUserPageTable 0x200000 =
      (some 0x103000, (kernelTables.createUserPageTable 0x200000).2) :=
  Prod.ext (by decide +kernel) rfl

/-- The kernel maps another page of its image, which the user table shows. -/
theorem upper_half_shared_along_runs_image :
    ∃ last, Transition.run (upperStep 0x200000) (kernelTables.createUserPageTable 0x200000).2
        [.mapPage 0xFFFFFFFFA0000000 0x6000 .writable] = some last ∧
      translate last.memory 0x103000 0xFFFFFFFFA0000000 =
        translate last.memory 0x200000 0xFFFFFFFFA0000000 := by
  refine ⟨_, (Option.some_get (by decide +kernel)).symm, ?_⟩
  exact (upper_half_shared_along_runs kernelTables_wellFormed kernelTables_created
    (Option.some_get _).symm (by decide +kernel)).1 _ (by decide) (by decide)

/--
A page that the kernel maps below a top-level entry of its own making is mapped
for the kernel only.
-/
theorem new_top_entry_not_shared :
    kernelTables.WellFormed 0x200000 ∧
      ∃ created last, kernelTables.createUserPageTable 0x200000 = (some 0x103000, created) ∧
        Transition.run (upperStep 0x200000) created
          [.mapPage 0xFFFF800000000000 0x6000 .writable] = some last ∧
        translate last.memory 0x200000 0xFFFF800000000000 = some 0x6000 ∧
        translate last.memory 0x103000 0xFFFF800000000000 = none := by
  refine ⟨kernelTables_wellFormed, _, _, kernelTables_created,
    (Option.some_get (by decide +kernel)).symm, ?_⟩
  decide +kernel

end PageMachine

end CantayaOS.Memory
