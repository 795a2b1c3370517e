import CantayaOS.Memory.UserTable

/-!
# Access rights of mapped pages

The CPU lets user code reach a page, or write to it, only if the flag is set in
the entries of all levels.  The entries above a page keep the flags of the
mapping that created them, so a page has the rights it was mapped with if every
request for user access finds the entries on its way open to user code.
-/

namespace CantayaOS.Memory

open Lib PageTableEntry PageMachine Trie List Option Function

structure Access where
  user : Bool
  write : Bool
  deriving DecidableEq

namespace Access

def ofEntry (entry : PageTableEntry) : Access :=
  ⟨entry &&& PageFlags.user.bits != 0, entry &&& PageFlags.writable.bits != 0⟩

def ofFlags (flags : PageFlags) : Access := ofEntry flags.bits

/-- The rights that entries of several levels grant together. -/
def combine (entries : List PageTableEntry) : Access :=
  ⟨entries.all fun entry => (ofEntry entry).user, entries.all fun entry => (ofEntry entry).write⟩

end Access

/-- The rights that the CPU derives for an address; `none` if it is not mapped. -/
def cpuAccess (memory : Words) (pml4Phys vaddr : Nat) : Option Access :=
  let pml4e := memory (entryAddr pml4Phys (pml4Index vaddr))
  if !isPresent pml4e then none
  else
    let pdpe := memory (entryAddr (address pml4e) (pdpIndex vaddr))
    if !isPresent pdpe then none
    else if isHuge pdpe then some (Access.combine [pml4e, pdpe])
    else
      let pde := memory (entryAddr (address pdpe) (pdIndex vaddr))
      if !isPresent pde then none
      else if isHuge pde then some (Access.combine [pml4e, pdpe, pde])
      else
        let pte := memory (entryAddr (address pde) (ptIndex vaddr))
        if !isPresent pte then none else some (Access.combine [pml4e, pdpe, pde, pte])

/-- The entries that the CPU reads to translate an address; `none` if it is not mapped. -/
def walkEntries (memory : Words) (pml4Phys vaddr : Nat) : Option (List PageTableEntry) :=
  let pml4e := memory (entryAddr pml4Phys (pml4Index vaddr))
  if !isPresent pml4e then none
  else
    let pdpe := memory (entryAddr (address pml4e) (pdpIndex vaddr))
    if !isPresent pdpe then none
    else if isHuge pdpe then some [pml4e, pdpe]
    else
      let pde := memory (entryAddr (address pdpe) (pdIndex vaddr))
      if !isPresent pde then none
      else if isHuge pde then some [pml4e, pdpe, pde]
      else
        let pte := memory (entryAddr (address pde) (ptIndex vaddr))
        if !isPresent pte then none else some [pml4e, pdpe, pde, pte]

variable {q rest : List (Fin 512)} {i : Fin 512} {table : Nat}

section

variable (memory : Words) (pml4Phys vaddr : Nat)
include memory pml4Phys vaddr

/-- They are the words along the path of the address. -/
theorem walkEntries_eq_words :
    walkEntries memory pml4Phys vaddr =
      (pageTrie.find memory 0 pml4Phys (pagePath vaddr)).map fun _ =>
        pageTrie.words memory 0 pml4Phys (pagePath vaddr) := by
  simp only [walkEntries, pagePath, Trie.find, Trie.words, pageTrie]
  cases isPresent (memory (entryAddr pml4Phys (pml4Index vaddr)))
  case false => rfl
  simp only [Bool.not_true, Bool.false_eq_true, if_false]
  generalize address (memory (entryAddr pml4Phys (pml4Index vaddr))) = pdp
  cases isPresent (memory (entryAddr pdp (pdpIndex vaddr)))
  case false => rfl
  cases isHuge (memory (entryAddr pdp (pdpIndex vaddr)))
  case true => rfl
  simp only [Bool.not_true, Bool.false_eq_true, if_false]
  generalize address (memory (entryAddr pdp (pdpIndex vaddr))) = pd
  cases isPresent (memory (entryAddr pd (pdIndex vaddr)))
  case false => rfl
  cases isHuge (memory (entryAddr pd (pdIndex vaddr)))
  case true => rfl
  simp only [Bool.not_true, Bool.false_eq_true, if_false]
  generalize address (memory (entryAddr pd (pdIndex vaddr))) = pt
  cases isPresent (memory (entryAddr pt (ptIndex vaddr))) <;> rfl

theorem cpuAccess_eq_walk :
    cpuAccess memory pml4Phys vaddr =
      (walkEntries memory pml4Phys vaddr).map Access.combine := by
  simp only [cpuAccess, walkEntries, apply_ite (Option.map Access.combine), map_none, map_some]

/-- The rights are those of the entries that the lookup reads. -/
theorem cpuAccess_eq_words :
    cpuAccess memory pml4Phys vaddr =
      (pageTrie.find memory 0 pml4Phys (pagePath vaddr)).map fun _ =>
        Access.combine (pageTrie.words memory 0 pml4Phys (pagePath vaddr)) := by
  rw [cpuAccess_eq_walk, walkEntries_eq_words, Option.map_map]
  rfl

end

open Access PageFlags

theorem ofEntry_set (phys : Nat) (flags : PageFlags) :
    ofEntry (set phys (flags.union .present)) = ofFlags flags := by
  have user : user.bits = 4 := rfl
  have writable : writable.bits = 2 := rfl
  have present : present.bits = 1 := rfl
  simp only [ofFlags, ofEntry, user, writable, set_and_bits _ _ (by decide :
    addrMask &&& 4 = 0), set_and_bits _ _ (by decide : addrMask &&& 2 = 0), union,
    present, Nat.and_or_distrib_right, (by decide : 1 &&& 4 = 0), (by decide : 1 &&& 2 = 0),
    Nat.or_zero]

theorem ofEntry_table (frame : Nat) (flags : PageFlags) :
    ofEntry (set frame (tableFlags flags)) =
      ⟨(ofFlags flags).user, true⟩ := by
  have user : user.bits = 4 := rfl
  have writable : PageFlags.writable.bits = 2 := rfl
  have both : PageFlags.present.bits ||| PageFlags.writable.bits = 3 := rfl
  have open_ : (tableFlags flags).bits &&& 4 = flags.bits &&& 4 := by
    simp only [tableFlags, union, inter, both, user]
    rw [Nat.and_or_distrib_right, (by decide : 3 &&& 4 = 0), Nat.zero_or, Nat.and_assoc,
      Nat.and_self]
  simp only [ofEntry, user, writable, set_and_bits _ _ (by decide : addrMask &&& 4 = 0),
    set_and_bits _ _ (by decide : addrMask &&& 2 = 0), open_, tableFlags_and flags (by decide : 4
    &&& 2 = 0)]
  rfl

/-- Entries that grant what is asked for leave the last entry to decide. -/
theorem combine_eq_of_last {entries : List PageTableEntry} {last : PageTableEntry} {access : Access}
    (member : last ∈ entries) (grants : ofEntry last = access)
    (above : ∀ entry ∈ entries, entry = last ∨
      (ofEntry entry).write = true ∧
        (access.user = true → (ofEntry entry).user = true)) : Access.combine entries = access := by
  have user : (entries.all fun entry => (ofEntry entry).user) = access.user := by
    rw [Bool.eq_iff_iff, List.all_eq_true]
    constructor
    · intro all
      exact grants ▸ all last member
    · intro asked entry inside
      rcases above entry inside with rfl | ⟨_, opened⟩
      · rw [grants]
        exact asked
      · exact opened asked
  have write : (entries.all fun entry => (ofEntry entry).write) = access.write := by
    rw [Bool.eq_iff_iff, List.all_eq_true]
    constructor
    · intro all
      exact grants ▸ all last member
    · intro asked entry inside
      rcases above entry inside with rfl | ⟨allowed, _⟩
      · rw [grants]
        exact asked
      · exact allowed
  unfold Access.combine
  rw [user, write]

variable {vaddr : Nat}

/-- An index on the path of a page is that of its entry, or it leads to its page table. -/
theorem pagePath_split (shape : pagePath vaddr = q ++ i :: rest) :
    (q = tablePath vaddr ∧ i = ptIndex vaddr) ∨
      (q.length < 3 ∧ ∃ behind, tablePath vaddr = q ++ i :: behind) := by
  have length : q.length + (rest.length + 1) = 4 := by
    rw [← length_cons, ← length_append, ← shape]
    rfl
  cases rest with
  | nil =>
    rw [pagePath_eq] at shape
    obtain ⟨front, last⟩ := append_inj' shape rfl
    exact .inl ⟨front.symm, (List.cons.inj last).1.symm⟩
  | cons j rest =>
    refine .inr ⟨by rw [length_cons] at length; omega, (j :: rest).dropLast, ?_⟩
    have front := congrArg List.dropLast shape
    rw [pagePath_eq, dropLast_concat, dropLast_append_of_ne_nil (cons_ne_nil _ _),
      dropLast_cons_of_ne_nil (cons_ne_nil _ _)] at front
    exact front

theorem head_lower (low : vaddr < 2 ^ 47)
    (shape : pagePath vaddr = q ++ i :: rest) : ∀ j ∈ (q ++ [i]).head?, j.val < 256 := by
  intro j first
  have same : (q ++ [i]).head? = (pagePath vaddr).head? := by
    rw [shape]
    cases q <;> rfl
  rw [same] at first
  cases first
  exact pml4Index_lower low

variable {machine next : PageMachine} {user : Nat}

theorem present_of_find {memory : Words} {pml4Phys : Nat}
    (mapped : pageTrie.find memory 0 pml4Phys (pagePath vaddr) ≠ none)
    (shape : pagePath vaddr = q ++ i :: rest)
    (led : pageTrie.nodeAt memory 0 pml4Phys q = some table) :
    isPresent (memory (entryAddr table i)) = true := by
  obtain ⟨found, hit⟩ := ne_none_iff_exists'.mp mapped
  rw [shape] at hit
  by_contra absent
  exact decode_ne_empty hit led (decode_absent (Bool.eq_false_iff.mpr absent))

theorem PageMachine.Grows.cpuAccess_eq {path : List (Fin 512)} {flags : PageFlags}
    (grown : PageMachine.Grows machine next user path flags) (vaddr : Nat) :
    cpuAccess next.memory user vaddr = cpuAccess machine.memory user vaddr := by
  rw [cpuAccess_eq_words, cpuAccess_eq_words, grown.find_eq]
  by_cases mapped : pageTrie.find machine.memory 0 user (pagePath vaddr) = none
  · rw [mapped]
    rfl
  · rw [(walk_congr ?_).2.2]
    intro q i rest table shape led
    exact grown.slots led (.inr (present_of_find mapped shape led))

theorem cpuAccess_writeEntry {other : Nat} (entry : PageTableEntry) (tree : machine.WellFormed user)
    (here : pageTrie.nodeAt machine.memory 0 user (tablePath vaddr) = some table)
    (different : pageOf other ≠ pageOf vaddr) :
    cpuAccess (Function.update machine.memory (ptSlot table vaddr) entry) user other =
      cpuAccess machine.memory user other := by
  obtain ⟨writes, elsewhere, _⟩ := TableTree.writeEntry tree here entry
  rw [cpuAccess_eq_words, cpuAccess_eq_words, elsewhere other different, (walk_congr ?_).2.2]
  refine slots_elsewhere tree.distinct here writes.same fun inside => different ?_
  rw [← pagePath_eq_iff]
  exact (List.IsPrefix.eq_of_length inside rfl).symm

/-! ## Runs of mappings -/

/-- A user table with the flags that each page was mapped with. -/
structure UserSpace where
  machine : PageMachine
  requested : Page → Option PageFlags

structure MapRequest where
  vaddr : Nat
  phys : Nat
  flags : PageFlags

namespace UserSpace

/-- One call of `mapPage` on a lower-half address; a successful call is recorded. -/
def step (user : Nat) (space : UserSpace) (request : MapRequest) : Option UserSpace :=
  if request.vaddr < 2 ^ 47 then
    match space.machine.mapPage user request.vaddr request.phys request.flags with
    | (true, machine) => some ⟨machine,
        Function.update space.requested (pageOf request.vaddr) (some request.flags)⟩
    | (false, machine) => some { space with machine := machine }
  else none

/--
A request for user access finds the entries that exist on its way open to user
code.
-/
def Open (user : Nat) (space : UserSpace) (request : MapRequest) : Prop :=
  (Access.ofFlags request.flags).user = true →
    ∀ entry ∈ pageTrie.words space.machine.memory 0 user (tablePath request.vaddr),
      isPresent entry = true → (Access.ofEntry entry).user = true

instance (user : Nat) (space : UserSpace) (request : MapRequest) :
    Decidable (Open user space request) :=
  inferInstanceAs (Decidable (_ → ∀ entry ∈ _, _ → _))

/-- Every page of the lower half has the rights that it was mapped with. -/
def Granted (user : Nat) (space : UserSpace) : Prop :=
  ∀ vaddr < 2 ^ 47, cpuAccess space.machine.memory user vaddr =
    (space.requested (pageOf vaddr)).map Access.ofFlags

/-- The invariant: the entries above the pages of the lower half all allow writing. -/
structure Valid (user : Nat) (space : UserSpace) : Prop where
  tree : space.machine.WellFormed user
  granted : space.Granted user
  writable : ∀ ⦃p table index⦄, pageTrie.nodeAt space.machine.memory 0 user p = some table →
    p.length < 3 → (∀ i ∈ (p ++ [index]).head?, i.val < 256) →
    isPresent (space.machine.memory (entryAddr table index)) = true →
    (Access.ofEntry (space.machine.memory (entryAddr table index))).write = true

theorem valid_of_created {origin created : PageMachine} {kernelPml4 : Nat}
    (tree : origin.WellFormed kernelPml4)
    (made : PageMachine.Created origin created kernelPml4 user) :
    Valid user ⟨created, fun _ => none⟩ where
  tree := made.user_tree tree
  granted vaddr low := by
    have empty := made.lower _ (pml4Index_lower low)
    simp [cpuAccess, empty, not_isPresent_zero]
  writable p table index led _ low present := by
    cases p with
    | nil =>
      cases led
      rw [made.lower index (low index rfl)] at present
      cases present
    | cons i p =>
      rw [made.nodeAt_lower (low i rfl)] at led
      cases led

namespace Valid

variable {space : UserSpace} {vaddr phys : Nat} {flags : PageFlags}
  (valid : space.Valid user)
include valid

theorem writable_after (grown : PageMachine.Extends space.machine next user (pagePath vaddr) flags)
    {p : List (Fin 512)} {index : Fin 512} (led : pageTrie.nodeAt next.memory 0 user p = some table)
    (inner : p.length < 3) (low : ∀ i ∈ (p ++ [index]).head?, i.val < 256)
    (present : isPresent (next.memory (entryAddr table index)) = true) :
    (ofEntry (next.memory (entryAddr table index))).write = true := by
  rcases grown.entries led inner present with ⟨old, same⟩ | ⟨frame, new⟩
  · rw [same] at present ⊢
    exact valid.writable old inner low present
  · rw [new, ofEntry_table]

/-- The page that was mapped has the rights that were asked for. -/
theorem granted_here (low : vaddr < 2 ^ 47) (opened : space.Open user ⟨vaddr, phys, flags⟩)
    (mapped : space.machine.mapPage user vaddr phys flags = (true, next)) :
    cpuAccess next.memory user vaddr = some (ofFlags flags) := by
  have grown := mapPage_extends valid.tree mapped
  rcases mapPage_cases vaddr valid.tree phys flags with
    ⟨middle, table, made, here, _, ran⟩ | ⟨_, failed, _, _⟩
  · rw [mapped] at ran
    cases ran
    obtain ⟨writes, _, found⟩ :=
      TableTree.writeEntry made.tree here (set phys (flags.union .present))
    have kept := (writes.nodeAt_eq made.tree.distinct (tablePath vaddr)).trans here
    have written : Function.update middle.memory (ptSlot table vaddr)
        (set phys (flags.union .present)) (ptSlot table vaddr) =
        set phys (flags.union .present) := update_self ..
    rw [isPresent_set _ _ (present_union flags), if_pos rfl] at found
    rw [cpuAccess_eq_words, found]
    refine congrArg some (combine_eq_of_last ?_ (ofEntry_set phys flags) ?_)
    · refine mem_words.mpr ⟨tablePath vaddr, ptIndex vaddr, [], table, rfl, kept, ?_⟩
      exact written.symm
    · intro entry member
      obtain ⟨q, i, rest, y, shape, led, rfl⟩ := mem_words.mp member
      have present := present_of_find (by rw [found]; exact nofun) shape led
      rcases pagePath_split shape with ⟨rfl, rfl⟩ | ⟨inner, behind, above⟩
      · left
        rw [kept] at led
        cases led
        exact written
      right
      refine ⟨valid.writable_after grown led inner (head_lower low shape) present, ?_⟩
      intro asked
      rcases grown.entries led inner present with ⟨old, same⟩ | ⟨frame, new⟩
      · rw [same] at present
        rw [pageTrie_slot, same]
        exact opened asked _ (mem_words.mpr ⟨q, i, behind, y, above, old, rfl⟩) present
      · rw [pageTrie_slot, new, ofEntry_table]
        exact asked
  · rw [mapped] at failed
    cases failed

/-- A page mapped for user code behind an entry that is closed to it is out of its reach. -/
theorem refused_here (closed : ¬ space.Open user ⟨vaddr, phys, flags⟩)
    (mapped : space.machine.mapPage user vaddr phys flags = (true, next)) :
    cpuAccess next.memory user vaddr ≠ some (ofFlags flags) := by
  have grown := mapPage_extends valid.tree mapped
  simp only [Open, not_forall] at closed
  obtain ⟨asked, entry, member, present, shut⟩ := closed
  obtain ⟨q, i, rest, y, shape, led, rfl⟩ := mem_words.mp member
  intro granted
  rw [cpuAccess_eq_words] at granted
  obtain ⟨_, _, combined⟩ := map_eq_some_iff.mp granted
  have all : ((pageTrie.words next.memory 0 user (pagePath vaddr)).all fun entry =>
      (ofEntry entry).user) = true := (congrArg Access.user combined).trans asked
  apply shut
  refine List.all_eq_true.mp all _ (mem_words.mpr
    ⟨q, i, rest ++ [ptIndex vaddr], y, ?_, grown.nodes led, ?_⟩)
  · rw [pagePath_eq, shape, append_assoc]
    rfl
  · exact (grown.slots led (.inr present)).symm

theorem step {request : MapRequest} {after : UserSpace} (opened : space.Open user request)
    (stepped : space.step user request = some after) : after.Valid user := by
  obtain ⟨vaddr, phys, flags⟩ := request
  unfold UserSpace.step at stepped
  obtain ⟨low, stepped⟩ := ite_none_right_eq_some.mp stepped
  split at stepped
  next machine mapped =>
    cases stepped
    have grown := mapPage_extends valid.tree mapped
    refine ⟨grown.tree, ?_, fun _ _ _ => valid.writable_after grown⟩
    intro other otherLow
    by_cases same : pageOf other = pageOf vaddr
    · have paths := pagePath_eq_iff other vaddr |>.mpr same
      dsimp only
      rw [same, update_self, cpuAccess_eq_words, paths, ← cpuAccess_eq_words]
      exact valid.granted_here low opened mapped
    dsimp only
    rw [update_of_ne same, ← valid.granted other otherLow]
    rcases mapPage_cases vaddr valid.tree phys flags with
      ⟨middle, table, made, here, _, ran⟩ | ⟨_, failed, _, _⟩
    · rw [mapped] at ran
      cases ran
      rw [← made.cpuAccess_eq other]
      exact cpuAccess_writeEntry _ made.tree here same
    · rw [mapped] at failed
      cases failed
  next machine refused =>
    cases stepped
    have grown := mapPage_extends valid.tree refused
    refine ⟨grown.tree, ?_, fun _ _ _ => valid.writable_after grown⟩
    intro other otherLow
    rw [← valid.granted other otherLow]
    rcases mapPage_cases vaddr valid.tree phys flags with
      ⟨_, _, _, _, _, ran⟩ | ⟨after, failed, made, _⟩
    · rw [refused] at ran
      cases ran
    · rw [refused] at failed
      cases failed
      exact made.cpuAccess_eq other

end Valid

/--
In every run of mappings on the lower half of a new user table in which each
request for user access finds the existing entries on its way open to user
code, the CPU grants every page the user and write rights it was mapped with.
A page that is mapped for user code behind a closed entry is not granted them.
-/
theorem rights_granted_along_runs {origin created : PageMachine} {kernelPml4 user : Nat}
    {requests : List MapRequest} {last : UserSpace} (tree : origin.WellFormed kernelPml4)
    (made : origin.createUserPageTable kernelPml4 = (some user, created))
    (opened : Transition.Meets (step user) (Open user) ⟨created, fun _ => none⟩ requests)
    (ran : Transition.run (step user) ⟨created, fun _ => none⟩ requests = some last) :
    last.Granted user ∧
      ∀ vaddr phys flags next, ¬ last.Open user ⟨vaddr, phys, flags⟩ →
        last.machine.mapPage user vaddr phys flags = (true, next) →
        cpuAccess next.memory user vaddr ≠ some (Access.ofFlags flags) := by
  have valid : last.Valid user :=
    Transition.run_preserves (fun _ _ _ valid opened stepped => valid.step opened stepped)
      (valid_of_created tree (createUserPageTable_created tree made)) opened ran
  refine ⟨valid.granted, ?_⟩
  intro vaddr phys flags next closed mapped
  exact valid.refused_here closed mapped

/-- Two pages of one table, first the one for user code. -/
def userFirst : List MapRequest :=
  [⟨0x400000, 0x5000, PageFlags.user.union .writable⟩, ⟨0x401000, 0x6000, .writable⟩]

theorem rights_granted_along_runs_userFirst :
    ∃ last, Transition.run (step 0x100000)
        ⟨(emptyTables.createUserPageTable 0x200000).2, fun _ => none⟩ userFirst = some last ∧
      last.Granted 0x100000 := by
  refine ⟨_, (Option.some_get (by decide +kernel)).symm, ?_⟩
  exact (rights_granted_along_runs emptyTables_wellFormed emptyTables_created (by decide +kernel)
    (Option.some_get _).symm).1

/--
A page mapped for user code behind a table that was made for a kernel page is
out of reach of user code.
-/
theorem kernel_page_closes_table :
    emptyTables.WellFormed 0x200000 ∧
      ∃ created last, emptyTables.createUserPageTable 0x200000 = (some 0x100000, created) ∧
        Transition.run (step 0x100000) ⟨created, fun _ => none⟩
          [⟨0x400000, 0x5000, .writable⟩, ⟨0x401000, 0x6000, PageFlags.user.union .writable⟩] =
            some last ∧
        (last.requested (pageOf 0x401000)).map Access.ofFlags = some ⟨true, true⟩ ∧
        cpuAccess last.machine.memory 0x100000 0x401000 = some ⟨false, true⟩ := by
  refine ⟨emptyTables_wellFormed, _, _, emptyTables_created,
    (Option.some_get (by decide +kernel)).symm, ?_⟩
  decide +kernel

end UserSpace

end CantayaOS.Memory
