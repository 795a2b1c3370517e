import CantayaOS.Lib.Word
import CantayaOS.Boot.Paging
import CantayaOS.Memory.PagingRefinement

/-!
# What the bootloader's page tables map

While the tables are built they form a tree: the lower half holds 2 MiB pages
at their own addresses, the higher half only 4 KiB pages.  The allocator may
therefore hand out a frame the kernel cannot reach exactly when the memory map
has a usable frame beyond 4 GiB and outside the framebuffer.
-/

namespace CantayaOS.Boot

open List Option Function Nat

open Lib Memory Shared PageTableEntry PageMachine Finset Trie

def hugeFlags : PageFlags := (PageFlags.present.union .writable).union .hugePage

/-- The entry of a 2 MiB page at the given address. -/
def hugeEntry (addr : Nat) : PageTableEntry := addr ||| present ||| writable ||| hugePage

variable {addr pd n count : Nat} {middle : BootMachine} {pages : List Nat} {origin : Words}
  {kernel : KernelLoadInfo} {nxEnabled : Bool} {fb : FramebufferInfo}

section

variable (aligned : pageSize ∣ addr) (bounded : addr < 2 ^ 52)
include aligned bounded

theorem hugeEntry_eq : hugeEntry addr = PageTableEntry.set addr hugeFlags := by
  unfold hugeEntry PageTableEntry.set
  rw [and_addrMask aligned bounded, Nat.or_assoc, Nat.or_assoc]
  rfl

theorem address_hugeEntry : address (hugeEntry addr) = addr := by
  rw [hugeEntry_eq aligned bounded, address_set aligned bounded]

theorem decode_hugeEntry : pageTrie.decode 2 (hugeEntry addr) = .leaf (hugeEntry addr) := by
  have present : isPresent (hugeEntry addr) = true := by
    rw [hugeEntry_eq aligned bounded]
    exact isPresent_set _ _ (by decide)
  have huge : isHuge (hugeEntry addr) = true := by
    have bit : PageFlags.hugePage.bits = 128 := rfl
    unfold isHuge
    rw [hugeEntry_eq aligned bounded, set_and_bits _ _ (by decide)]
    rfl
  simp [pageTrie, present, huge]

end

variable {depth pdp vaddr : Nat} {entry : PageTableEntry} {mapped : Finset Nat}

theorem decode_tableEntry {table : Nat} (inner : depth < 3) (aligned : pageSize ∣ table)
    (bounded : table < 2 ^ 52) :
    pageTrie.decode depth (table ||| present ||| writable) = .node table := by
  have shape : table ||| present ||| writable =
      PageTableEntry.set table (tableFlags ⟨0, rfl⟩) := by
    unfold PageTableEntry.set
    rw [and_addrMask aligned bounded, Nat.or_assoc]
    rfl
  rw [shape]
  exact decode_new inner aligned bounded _

/-! ## The tables while they are built -/

namespace BootMachine

variable {machine before after : BootMachine} {pml4 table next : Nat} {p : List (Fin 512)}
  {index : Fin 512}

/-- The pages that the firmware hands out are distinct frames. -/
structure Supply (pages : List Nat) : Prop where
  nodup : pages.Nodup
  frames : ∀ page ∈ pages, pageSize ∣ page ∧ page < 2 ^ 52

theorem Supply.rest {page : Nat} {rest : List Nat} (supply : Supply (page :: rest)) : Supply rest :=
  ⟨(nodup_cons.mp supply.nodup).2, fun other member =>
    supply.frames other (mem_cons_of_mem _ member)⟩

/-- The tables form a tree outside the pages that the firmware still has. -/
structure Tree (machine : BootMachine) (pml4 : Nat) : Prop where
  tables : TableTree machine.memory pml4 (· ∈ machine.pages)
  supply : Supply machine.pages

/-- Tables were added at one path at most; no lookup changed. -/
structure Extends (before after : BootMachine) (pml4 : Nat) (made : List (Fin 512)) : Prop where
  tree : Tree after pml4
  find_eq : ∀ path, pageTrie.find after.memory 0 pml4 path =
    pageTrie.find before.memory 0 pml4 path
  nodes : ∀ q y, pageTrie.nodeAt after.memory 0 pml4 q = some y →
    pageTrie.nodeAt before.memory 0 pml4 q = some y ∨ q = made

/--
The tables lie in the given pages, memory elsewhere is as given, and every
entry that points to a table is present and writable and nothing else.
-/
structure Built (pages : List Nat) (origin : Words) (pml4 : Nat) (machine : BootMachine) :
    Prop where
  elsewhere : ∀ w, (∀ page ∈ pages, w / pageSize ≠ page / pageSize) → machine.memory w = origin w
  tables : ∀ q table, pageTrie.nodeAt machine.memory 0 pml4 q = some table → table ∈ pages
  supplied : ∀ page ∈ machine.pages, page ∈ pages
  pointers : pageTrie.Pointers (fun table entry => entry = table ||| present ||| writable)
    machine.memory pml4

/-- No lookup changed, and the tables are still built in the pages they were built in. -/
structure Keeps (before after : BootMachine) (pml4 : Nat) : Prop where
  find_eq : ∀ path, pageTrie.find after.memory 0 pml4 path =
    pageTrie.find before.memory 0 pml4 path
  built : ∀ pages origin, Built pages origin pml4 before → Built pages origin pml4 after

theorem Keeps.trans (first : Keeps before middle pml4)
    (second : Keeps middle after pml4) : Keeps before after pml4 :=
  ⟨fun path => (second.find_eq path).trans (first.find_eq path), fun pages origin built =>
    second.built pages origin (first.built pages origin built)⟩

theorem Built.entryAddr_ne {w : Nat} (built : Built pages origin pml4 machine)
    (tree : Tree machine pml4) (here : pageTrie.nodeAt machine.memory 0 pml4 p = some table)
    (outside : ∀ page ∈ pages, w / pageSize ≠ page / pageSize) : w ≠ entryAddr table index := by
  rintro rfl
  apply outside table (built.tables p table here)
  exact entryAddr_div (table_aligned tree.tables.aligned here) index

theorem Built.install {rest : List Nat} {memory : Words} {frame : Nat}
    (built : Built pages origin pml4 ⟨memory, frame :: rest⟩)
    (tree : Tree ⟨memory, frame :: rest⟩ pml4)
    (installs : pageTrie.Installs memory
      (update (zeroFrame memory frame) (entryAddr table index)
        (frame ||| present ||| writable)) pml4 p table index frame) :
    Built pages origin pml4 ⟨update (zeroFrame memory frame)
      (entryAddr table index) (frame ||| present ||| writable), rest⟩ := by
  have supplied := built.supplied frame (mem_cons_self ..)
  have aligned := (tree.supply.frames frame (mem_cons_self ..)).1
  refine ⟨?_, ?_, fun page member => built.supplied page (mem_cons_of_mem _ member), ?_⟩
  · intro w outside
    dsimp only
    rw [update_of_ne (built.entryAddr_ne tree installs.here outside),
      zeroFrame_of_ne aligned (outside frame supplied)]
    exact built.elsewhere w outside
  · intro q other led
    rcases installs.nodeAt_inv tree.tables.distinct led with old | ⟨_, rfl⟩
    · exact built.tables q other old
    · exact supplied
  · exact built.pointers.install tree.tables.distinct installs (update_self ..)

theorem Built.writeLeaf (built : Built pages origin pml4 machine) (tree : Tree machine pml4)
    (writes : pageTrie.WritesLeaf machine.memory
      (update machine.memory (entryAddr table index) entry) pml4 p table index) :
    Built pages origin pml4
      ⟨update machine.memory (entryAddr table index) entry, machine.pages⟩ := by
  refine ⟨?_, ?_, built.supplied, built.pointers.writeLeaf tree.tables.distinct writes⟩
  · intro w outside
    dsimp only
    rw [update_of_ne (built.entryAddr_ne tree writes.here outside)]
    exact built.elsewhere w outside
  · intro q other led
    rw [writes.nodeAt_eq tree.tables.distinct] at led
    exact built.tables q other led

theorem decode_present (inner : depth < 3) (present : isPresent entry = true)
    (noLeaf : ∀ value, pageTrie.decode depth entry ≠ .leaf value) :
    pageTrie.decode depth entry = .node (address entry) := by
  have level : depth = 0 ∨ depth = 1 ∨ depth = 2 := by omega
  cases huge : isHuge entry with
  | false => rcases level with rfl | rfl | rfl <;> simp [pageTrie, present, huge]
  | true =>
    rcases level with rfl | rfl | rfl
    · simp [pageTrie, present]
    · exact absurd (by simp [pageTrie, present, huge]) (noLeaf entry)
    · exact absurd (by simp [pageTrie, present, huge]) (noLeaf entry)

/-- The table one level down exists afterwards. -/
theorem getOrCreateTable_spec (tree : Tree before pml4)
    (here : pageTrie.nodeAt before.memory 0 pml4 p = some table) (inner : p.length < 3)
    (noLeaf : ∀ value,
      pageTrie.decode p.length (before.memory (entryAddr table index)) ≠ .leaf value)
    (made : before.getOrCreateTable table index = some (next, after)) :
    Extends before after pml4 (p ++ [index]) ∧ Keeps before after pml4 ∧
      pageTrie.nodeAt after.memory 0 pml4 (p ++ [index]) = some next := by
  unfold getOrCreateTable at made
  dsimp only at made
  split at made
  next marked =>
    cases made
    have present := bne_iff_ne.mpr marked
    refine ⟨⟨tree, fun _ => rfl, fun _ _ led => .inl led⟩,
      ⟨fun _ => rfl, fun _ _ built => built⟩, ?_⟩
    exact nodeAt_snoc_eq_some.mpr ⟨table, here, decode_present inner present noLeaf⟩
  next vacant =>
    have absent := bne_eq_false_iff_eq.mpr (not_not.mp vacant)
    obtain ⟨memory, pages⟩ := before
    cases pages with
    | nil => cases made
    | cons frame rest =>
      cases made
      have free : frame ∈ frame :: rest := mem_cons_self ..
      obtain ⟨aligned, bounded⟩ := tree.supply.frames frame free
      have installs := tree.tables.installs here absent aligned free
        (decode_tableEntry inner aligned bounded)
      have kept := (tree.tables.install free installs).mono fun other
          (member : other ∈ rest) => ⟨mem_cons_of_mem _ member, fun same =>
            (nodup_cons.mp tree.supply.nodup).1 (same ▸ member)⟩
      refine ⟨⟨⟨kept, tree.supply.rest⟩, installs.find_eq tree.tables.distinct, ?_⟩,
        ⟨installs.find_eq tree.tables.distinct, fun _ _ built => built.install tree installs⟩,
        installs.nodeAt_new tree.tables.distinct⟩
      intro q y led
      exact (installs.nodeAt_inv tree.tables.distinct led).imp_right And.left

/-! ## Huge pages below, small pages above -/

def Low (vaddr : Nat) : Prop := vaddr < 2 ^ 47

/-- An address whose table indices are those of the higher half. -/
def High (vaddr : Nat) : Prop := 256 ≤ (pml4Index vaddr).val

theorem not_high_of_low (low : Low vaddr) : (pml4Index vaddr).val < 256 := by
  unfold Low at low
  simp only [pml4Index, index_eq]
  omega

/--
The lower half maps exactly the 2 MiB pages with the numbers in `mapped`, each
at its own address and without page tables; the higher half has small pages only.
-/
structure Maps (machine : BootMachine) (pml4 : Nat) (mapped : Finset Nat) : Prop
    extends Tree machine pml4 where
  low : ∀ vaddr, Low vaddr → pageTrie.find machine.memory 0 pml4 (pagePath vaddr) =
    if vaddr / hugePageSize ∈ mapped then
      some (hugeEntry (vaddr / hugePageSize * hugePageSize), [ptIndex vaddr])
    else none
  noTables : ∀ vaddr, Low vaddr → pageTrie.nodeAt machine.memory 0 pml4 (tablePath vaddr) = none
  high : ∀ vaddr found, High vaddr →
    pageTrie.find machine.memory 0 pml4 (pagePath vaddr) = some found → found.2 = []

variable {mapped : Finset Nat} {vaddr : Nat}

theorem Maps.extend (maps : Maps before pml4 mapped) {made : List (Fin 512)}
    (extended : Extends before after pml4 made)
    (elsewhere : ∀ vaddr, Low vaddr → tablePath vaddr ≠ made) : Maps after pml4 mapped := by
  refine ⟨extended.tree, ?_, ?_, ?_⟩
  · intro vaddr low
    rw [extended.find_eq]
    exact maps.low vaddr low
  · intro vaddr low
    rw [eq_none_iff_forall_ne_some]
    intro y led
    rcases extended.nodes _ y led with old | same
    · rw [maps.noTables vaddr low] at old
      cases old
    · exact elsewhere vaddr low same
  · intro vaddr found high led
    rw [extended.find_eq] at led
    exact maps.high vaddr found high led

theorem Maps.found_length (maps : Maps machine pml4 mapped) (reach : Low vaddr ∨ High vaddr)
    {found : PageTableEntry × List (Fin 512)}
    (led : pageTrie.find machine.memory 0 pml4 (pagePath vaddr) = some found) :
    found.2.length ≤ 1 := by
  rcases reach with low | high
  · rw [maps.low vaddr low] at led
    split at led
    · cases led
      exact le_refl 1
    · cases led
  · rw [maps.high vaddr found high led]
    exact Nat.zero_le 1

theorem Maps.directory (maps : Maps machine pml4 mapped) (reach : Low vaddr ∨ High vaddr)
    (first : machine.getOrCreateTable pml4 (pml4Index vaddr) = some (pdp, middle))
    (second : middle.getOrCreateTable pdp (pdpIndex vaddr) = some (pd, after)) :
    Maps after pml4 mapped ∧ Keeps machine after pml4 ∧
      pageTrie.nodeAt after.memory 0 pml4 [pml4Index vaddr, pdpIndex vaddr] = some pd := by
  have noGiant (entry : PageTableEntry) (value : PageTableEntry) :
      pageTrie.decode 0 entry ≠ .leaf value := by
    simp only [pageTrie]
    split
    all_goals
      intro same
      cases same
  have root : pageTrie.nodeAt machine.memory 0 pml4 [] = some pml4 := rfl
  obtain ⟨extended, keeps, pdpHere⟩ := getOrCreateTable_spec maps.toTree root (by decide)
    (noGiant _) first
  have between := maps.extend extended (fun _ _ => by simp [tablePath])
  have noLeaf (value : PageTableEntry) :
      pageTrie.decode 1 (middle.memory (entryAddr pdp (pdpIndex vaddr))) ≠ .leaf value := by
    intro leaf
    have led := find_leaf pdpHere leaf [pdIndex vaddr, ptIndex vaddr]
    have short := between.found_length reach led
    simp at short
  obtain ⟨extended, further, pdHere⟩ := getOrCreateTable_spec between.toTree pdpHere
    (by simp) noLeaf second
  exact ⟨between.extend extended (fun _ _ => by simp [tablePath]), keeps.trans further, pdHere⟩

theorem tablePath_ne {low high : Nat} (isLow : Low low) (isHigh : High high) :
    tablePath low ≠ tablePath high := by
  intro paths
  have below := not_high_of_low isLow
  have heads := (List.cons.inj paths).1
  unfold High at isHigh
  omega

/-- In the higher half the walk goes on to a page table. -/
theorem Maps.pageTable (maps : Maps machine pml4 mapped) (high : High vaddr) {pt : Nat}
    {walked : BootMachine}
    (first : machine.getOrCreateTable pml4 (pml4Index vaddr) = some (pdp, middle))
    (second : middle.getOrCreateTable pdp (pdpIndex vaddr) = some (pd, walked))
    (third : walked.getOrCreateTable pd (pdIndex vaddr) = some (pt, after)) :
    Maps after pml4 mapped ∧ Keeps machine after pml4 ∧
      pageTrie.nodeAt after.memory 0 pml4 (tablePath vaddr) = some pt := by
  obtain ⟨maps, keeps, pdHere⟩ := maps.directory (.inr high) first second
  have noLeaf (value : PageTableEntry) :
      pageTrie.decode 2 (walked.memory (entryAddr pd (pdIndex vaddr))) ≠ .leaf value := by
    intro leaf
    have led := find_leaf pdHere leaf [ptIndex vaddr]
    cases maps.high vaddr _ high led
  obtain ⟨extended, further, ptHere⟩ :=
    getOrCreateTable_spec maps.toTree pdHere (by simp) noLeaf third
  exact ⟨maps.extend extended fun other low => tablePath_ne low high, keeps.trans further, ptHere⟩

theorem tablePath_eq_iff {first second : Nat} (left : Low first) (right : Low second) :
    tablePath first = tablePath second ↔ first / hugePageSize = second / hugePageSize := by
  unfold Low at left right
  simp only [tablePath, pml4Index, pdpIndex, pdIndex, index_eq, List.cons.injEq, Fin.mk.injEq,
    and_true, hugePageSize]
  omega

section

variable (maps : Maps machine pml4 mapped) {words : Words} (low : Low (n * hugePageSize))
  (here : pageTrie.nodeAt machine.memory 0 pml4
    [pml4Index (n * hugePageSize), pdpIndex (n * hugePageSize)] = some pd)
  (written : words = Function.update machine.memory
    (entryAddr pd (pdIndex (n * hugePageSize))) (hugeEntry (n * hugePageSize)))
include maps low here written

/-- The entry of a 2 MiB page is a leaf, and so it concerns the lookups of that page only. -/
theorem Maps.hugeWrites :
    pageTrie.WritesLeaf machine.memory words pml4
        [pml4Index (n * hugePageSize), pdpIndex (n * hugePageSize)] pd
        (pdIndex (n * hugePageSize)) ∧
      pageTrie.decode 2 (words (entryAddr pd (pdIndex (n * hugePageSize)))) =
        .leaf (hugeEntry (n * hugePageSize)) ∧
      ∀ other, tablePath other ≠ tablePath (n * hugePageSize) →
        pageTrie.find words 0 pml4 (pagePath other) =
          pageTrie.find machine.memory 0 pml4 (pagePath other) := by
  have bounded : n * hugePageSize < 2 ^ 52 := low.trans (by decide)
  have aligned : pageSize ∣ n * hugePageSize :=
    dvd_trans (by decide : pageSize ∣ hugePageSize) (dvd_mul_left _ _)
  have leaf : pageTrie.decode 2 (words (entryAddr pd (pdIndex (n * hugePageSize)))) =
      .leaf (hugeEntry (n * hugePageSize)) := by
    rw [written, update_self]
    exact decode_hugeEntry aligned bounded
  have same : pageTrie.SameBut machine.memory words pml4 pd (pdIndex (n * hugePageSize)) := by
    intro _ _ _ _ other
    rw [written]
    exact update_of_ne other _ _
  refine ⟨⟨here, same, ?_, ?_⟩, leaf, ?_⟩
  · intro next points
    have led := nodeAt_snoc_eq_some.mpr ⟨pd, here, points⟩
    have noTable := maps.noTables _ low
    unfold tablePath at noTable
    rw [cons_append, cons_append, nil_append, noTable] at led
    cases led
  · intro next
    have depth : List.length [pml4Index (n * hugePageSize), pdpIndex (n * hugePageSize)] = 2 :=
      rfl
    rw [depth, pageTrie_slot, leaf]
    exact nofun
  · intro other different
    apply find_elsewhere maps.tables.distinct here same
    intro inside
    apply different
    obtain ⟨rest, shape⟩ := inside
    simp only [pagePath, cons_append, nil_append, List.cons.injEq] at shape
    obtain ⟨first, second, third, _⟩ := shape
    simp only [tablePath, first, second, third]

/-- Writing the directory entry of a 2 MiB page of the lower half. -/
theorem Maps.writeHuge : Maps ⟨words, machine.pages⟩ pml4 (insert n mapped) := by
  have number : n * hugePageSize / hugePageSize = n := Nat.mul_div_cancel _ (by decide)
  obtain ⟨writes, leaf, elsewhere⟩ := maps.hugeWrites low here written
  have nodes := writes.nodeAt_eq maps.tables.distinct
  refine ⟨⟨maps.tables.writeLeaf writes, maps.supply⟩, ?_, ?_, ?_⟩
  · intro other otherLow
    by_cases equal : other / hugePageSize = n
    · have paths : tablePath other = tablePath (n * hugePageSize) := by
        rw [tablePath_eq_iff otherLow low, equal, number]
      have shape : pagePath other =
          [pml4Index (n * hugePageSize), pdpIndex (n * hugePageSize)] ++
            pdIndex (n * hugePageSize) :: [ptIndex other] := by
        rw [pagePath_eq, paths, tablePath]
        simp only [List.cons_append, List.nil_append]
      have reached := (nodes _).trans here
      rw [equal, if_pos (mem_insert_self _ _), shape]
      exact find_leaf reached leaf _
    · have paths : tablePath other ≠ tablePath (n * hugePageSize) := by
        rw [Ne, tablePath_eq_iff otherLow low, number]
        exact equal
      rw [elsewhere other paths, maps.low other otherLow]
      simp only [mem_insert, equal, false_or]
  · intro other otherLow
    rw [nodes]
    exact maps.noTables other otherLow
  · intro other found high led
    apply maps.high other found high
    rw [← led, elsewhere other (tablePath_ne low high).symm]

end

/-- No lookup of the higher half changed, and the tables are built as before. -/
structure KeepsHigh (before after : BootMachine) (pml4 : Nat) : Prop where
  find_eq : ∀ other, High other → pageTrie.find after.memory 0 pml4 (pagePath other) =
    pageTrie.find before.memory 0 pml4 (pagePath other)
  built : ∀ pages origin, Built pages origin pml4 before → Built pages origin pml4 after

theorem KeepsHigh.trans (first : KeepsHigh before middle pml4)
    (second : KeepsHigh middle after pml4) : KeepsHigh before after pml4 :=
  ⟨fun other high => (second.find_eq other high).trans (first.find_eq other high),
    fun pages origin built => second.built pages origin (first.built pages origin built)⟩

/-- Mapping a 2 MiB page of the lower half at its own address. -/
theorem mapHugePage_spec (maps : Maps machine pml4 mapped) (low : Low (n * hugePageSize))
    (ran : machine.mapHugePage pml4 (n * hugePageSize) (n * hugePageSize) = some after) :
    Maps after pml4 (insert n mapped) ∧ KeepsHigh machine after pml4 := by
  simp only [mapHugePage, bind_eq_some_iff, map_eq_some_iff, Prod.exists] at ran
  obtain ⟨pdp, middle, first, pd, last, second, rfl⟩ := ran
  obtain ⟨walked, keeps, here⟩ := maps.directory (.inl low) first second
  obtain ⟨writes, _, elsewhere⟩ := walked.hugeWrites low here rfl
  refine ⟨walked.writeHuge low here rfl, fun other high => ?_, fun pages origin built =>
    (keeps.built pages origin built).writeLeaf walked.toTree writes⟩
  rw [← keeps.find_eq]
  exact elsewhere other (tablePath_ne low high).symm

/-- Mapping a 4 KiB page of the higher half changes the lookups of this page only. -/
theorem map4kPageFlags_spec (maps : Maps machine pml4 mapped) {phys flags : Nat}
    (high : High vaddr) (ran : machine.map4kPageFlags pml4 vaddr phys flags = some after) :
    Maps after pml4 mapped ∧
      (∀ other, pageTrie.find after.memory 0 pml4 (pagePath other) =
        if pageOf other = pageOf vaddr then
          if isPresent (phys ||| flags) then some (phys ||| flags, []) else none
        else pageTrie.find machine.memory 0 pml4 (pagePath other)) ∧
      ∀ pages origin, Built pages origin pml4 machine → Built pages origin pml4 after := by
  simp only [map4kPageFlags, bind_eq_some_iff, map_eq_some_iff, Prod.exists] at ran
  obtain ⟨pdp, middle, first, pd, walked, second, pt, last, third, rfl⟩ := ran
  obtain ⟨maps, keeps, ptHere⟩ := maps.pageTable high first second third
  obtain ⟨writes, elsewhere, here⟩ := maps.tables.writeEntry ptHere (phys ||| flags)
  refine ⟨⟨⟨maps.tables.writeLeaf writes, maps.supply⟩, ?_, ?_, ?_⟩, ?_, fun pages origin built =>
    (keeps.built pages origin built).writeLeaf maps.toTree writes⟩
  · intro other low
    rw [elsewhere other, maps.low other low]
    intro same
    have paths := (pagePath_eq_iff other vaddr).mpr same
    exact tablePath_ne low high (append_inj_left' paths rfl)
  · intro other low
    rw [writes.nodeAt_eq maps.tables.distinct]
    exact maps.noTables other low
  · intro other found otherHigh led
    by_cases same : pageOf other = pageOf vaddr
    · rw [(pagePath_eq_iff other vaddr).mpr same, here] at led
      split at led
      · cases led
        rfl
      · cases led
    · rw [elsewhere other same] at led
      exact maps.high other found otherHigh led
  · intro other
    split
    · next same => rw [(pagePath_eq_iff other vaddr).mpr same, here]
    · next different => rw [elsewhere other different, keeps.find_eq]

theorem identityMap_succ (low : (n + (count + 1)) * hugePageSize ≤ 2 ^ 47)
    (ran : machine.identityMap pml4 (n * hugePageSize) (count + 1) = some after) :
    ∃ middle, Low (n * hugePageSize) ∧
      machine.mapHugePage pml4 (n * hugePageSize) (n * hugePageSize) = some middle ∧
      (n + 1 + count) * hugePageSize ≤ 2 ^ 47 ∧
      middle.identityMap pml4 ((n + 1) * hugePageSize) count = some after := by
  simp only [identityMap, bind_eq_some_iff] at ran
  obtain ⟨middle, first, rest⟩ := ran
  have wrap : (n * hugePageSize + hugePageSize) % 2 ^ 64 = (n + 1) * hugePageSize := by
    unfold hugePageSize at *
    omega
  rw [wrap] at rest
  have here : Low (n * hugePageSize) := by
    unfold Low hugePageSize at *
    omega
  have later : (n + 1 + count) * hugePageSize ≤ 2 ^ 47 := by
    rw [add_assoc, add_comm 1 count]
    exact low
  exact ⟨middle, here, first, later, rest⟩

/-- The loop that maps a range of 2 MiB pages at their own addresses. -/
theorem identityMap_spec (maps : Maps machine pml4 mapped)
    (low : (n + count) * hugePageSize ≤ 2 ^ 47)
    (ran : machine.identityMap pml4 (n * hugePageSize) count = some after) :
    Maps after pml4 (mapped ∪ Finset.Ico n (n + count)) ∧ KeepsHigh machine after pml4 := by
  induction count generalizing machine mapped n with
  | zero =>
    cases ran
    exact ⟨by simpa using maps, fun _ _ => rfl, fun _ _ built => built⟩
  | succ count ih =>
    obtain ⟨middle, here, first, later, rest⟩ := identityMap_succ low ran
    obtain ⟨between, keeps⟩ := mapHugePage_spec maps here first
    obtain ⟨done, further⟩ := ih between later rest
    have cover : mapped ∪ Finset.Ico n (n + (count + 1)) =
        insert n mapped ∪ Finset.Ico (n + 1) (n + 1 + count) := by
      ext k
      simp only [mem_union, mem_Ico, mem_insert]
      by_cases member : k ∈ mapped
      · simp [member]
      · simp only [member, false_or, or_false]
        omega
    rw [cover]
    exact ⟨done, keeps.trans further⟩

theorem high_kernel {x : Nat} (inside : x < 2 ^ 31) : High ((kernelVaddrBase + x) % 2 ^ 64) := by
  unfold High
  simp only [pml4Index, index_eq]
  unfold kernelVaddrBase
  omega

section

variable {physicalBase start flags : Nat} {segments : List SegmentInfo}

theorem mapKernelPages_succ (fits : start + (count + 1) * pageSize ≤ 2 ^ 31)
    (ran : machine.mapKernelPages pml4 physicalBase start flags (count + 1) = some after) :
    ∃ middle, start < 2 ^ 31 ∧
      machine.map4kPageFlags pml4 ((kernelVaddrBase + start) % 2 ^ 64)
        ((physicalBase + start) % 2 ^ 64) flags = some middle ∧
      start + pageSize + count * pageSize ≤ 2 ^ 31 ∧
      middle.mapKernelPages pml4 physicalBase (start + pageSize) flags count = some after := by
  simp only [mapKernelPages, bind_eq_some_iff] at ran
  obtain ⟨middle, first, rest⟩ := ran
  unfold pageSize at *
  exact ⟨middle, by omega, first, by omega, rest⟩

theorem mapKernelPages_spec (maps : Maps machine pml4 mapped)
    (fits : start + count * pageSize ≤ 2 ^ 31)
    (ran : machine.mapKernelPages pml4 physicalBase start flags count = some after) :
    Maps after pml4 mapped ∧
      ∀ pages origin, Built pages origin pml4 machine → Built pages origin pml4 after := by
  induction count generalizing machine start with
  | zero =>
    cases ran
    exact ⟨maps, fun _ _ built => built⟩
  | succ count ih =>
    obtain ⟨middle, small, first, later, rest⟩ := mapKernelPages_succ fits ran
    obtain ⟨between, _, built⟩ := map4kPageFlags_spec maps (high_kernel small) first
    obtain ⟨done, further⟩ := ih between later rest
    exact ⟨done, fun pages origin before => further pages origin (built pages origin before)⟩

theorem mapSegments_spec (maps : Maps machine pml4 mapped)
    (fits : ∀ segment ∈ segments,
      segment.offsetFromBase.toNat + pagesFor pageSize segment.size.toNat * pageSize ≤ 2 ^ 31)
    (ran : machine.mapSegments pml4 physicalBase segments = some after) :
    Maps after pml4 mapped ∧
      ∀ pages origin, Built pages origin pml4 machine → Built pages origin pml4 after := by
  induction segments generalizing machine with
  | nil =>
    cases ran
    exact ⟨maps, fun _ _ built => built⟩
  | cons segment rest ih =>
    simp only [mapSegments, bind_eq_some_iff] at ran
    obtain ⟨middle, first, later⟩ := ran
    obtain ⟨here, others⟩ := forall_mem_cons.mp fits
    obtain ⟨between, built⟩ := mapKernelPages_spec maps here first
    obtain ⟨done, further⟩ := ih between others later
    exact ⟨done, fun pages origin before => further pages origin (built pages origin before)⟩

end

end BootMachine

/-- The kernel image and its segments lie in the last 2 GiB of the address space. -/
structure KernelLoadInfo.HigherHalf (kernel : KernelLoadInfo) : Prop where
  image : pagesFor pageSize kernel.size.toNat * pageSize ≤ 2 ^ 31
  segments : ∀ segment ∈ kernel.segments,
    segment.offsetFromBase.toNat + pagesFor pageSize segment.size.toNat * pageSize ≤ 2 ^ 31

/-- The framebuffer, rounded to 2 MiB pages, lies in the lower half. -/
def FramebufferLow (fb : FramebufferInfo) : Prop :=
  fb.address.toNat + fb.size.toNat + hugePageSize ≤ 2 ^ 47

theorem fbBaseAligned_eq (fb : FramebufferInfo) :
    fbBaseAligned fb = fb.address.toNat / hugePageSize * hugePageSize := by
  have mask : (~~~(UInt64.ofNat (hugePageSize - 1))).toNat = Lib.Word.not64 (2 ^ 21 - 1) := by decide
  have power : hugePageSize = 2 ^ 21 := by decide
  unfold fbBaseAligned
  rw [UInt64.toNat_and, mask]
  exact Lib.Word.and_not64_eq_div_mul fb.address.toNat_lt (by decide)

def mappedPages (fb : FramebufferInfo) : Finset Nat :=
  Finset.Ico 0 (fourGib / hugePageSize) ∪
    Finset.Ico (fb.address.toNat / hugePageSize) (fb.address.toNat / hugePageSize + fbPages fb)

namespace BootMachine

variable {machine after : BootMachine} {pml4 : Nat}

theorem maps_empty {memory : Words} {rest : List Nat} (supply : Supply (pml4 :: rest)) :
    Maps ⟨zeroFrame memory pml4, rest⟩ pml4 ∅ := by
  have aligned := (supply.frames pml4 (mem_cons_self ..)).1
  have zero (i : Fin 512) : zeroFrame memory pml4 (entryAddr pml4 i) = 0 :=
    zeroFrame_of_eq aligned (entryAddr_div aligned i)
  refine ⟨⟨TableTree.empty zero aligned (nodup_cons.mp supply.nodup).1, supply.rest⟩, ?_, ?_, ?_⟩
  · intro vaddr _
    rw [find_empty zero]
    rfl
  · intro vaddr _
    rw [eq_none_iff_forall_ne_some]
    intro y led
    cases (nodeAt_empty zero led).1
  · intro vaddr found _ led
    rw [find_empty zero] at led
    cases led

theorem mapKernel_spec (maps : Maps machine pml4 mapped) (kernelHigh : kernel.HigherHalf)
    (ran : machine.mapKernel pml4 kernel nxEnabled = some after) : Maps after pml4 mapped := by
  unfold mapKernel at ran
  split at ran
  · exact (mapSegments_spec maps kernelHigh.segments ran).1
  · exact (mapKernelPages_spec maps (by simpa using kernelHigh.image) ran).1

/-- The root table, the first 4 GiB, the kernel image, the framebuffer. -/
theorem setupKernelPageTables_stages
    (built : machine.setupKernelPageTables kernel fb nxEnabled = some (pml4, after)) :
    ∃ rest identity image, machine.pages = pml4 :: rest ∧
      identityMap ⟨zeroFrame machine.memory pml4, rest⟩ pml4 (0 * hugePageSize)
        (fourGib / hugePageSize) = some identity ∧
      identity.mapKernel pml4 kernel nxEnabled = some image ∧
      image.identityMap pml4 (fb.address.toNat / hugePageSize * hugePageSize) (fbPages fb) =
        some after := by
  obtain ⟨memory, pages⟩ := machine
  cases pages with
  | nil => cases built
  | cons page rest =>
    simp only [setupKernelPageTables, allocatePageTable, bind_some, bind_eq_some_iff,
      map_eq_some_iff] at built
    obtain ⟨identity, first, image, second, last, third, rfl, rfl⟩ := built
    have start : 0 = 0 * hugePageSize := by decide
    rw [fbBaseAligned_eq] at third
    exact ⟨rest, identity, image, rfl, first, second, third⟩

theorem fbPages_low (fbLow : FramebufferLow fb) :
    (fb.address.toNat / hugePageSize + fbPages fb) * hugePageSize ≤ 2 ^ 47 := by
  unfold FramebufferLow at fbLow
  unfold fbPages pagesFor
  unfold hugePageSize at *
  omega

/-- The finished tables map the first 4 GiB and the framebuffer's pages in the lower half. -/
theorem setupKernelPageTables_spec (supply : Supply machine.pages) (kernelHigh : kernel.HigherHalf)
    (low : (fb.address.toNat / hugePageSize + fbPages fb) * hugePageSize ≤ 2 ^ 47)
    (built : machine.setupKernelPageTables kernel fb nxEnabled = some (pml4, after)) :
    Maps after pml4 (mappedPages fb) := by
  obtain ⟨rest, identity, image, pages, first, second, third⟩ := setupKernelPageTables_stages built
  rw [pages] at supply
  have maps := (identityMap_spec (maps_empty supply) (by decide) first).1
  have maps := (identityMap_spec (mapKernel_spec maps kernelHigh second) low third).1
  rw [zero_add] at maps
  exact maps

/-- Translation in the lower half is the identity on the mapped pages. -/
theorem Maps.translate_eq (maps : Maps machine pml4 mapped) (low : Low vaddr) :
    translate machine.memory pml4 vaddr =
      if vaddr / hugePageSize ∈ mapped then some vaddr else none := by
  rw [translate_eq_find, maps.low vaddr low]
  split
  · have aligned : pageSize ∣ vaddr / hugePageSize * hugePageSize :=
      dvd_trans (by decide : pageSize ∣ hugePageSize) (dvd_mul_left _ _)
    have bounded : vaddr / hugePageSize * hugePageSize < 2 ^ 52 :=
      lt_of_le_of_lt (div_mul_le_self _ _) (low.trans (by decide))
    have size : leafSize 1 = 2 ^ 21 := by decide
    have power : hugePageSize = 2 ^ 21 := by decide
    simp only [map_some, leafTarget, length_cons, length_nil]
    rw [address_hugeEntry aligned bounded, size, and_two_pow_sub_one_eq_mod, power,
      mul_comm, ← two_pow_add_eq_or_of_lt (mod_lt _ (by decide)), div_add_mod]
  · rfl

end BootMachine

end CantayaOS.Boot
