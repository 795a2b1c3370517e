import CantayaOS.Lib.Trie
import CantayaOS.Memory.Paging

/-!
# Page tables as a trie

The tables are a trie in memory whose leaves are page entries, and translation
is lookup in it.  A path of four indices stands for one page.
-/

namespace CantayaOS.Memory

open Lib PageTableEntry List Nat Function Trie PageMachine

variable {phys vaddr depth : Nat} {entry : PageTableEntry}

/-- The address of a page's entry in its last table. -/
abbrev ptSlot (table vaddr : Nat) : Nat :=
  entryAddr table (ptIndex vaddr)

theorem addrMask_testBit (i : Nat) : addrMask.testBit i = (decide (12 ≤ i) && decide (i < 52)) := by
  have shape : addrMask = (2 ^ 40 - 1) <<< 12 := by decide
  rw [shape, testBit_shiftLeft, testBit_two_pow_sub_one]
  by_cases low : 12 ≤ i
  · simp only [ge_iff_le, low, decide_true, Bool.true_and]
    congr 1
    simp only [eq_iff_iff]
    omega
  · simp [low]

theorem and_addrMask (aligned : pageSize ∣ phys) (bounded : phys < 2 ^ 52) :
    phys &&& addrMask = phys := by
  obtain ⟨n, rfl⟩ := aligned
  apply eq_of_testBit_eq
  intro i
  rw [testBit_and, addrMask_testBit]
  by_cases low : 12 ≤ i
  · by_cases high : i < 52
    · simp [low, high]
    · have above : (pageSize * n).testBit i = false :=
        testBit_lt_two_pow (lt_of_lt_of_le bounded
          (Nat.pow_le_pow_right (by decide) (not_lt.mp high)))
      simp [above]
  · have below : (pageSize * n).testBit i = false := by
      have shape : pageSize * n = n <<< 12 := by
        rw [shiftLeft_eq, mul_comm]
        rfl
      rw [shape, testBit_shiftLeft]
      simp [low]
    simp [below]

theorem pageSize_dvd_address (entry : PageTableEntry) : pageSize ∣ address entry := by
  apply dvd_of_mod_eq_zero
  have power : pageSize = 2 ^ 12 := rfl
  rw [power]
  apply eq_of_testBit_eq
  intro i
  rw [testBit_mod_two_pow, address, testBit_and, addrMask_testBit, zero_testBit]
  by_cases low : i < 12
  · have outside : ¬ 12 ≤ i := by omega
    simp [outside]
  · simp [low]

theorem flags_and_addrMask (flags : PageFlags) : flags.bits &&& addrMask = 0 := by
  have disjoint : 0x80000000000001FF &&& addrMask = 0 := by decide
  rw [← flags.known, Nat.and_assoc, disjoint, Nat.and_zero]

theorem address_set (aligned : pageSize ∣ phys) (bounded : phys < 2 ^ 52)
    (flags : PageFlags) : address (set phys flags) = phys := by
  unfold address PageTableEntry.set
  rw [and_or_distrib_right, flags_and_addrMask, or_zero, and_addrMask aligned bounded,
    and_addrMask aligned bounded]

theorem address_lt (entry : PageTableEntry) : address entry < 2 ^ 52 :=
  and_lt_two_pow _ (by decide)

theorem translate_lt {memory : Words} {pml4 vaddr phys : Nat}
    (found : translate memory pml4 vaddr = some phys) : phys < 2 ^ 52 := by
  have inside (entry : PageTableEntry) {size : Nat} (small : size < 2 ^ 52) :
      address entry ||| (vaddr &&& size) < 2 ^ 52 :=
    or_lt_two_pow (address_lt entry) (and_le_right.trans_lt small)
  unfold translate pageOffset at found
  dsimp only at found
  split_ifs at found <;> cases found <;> exact inside _ (by decide)

theorem set_and_bits (phys : Nat) (flags : PageFlags) {mask : Nat} (low : addrMask &&& mask = 0) :
    set phys flags &&& mask = flags.bits &&& mask := by
  unfold PageTableEntry.set
  rw [Nat.and_or_distrib_right, Nat.and_assoc, low, Nat.and_zero, Nat.zero_or]

theorem isPresent_set (phys : Nat) (flags : PageFlags)
    (present : flags.bits &&& 1 = 1) : isPresent (set phys flags) = true := by
  have bit : PageFlags.present.bits = 1 := rfl
  unfold isPresent
  rw [bit, set_and_bits phys flags (by decide), present]
  rfl

theorem not_isPresent_zero : isPresent 0 = false := by
  unfold isPresent
  rfl

theorem present_union (flags : PageFlags) : (flags.union .present).bits &&& 1 = 1 := by
  have one : PageFlags.present.bits &&& 1 = 1 := rfl
  simp only [PageFlags.union, and_or_distrib_right, one]
  apply eq_of_testBit_eq
  intro i
  rw [testBit_or, testBit_and]
  cases (1 : Nat).testBit i <;> simp

/-- The four levels of tables; entries of the last level and huge pages are leaves. -/
def pageTrie : Trie Nat PageTableEntry Nat (Fin 512) PageTableEntry where
  slot := entryAddr
  decode depth entry :=
    if !isPresent entry then .empty
    else
      match depth with
      | 0 => .node (address entry)
      | 1 | 2 => if isHuge entry then .leaf entry else .node (address entry)
      | 3 => .leaf entry
      | _ => .empty

theorem pageTrie_slot (table : Nat) (index : Fin 512) :
    pageTrie.slot table index = entryAddr table index := rfl

def pagePath (vaddr : Nat) : List (Fin 512) :=
  [pml4Index vaddr, pdpIndex vaddr, pdIndex vaddr, ptIndex vaddr]

/-- The indices that lead to the page table of a virtual address. -/
def tablePath (vaddr : Nat) : List (Fin 512) := [pml4Index vaddr, pdpIndex vaddr, pdIndex vaddr]

theorem pagePath_eq (vaddr : Nat) : pagePath vaddr = tablePath vaddr ++ [ptIndex vaddr] := rfl

/-- Pages, by their number among the 48 bits of an address that are translated. -/
abbrev Page : Type := Fin (2 ^ 36)

def pageOf (vaddr : Nat) : Page := ⟨vaddr / pageSize % 2 ^ 36, mod_lt _ (by decide)⟩

/-- The number of bytes that an entry with `levels` unused indices below it maps. -/
def leafSize (levels : Nat) : Nat := pageSize * 512 ^ levels

/-- The physical address that a leaf entry gives to a virtual address. -/
def leafTarget (vaddr : Nat) (found : PageTableEntry × List (Fin 512)) : Nat :=
  address found.1 ||| (vaddr &&& (leafSize found.2.length - 1))

/-- Translation is lookup in the trie. -/
theorem translate_eq_find (memory : Words) (pml4Phys vaddr : Nat) :
    translate memory pml4Phys vaddr =
      (pageTrie.find memory 0 pml4Phys (pagePath vaddr)).map (leafTarget vaddr) := by
  have giant : leafSize 2 = giantPageSize := by decide
  have huge : leafSize 1 = hugePageSize := by decide
  have page : leafSize 0 - 1 = 0xFFF := by decide
  simp only [translate, pagePath, find, pageTrie]
  cases isPresent (memory (entryAddr pml4Phys (pml4Index vaddr)))
  case false => rfl
  generalize address (memory (entryAddr pml4Phys (pml4Index vaddr))) = pdp
  simp only [Bool.not_true, Bool.false_eq_true, if_false]
  cases isPresent (memory (entryAddr pdp (pdpIndex vaddr)))
  case false => rfl
  cases isHuge (memory (entryAddr pdp (pdpIndex vaddr)))
  case true => simp [leafTarget, giant]
  generalize address (memory (entryAddr pdp (pdpIndex vaddr))) = pd
  simp only [Bool.not_true, Bool.false_eq_true, if_false]
  cases isPresent (memory (entryAddr pd (pdIndex vaddr)))
  case false => rfl
  cases isHuge (memory (entryAddr pd (pdIndex vaddr)))
  case true => simp [leafTarget, huge]
  generalize address (memory (entryAddr pd (pdIndex vaddr))) = pt
  simp only [Bool.not_true, Bool.false_eq_true, if_false]
  cases isPresent (memory (entryAddr pt (ptIndex vaddr)))
  case false => rfl
  simp [leafTarget, page, pageOffset]

theorem index_eq (vaddr shift : Nat) : (vaddr >>> shift) &&& 0x1FF = vaddr / 2 ^ shift % 512 := by
  have mask : 0x1FF = 2 ^ 9 - 1 := by decide
  rw [shiftRight_eq_div_pow, mask, and_two_pow_sub_one_eq_mod]

theorem pagePath_eq_iff (first second : Nat) :
    pagePath first = pagePath second ↔ pageOf first = pageOf second := by
  simp only [pagePath, pml4Index, pdpIndex, pdIndex, ptIndex, index_eq, List.cons.injEq,
    Fin.mk.injEq, and_true, pageOf, pageSize]
  omega

variable {k table w : Nat}

theorem pageOf_offset (aligned : pageSize ∣ vaddr) (inside : k < pageSize) :
    pageOf (vaddr + k) = pageOf vaddr := by
  unfold pageSize at *
  apply Fin.ext
  simp only [pageOf, pageSize]
  omega

theorem leafSize_eq (levels : Nat) : leafSize levels = 2 ^ (12 + 9 * levels) := by
  rw [pow_add, pow_mul]
  rfl

theorem or_add_offset {base x : Nat} (baseAligned : pageSize ∣ base) (aligned : pageSize ∣ x)
    (inside : k < pageSize) : base ||| (x + k) = (base ||| x) + k := by
  obtain ⟨a, rfl⟩ := baseAligned
  obtain ⟨b, rfl⟩ := aligned
  have power : pageSize = 2 ^ 12 := rfl
  rw [power] at inside ⊢
  have union : 2 ^ 12 * a ||| 2 ^ 12 * b = 2 ^ 12 * (a ||| b) := by
    simp only [Nat.mul_comm (2 ^ 12), ← Nat.shiftLeft_eq, Nat.shiftLeft_or_distrib]
  rw [Nat.two_pow_add_eq_or_of_lt inside, ← Nat.or_assoc, union,
    ← Nat.two_pow_add_eq_or_of_lt inside]

theorem leafTarget_page (vaddr : Nat) {found : PageTableEntry × List (Fin 512)}
    (short : found.2.length < 4) :
    leafTarget vaddr found = leafTarget (pageOf vaddr * pageSize) found + vaddr % pageSize := by
  unfold leafTarget
  rw [leafSize_eq, and_two_pow_sub_one_eq_mod, and_two_pow_sub_one_eq_mod,
    ← or_add_offset (pageSize_dvd_address _) _ (mod_lt _ (by decide))]
  · congr 1
    simp only [pageOf, pageSize]
    have level : found.2.length = 0 ∨ found.2.length = 1 ∨ found.2.length = 2 ∨
        found.2.length = 3 := by omega
    rcases level with level | level | level | level <;>
      simp only [level, Nat.reduceMul, Nat.reduceAdd, Nat.reducePow] <;> omega
  · have divides : pageSize ∣ 2 ^ (12 + 9 * found.2.length) :=
      pow_dvd_pow 2 (Nat.le_add_right 12 _)
    exact (dvd_mod_iff divides).mpr (dvd_mul_left _ _)

/-! ## Decoding entries -/

theorem decode_node
    (decoded : pageTrie.decode depth entry = .node table) : table = address entry := by
  simp only [pageTrie] at decoded
  split at decoded
  · cases decoded
  split at decoded
  · cases decoded
    rfl
  · split at decoded
    · cases decoded
    · cases decoded
      rfl
  · split at decoded
    · cases decoded
    · cases decoded
      rfl
  · cases decoded
  · cases decoded

theorem decode_absent (absent : isPresent entry = false) :
    pageTrie.decode depth entry = .empty := by
  simp only [pageTrie, absent, Bool.not_false, if_true]

theorem decode_last (present : isPresent entry = true) : pageTrie.decode 3 entry = .leaf entry := by
  simp only [pageTrie, present, Bool.not_true, Bool.false_eq_true, if_false]

theorem decode_last_ne_node (entry : PageTableEntry) (next : Nat) :
    pageTrie.decode 3 entry ≠ .node next := by
  cases present : isPresent entry with
  | false =>
    rw [decode_absent present]
    exact nofun
  | true =>
    rw [decode_last present]
    exact nofun

theorem decode_deep (below : 3 < depth) : pageTrie.decode depth entry = .empty := by
  obtain ⟨deeper, rfl⟩ : ∃ deeper, depth = deeper + 4 := ⟨depth - 4, by omega⟩
  cases present : isPresent entry with
  | false => exact decode_absent present
  | true => simp [pageTrie, present]

variable {pml4Phys table : Nat} {p : List (Fin 512)}

variable {memory : Words}

theorem find_last (here : pageTrie.nodeAt memory 0 pml4Phys (tablePath vaddr) = some table) :
    pageTrie.find memory 0 pml4Phys (pagePath vaddr) =
      if isPresent (memory (ptSlot table vaddr)) then
        some (memory (ptSlot table vaddr), [])
      else none := by
  have depth : 0 + (tablePath vaddr).length = 3 := rfl
  rw [pagePath_eq, find_append here, depth]
  cases present : isPresent (memory (ptSlot table vaddr)) with
  | false => simp only [find, pageTrie_slot, decode_absent present, Bool.false_eq_true, if_false]
  | true => simp only [find, pageTrie_slot, decode_last present, if_true]

theorem nodeAt_empty (empty : ∀ i, memory (entryAddr pml4Phys i) = 0)
    (led : pageTrie.nodeAt memory 0 pml4Phys p = some table) : p = [] ∧ table = pml4Phys := by
  cases p with
  | nil =>
    cases led
    exact ⟨rfl, rfl⟩
  | cons i rest =>
    simp only [nodeAt, pageTrie_slot, empty, decode_absent not_isPresent_zero] at led
    cases led

theorem find_empty (empty : ∀ i, memory (entryAddr pml4Phys i) = 0)
    (path : List (Fin 512)) : pageTrie.find memory 0 pml4Phys path = none := by
  cases path with
  | nil => rfl
  | cons i rest =>
    simp only [find, pageTrie_slot, empty, decode_absent not_isPresent_zero]

theorem nodeAt_length (led : pageTrie.nodeAt memory 0 pml4Phys p = some table) : p.length ≤ 3 := by
  rcases eq_nil_or_concat' p with rfl | ⟨front, i, rfl⟩
  · exact Nat.zero_le 3
  obtain ⟨middle, _, decoded⟩ := nodeAt_snoc_eq_some.mp led
  rw [length_append, length_singleton]
  by_contra deep
  have level : front.length = 3 ∨ 3 < front.length := by omega
  rcases level with three | below
  · rw [three] at decoded
    exact decode_last_ne_node _ _ decoded
  · rw [decode_deep below] at decoded
    cases decoded

theorem table_aligned (aligned : pageSize ∣ pml4Phys)
    (led : pageTrie.nodeAt memory 0 pml4Phys p = some table) : pageSize ∣ table := by
  rcases eq_nil_or_concat' p with rfl | ⟨front, i, rfl⟩
  · cases led
    exact aligned
  · obtain ⟨middle, _, decoded⟩ := nodeAt_snoc_eq_some.mp led
    rw [decode_node decoded]
    exact pageSize_dvd_address _

theorem entryAddr_inj {first second : Nat} {i j : Fin 512} (firstAligned : pageSize ∣ first)
    (secondAligned : pageSize ∣ second) (same : entryAddr first i = entryAddr second j) :
    first = second ∧ i = j := by
  obtain ⟨a, rfl⟩ := firstAligned
  obtain ⟨b, rfl⟩ := secondAligned
  unfold entryAddr pageSize at *
  exact ⟨by omega, Fin.ext (by omega)⟩

theorem entryAddr_div (aligned : pageSize ∣ table) (i : Fin 512) :
    entryAddr table i / pageSize = table / pageSize := by
  obtain ⟨a, rfl⟩ := aligned
  unfold entryAddr pageSize
  omega

/-! ## Trees of tables -/

theorem zeroFrame_of_ne (aligned : pageSize ∣ phys)
    (other : w / pageSize ≠ phys / pageSize) : zeroFrame memory phys w = memory w := by
  obtain ⟨a, rfl⟩ := aligned
  apply if_neg
  unfold pageSize at *
  omega

theorem zeroFrame_of_eq (aligned : pageSize ∣ phys)
    (inside : w / pageSize = phys / pageSize) : zeroFrame memory phys w = 0 := by
  obtain ⟨a, rfl⟩ := aligned
  apply if_pos
  unfold pageSize at *
  omega

/--
The tables form a tree: no table is reached along two paths, the root is a
frame, and no table lies in a frame that is available for new tables.
-/
structure TableTree (memory : Words) (pml4Phys : Nat) (available : Nat → Prop) : Prop where
  unique : ∀ ⦃p q table⦄, pageTrie.nodeAt memory 0 pml4Phys p = some table →
    pageTrie.nodeAt memory 0 pml4Phys q = some table → p = q
  aligned : pageSize ∣ pml4Phys
  taken : ∀ ⦃p table⦄, pageTrie.nodeAt memory 0 pml4Phys p = some table → ¬ available table

namespace TableTree

variable {memory after : Words} {available fewer : Nat → Prop} {frame : Nat} {index : Fin 512}

theorem distinct (tree : TableTree memory pml4Phys available) :
    pageTrie.Distinct memory pml4Phys := by
  intro p q x y i j left right clash
  obtain ⟨rfl, rfl⟩ := entryAddr_inj (table_aligned tree.aligned left)
    (table_aligned tree.aligned right) clash
  exact ⟨tree.unique left right, rfl⟩

theorem mono (tree : TableTree memory pml4Phys available)
    (less : ∀ table, fewer table → available table) : TableTree memory pml4Phys fewer :=
  ⟨tree.unique, tree.aligned, fun _ _ led inside => tree.taken led (less _ inside)⟩

theorem empty (zero : ∀ i, memory (entryAddr pml4Phys i) = 0) (aligned : pageSize ∣ pml4Phys)
    (taken : ¬ available pml4Phys) : TableTree memory pml4Phys available := by
  refine ⟨?_, aligned, ?_⟩
  · intro p q table left right
    rw [(nodeAt_empty zero left).1, (nodeAt_empty zero right).1]
  · intro p table led
    rw [(nodeAt_empty zero led).2]
    exact taken

section

variable (tree : TableTree memory pml4Phys available)
include tree

/-- An available frame is installed as an empty table. -/
theorem installs (here : pageTrie.nodeAt memory 0 pml4Phys p = some table)
    (absent : isPresent (memory (entryAddr table index)) = false) (aligned : pageSize ∣ frame)
    (free : available frame) (points : pageTrie.decode p.length entry = .node frame) :
    pageTrie.Installs memory
      (update (zeroFrame memory frame) (entryAddr table index) entry)
      pml4Phys p table index frame := by
  have other {q : List (Fin 512)} {y : Nat}
      (led : pageTrie.nodeAt memory 0 pml4Phys q = some y) (j : Fin 512) :
      entryAddr y j / pageSize ≠ frame / pageSize := by
    have multiple := table_aligned tree.aligned led
    rw [entryAddr_div multiple]
    intro same
    have equal : y = frame := by
      rw [← Nat.div_mul_cancel multiple, same, Nat.div_mul_cancel aligned]
    exact tree.taken led (equal ▸ free)
  refine ⟨here, ?_, decode_absent absent, ?_, ?_, ?_, ?_⟩
  · intro q y j led different
    rw [pageTrie_slot, pageTrie_slot] at different
    rw [pageTrie_slot, update_of_ne different, zeroFrame_of_ne aligned (other led j)]
  · rw [pageTrie_slot, update_self]
    exact points
  · intro j
    have inFrame := entryAddr_div aligned j
    have different : entryAddr frame j ≠ entryAddr table index := by
      intro same
      apply other here index
      rw [← same, inFrame]
    rw [pageTrie_slot, update_of_ne different, zeroFrame_of_eq aligned inFrame]
    exact decode_absent not_isPresent_zero
  · intro q y j k led same
    rw [pageTrie_slot, pageTrie_slot] at same
    apply other led j
    rw [same, entryAddr_div aligned]
  · intro j k same
    exact (entryAddr_inj aligned aligned same).2

theorem install (free : available frame)
    (installs : pageTrie.Installs memory after pml4Phys p table index frame) :
    TableTree after pml4Phys fun table => available table ∧ table ≠ frame := by
  have old {q : List (Fin 512)} {y : Nat}
      (led : pageTrie.nodeAt memory 0 pml4Phys q = some y) : y ≠ frame := by
    rintro rfl
    exact tree.taken led free
  refine ⟨?_, tree.aligned, ?_⟩
  · intro q r y left right
    rcases installs.nodeAt_inv tree.distinct left with left | ⟨rfl, rfl⟩
    · rcases installs.nodeAt_inv tree.distinct right with right | ⟨rfl, rfl⟩
      · exact tree.unique left right
      · exact absurd rfl (old left)
    · rcases installs.nodeAt_inv tree.distinct right with right | ⟨rfl, _⟩
      · exact absurd rfl (old right)
      · rfl
  · rintro q y led ⟨inside, different⟩
    rcases installs.nodeAt_inv tree.distinct led with led | ⟨_, same⟩
    · exact tree.taken led inside
    · exact different same

theorem writeLeaf (writes : pageTrie.WritesLeaf memory after pml4Phys p table index) :
    TableTree after pml4Phys available := by
  have nodes := writes.nodeAt_eq tree.distinct
  refine ⟨?_, tree.aligned, ?_⟩
  · intro q r y left right
    rw [nodes] at left right
    exact tree.unique left right
  · intro q y led
    rw [nodes] at led
    exact tree.taken led

/-- Writing the entry of one page changes no table and no other lookup. -/
theorem writeEntry (here : pageTrie.nodeAt memory 0 pml4Phys (tablePath vaddr) = some table)
    (entry : PageTableEntry) :
    pageTrie.WritesLeaf memory (update memory (ptSlot table vaddr) entry) pml4Phys
        (tablePath vaddr) table (ptIndex vaddr) ∧
      (∀ other, pageOf other ≠ pageOf vaddr →
        pageTrie.find (update memory (ptSlot table vaddr) entry) 0 pml4Phys (pagePath other) =
          pageTrie.find memory 0 pml4Phys (pagePath other)) ∧
      pageTrie.find (update memory (ptSlot table vaddr) entry) 0 pml4Phys (pagePath vaddr) =
        if isPresent entry then some (entry, []) else none := by
  have same : pageTrie.SameBut memory (update memory (ptSlot table vaddr) entry) pml4Phys table
      (ptIndex vaddr) := fun _ _ _ _ other => update_of_ne other _ _
  have writes : pageTrie.WritesLeaf memory _ pml4Phys (tablePath vaddr) table (ptIndex vaddr) :=
    ⟨here, same, decode_last_ne_node _, decode_last_ne_node _⟩
  refine ⟨writes, ?_, ?_⟩
  · intro other different
    apply find_elsewhere tree.distinct here same
    intro inside
    apply different
    rw [← pagePath_eq_iff]
    exact (List.IsPrefix.eq_of_length inside rfl).symm
  · have kept := (writes.nodeAt_eq tree.distinct (tablePath vaddr)).trans here
    rw [find_last kept, update_self]

end

end TableTree

end CantayaOS.Memory
