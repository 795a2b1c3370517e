import CantayaOS.Lib.Coalesce
import CantayaOS.Lib.Linked
import CantayaOS.Memory.Heap

/-!
# The free list in memory

`Chain memory head blocks` says that the free list starting at `head` visits
the given spans in order.  Each operation of the heap is shown to act on that
list of spans; a write inside the headers of one block leaves every block
alone whose header lies elsewhere.
-/

namespace CantayaOS.Memory

open Lib FreeBlock List

/-- The free list from `head` visits `blocks` and then stands at `last`. -/
def Segment (memory : Words) (head : Option Nat) (blocks : List Span) (last : Option Nat) : Prop :=
  Linked (FreeBlock.next memory) head (blocks.map Span.base) last ∧
    ∀ block ∈ blocks, FreeBlock.size memory block.base = block.size

def Chain (memory : Words) (head : Option Nat) (blocks : List Span) : Prop :=
  Segment memory head blocks none

/-- The block headers at two addresses do not overlap. -/
def Clear (first second : Nat) : Prop :=
  first + FreeBlock.minSize ≤ second ∨ second + FreeBlock.minSize ≤ first

/-- The headers of the listed blocks do not overlap. -/
def Separate (blocks : List Span) : Prop := (blocks.map Span.base).Pairwise Clear

variable {block : Span} {rest pre blocks post : List Span} {before after memory : Words}
  {head last : Option Nat} {w fuel : Nat}

theorem Clear.symm {first second : Nat} (clear : Clear first second) : Clear second first :=
  Or.symm clear

namespace Separate

theorem cons_iff :
    Separate (block :: rest) ↔ (∀ b ∈ rest, Clear block.base b.base) ∧ Separate rest := by
  unfold Separate
  rw [map_cons, pairwise_cons, List.forall_mem_map]

theorem append_iff {first second : List Span} :
    Separate (first ++ second) ↔ Separate first ∧ Separate second ∧
      ∀ b ∈ first, ∀ c ∈ second, Clear b.base c.base := by
  unfold Separate
  rw [map_append, pairwise_append]
  simp

theorem replace {others : List Span} (separate : Separate (pre ++ others))
    (sub : (blocks.map Span.base).Sublist (others.map Span.base)) : Separate (pre ++ blocks) := by
  unfold Separate at *
  rw [map_append] at *
  exact List.Pairwise.sublist ((List.Sublist.refl _).append sub) separate

end Separate

/-! ## Writes to one block header -/

/-- The two memories agree outside the header of the block. -/
def SameOutside (block : Nat) (before after : Words) : Prop :=
  ∀ w, ¬ (block ≤ w ∧ w < block + FreeBlock.minSize) → after w = before w

namespace SameOutside

theorem refl (block : Nat) (memory : Words) : SameOutside block memory memory := fun _ _ => rfl

theorem trans {block : Nat} {first second third : Words} (left : SameOutside block first second)
    (right : SameOutside block second third) : SameOutside block first third :=
  fun w outside => (right w outside).trans (left w outside)

variable (memory)

theorem setSize (block value : Nat) : SameOutside block memory (setSize memory block value) := by
  intro w outside
  apply Function.update_of_ne
  rintro rfl
  exact outside ⟨le_rfl, by unfold minSize; omega⟩

theorem setNext (block : Nat) (target : Option Nat) :
    SameOutside block memory (setNext memory block target) := by
  intro w outside
  unfold minSize at outside
  have tag : w ≠ block + 8 := by omega
  have pointer : w ≠ block + 16 := by omega
  cases target with
  | none => simp [FreeBlock.setNext, tag]
  | some target => simp [FreeBlock.setNext, tag, pointer]

theorem absorb (block absorbed : Nat) : SameOutside block memory (absorb memory block absorbed) :=
  (setSize memory block _).trans (setNext _ block _)

theorem coalesceNext (block : Nat) :
    SameOutside block memory (FreeBlock.coalesceNext memory block) := by
  unfold FreeBlock.coalesceNext
  split
  · split
    · exact absorb memory block _
    · exact refl block memory
  · exact refl block memory

variable {memory}

theorem size_eq {block other : Nat} (same : SameOutside block before after)
    (clear : Clear block other) : size after other = size before other := by
  apply same
  unfold Clear minSize at *
  omega

theorem next_eq {block other : Nat} (same : SameOutside block before after)
    (clear : Clear block other) : next after other = next before other := by
  unfold Clear minSize at clear
  unfold FreeBlock.next
  rw [same (other + 8) (by unfold minSize; omega), same (other + 16) (by unfold minSize; omega)]

theorem segment {block : Nat} (same : SameOutside block before after)
    (kept : Segment before head blocks last)
    (clear : ∀ b ∈ blocks, Clear block b.base) : Segment after head blocks last := by
  refine ⟨kept.1.congr ?_, ?_⟩
  · intro node member
    obtain ⟨b, inside, rfl⟩ := List.mem_map.mp member
    exact same.next_eq (clear b inside)
  · intro b inside
    rw [same.size_eq (clear b inside)]
    exact kept.2 b inside

end SameOutside

namespace FreeBlock

variable (memory)

@[simp] theorem size_setSize (block value : Nat) :
    size (setSize memory block value) block = value := by
  simp [size, setSize]

@[simp] theorem size_setNext (block : Nat) (target : Option Nat) :
    size (setNext memory block target) block = size memory block := by
  cases target with
  | none => simp [size, setNext]
  | some target => simp [size, setNext]

@[simp] theorem next_setNext (block : Nat) (target : Option Nat) :
    next (setNext memory block target) block = target := by
  cases target with
  | none => simp [next, setNext]
  | some target => simp [next, setNext]

theorem size_absorb (block absorbed : Nat) :
    size (absorb memory block absorbed) block = size memory block + size memory absorbed := by
  simp [absorb]

variable {memory}

theorem next_absorb {block absorbed : Nat} (clear : Clear block absorbed) :
    next (absorb memory block absorbed) block = next memory absorbed := by
  unfold absorb
  rw [next_setNext]
  exact (SameOutside.setSize memory block _).next_eq clear

end FreeBlock

namespace Segment

theorem append_iff {first second : List Span} :
    Segment memory head (first ++ second) last ↔
      ∃ middle, Segment memory head first middle ∧ Segment memory middle second last := by
  unfold Segment
  rw [map_append, Linked.append_iff]
  constructor
  · rintro ⟨⟨middle, left, right⟩, sizes⟩
    exact ⟨middle, ⟨left, fun b member => sizes b (mem_append_left _ member)⟩,
      right, fun b member => sizes b (mem_append_right _ member)⟩
  · rintro ⟨middle, ⟨left, leftSizes⟩, right, rightSizes⟩
    refine ⟨⟨middle, left, right⟩, ?_⟩
    intro b member
    rcases mem_append.mp member with member | member
    · exact leftSizes b member
    · exact rightSizes b member

theorem cons_iff :
    Segment memory head (block :: rest) last ↔
      head = some block.base ∧ size memory block.base = block.size ∧
        Segment memory (next memory block.base) rest last := by
  unfold Segment
  simp only [map_cons, Linked, mem_cons, forall_eq_or_imp]
  tauto

theorem nil_iff : Segment memory head [] last ↔ head = last := by
  simp [Segment, Linked]

theorem head_eq (segment : Segment memory head blocks last) :
    head = (blocks.head?.map Span.base).or last := by
  rw [segment.1.head_eq, head?_map]

end Segment

theorem Segment.redirect (segment : Segment memory head (pre ++ [block]) last) (target : Option Nat)
    (clear : ∀ b ∈ pre, Clear block.base b.base) :
    Segment (setNext memory block.base target) head (pre ++ [block]) target := by
  obtain ⟨middle, left, right⟩ := Segment.append_iff.mp segment
  rw [Segment.cons_iff] at right
  obtain ⟨start, size, _⟩ := right
  refine Segment.append_iff.mpr ⟨middle, ?_, ?_⟩
  · exact (SameOutside.setNext memory block.base target).segment left clear
  · rw [Segment.cons_iff, Segment.nil_iff]
    exact ⟨start, (size_setNext _ _ _).trans size, next_setNext _ _ _⟩

theorem absorb_segment {next : Span}
    (segment : Segment memory (some block.base) (block :: next :: rest) none)
    (separate : Separate (block :: next :: rest)) :
    Segment (absorb memory block.base next.base) (some block.base)
      (⟨block.base, block.size + next.size⟩ :: rest) none := by
  rw [Segment.cons_iff, Segment.cons_iff] at segment
  obtain ⟨_, blockSize, _, nextSize, tail⟩ := segment
  have clear := (Separate.cons_iff.mp separate).1
  refine Segment.cons_iff.mpr ⟨rfl, ?_, ?_⟩
  · rw [size_absorb, blockSize, nextSize]
  · rw [next_absorb (clear next (.head _))]
    exact (SameOutside.absorb memory block.base next.base).segment tail
      fun b member => clear b (mem_cons_of_mem _ member)

open Segment

theorem coalesceNext_segment (segment : Segment memory (some block.base) (block :: post) none)
    (separate : Separate (block :: post)) :
    Segment (coalesceNext memory block.base) (some block.base)
      (mergeNext block post) none := by
  obtain ⟨_, size, tail⟩ := cons_iff.mp segment
  cases post with
  | nil =>
    rw [nil_iff] at tail
    simpa only [coalesceNext, tail, mergeNext] using segment
  | cons next rest =>
    have following := (cons_iff.mp tail).1
    by_cases touch : block.stop = next.base
    · have adjacent : block.base + block.size = next.base := touch
      simp only [coalesceNext, following, size, adjacent, mergeNext, touch]
      exact absorb_segment segment separate
    · have gap : ¬ block.base + block.size = next.base := touch
      simp only [coalesceNext, following, size, gap, mergeNext, touch]
      exact segment

/-! ## Linking a block into the list -/

def InHeader (blocks : List Span) (w : Nat) : Prop :=
  ∃ block ∈ blocks, block.base ≤ w ∧ w < block.base + FreeBlock.minSize

theorem SameOutside.apply (same : SameOutside block.base before after) (member : block ∈ blocks)
    (outside : ¬ InHeader blocks w) : after w = before w :=
  same w fun inside => outside ⟨block, member, inside⟩

def lastBase (blocks : List Span) : Option Nat := blocks.getLast?.map Span.base

theorem lastBase_concat (pre : List Span) (block : Span) :
    lastBase (pre ++ [block]) = some block.base := by simp [lastBase]

def headBase (blocks : List Span) : Option Nat := blocks.head?.map Span.base

theorem Chain.head_eq (chain : Chain memory head blocks) : head = headBase blocks := by
  rw [Segment.head_eq chain, Option.or_none, headBase]

theorem Segment.push (segment : Segment memory head post last)
    (size : size memory block.base = block.size) (clear : ∀ b ∈ post, Clear block.base b.base) :
    Segment (setNext memory block.base head) (some block.base) (block :: post) last := by
  refine Segment.cons_iff.mpr ⟨rfl, (size_setNext _ _ _).trans size, ?_⟩
  rw [next_setNext]
  exact (SameOutside.setNext memory block.base head).segment segment clear

/-- A block linked behind `prev`, before any coalescing. -/
theorem link_chain {prev : Span} (chain : Chain memory head (pre ++ [prev] ++ post))
    (size : size memory block.base = block.size)
    (separate : Separate (pre ++ [prev] ++ block :: post)) :
    Chain (setNext (setNext memory block.base (headBase post))
        prev.base (some block.base)) head (pre ++ [prev] ++ block :: post) := by
  obtain ⟨frontSeparate, backSeparate, across⟩ := Separate.append_iff.mp separate
  obtain ⟨middle, front, back⟩ := Segment.append_iff.mp chain
  have start : middle = headBase post := Chain.head_eq back
  subst start
  have pushed := back.push size (Separate.cons_iff.mp backSeparate).1
  have kept := (SameOutside.setNext memory block.base (headBase post)).segment front
    fun b member => (across b member block (.head _)).symm
  refine Segment.append_iff.mpr ⟨some block.base, kept.redirect (some block.base) ?_, ?_⟩
  · intro b member
    have apart := (Separate.append_iff.mp frontSeparate).2.2
    exact (apart b member prev (.head _)).symm
  · apply (SameOutside.setNext _ prev.base _).segment pushed
    exact across prev (mem_append_right _ (.head _))

section

variable (chain : Chain memory head (pre ++ block :: post))
  (separate : Separate (pre ++ block :: post))
include chain separate

/-- Rewriting the list from a block on, by writes to its header only, keeps what is before it. -/
theorem Chain.revise {others : List Span} (same : SameOutside block.base memory after)
    (revised : Segment memory (some block.base) (block :: post) none →
      Separate (block :: post) → Segment after (some block.base) others none) :
    Chain after head (pre ++ others) := by
  obtain ⟨_, backSeparate, across⟩ := Separate.append_iff.mp separate
  obtain ⟨middle, front, back⟩ := append_iff.mp chain
  obtain rfl := (cons_iff.mp back).1
  refine append_iff.mpr ⟨some block.base, ?_, revised back backSeparate⟩
  exact same.segment front fun b member => (across b member block (.head _)).symm

theorem coalesceNext_chain :
    Chain (coalesceNext memory block.base) head (pre ++ mergeNext block post) :=
  chain.revise separate (SameOutside.coalesceNext _ _) coalesceNext_segment

end

theorem absorb_chain {next : Span} (chain : Chain memory head (pre ++ block :: next :: rest))
    (separate : Separate (pre ++ block :: next :: rest)) :
    Chain (absorb memory block.base next.base) head
      (pre ++ ⟨block.base, block.size + next.size⟩ :: rest) :=
  chain.revise separate (SameOutside.absorb _ _ _) absorb_segment

theorem Chain.size_eq (chain : Chain memory head blocks) (member : block ∈ blocks) :
    size memory block.base = block.size :=
  chain.2 block member

namespace HeapMachine

section

variable (machine : HeapMachine) (block)
  (chain : Chain machine.memory machine.heap.freeList (pre ++ post))
  (size : FreeBlock.size machine.memory block.base = block.size)
  (separate : Separate (pre ++ block :: post))
include chain size separate

/-- Freeing and growth link the block in and coalesce it with both neighbours. -/
theorem link_insertBlock :
    Chain (machine.linkFreed block.base (lastBase pre) (headBase post)).memory
        (machine.linkFreed block.base (lastBase pre) (headBase post)).heap.freeList
        (insertBlock pre block post) ∧
      Chain (machine.linkRegion block.base (lastBase pre) (headBase post)).memory
        (machine.linkRegion block.base (lastBase pre) (headBase post)).heap.freeList
        (insertBlock pre block post) := by
  rcases eq_nil_or_concat' pre with rfl | ⟨pre, prev, rfl⟩
  · have start := chain.head_eq
    rw [start] at chain
    have pushed := coalesceNext_segment (chain.push size (Separate.cons_iff.mp separate).1) separate
    exact ⟨pushed, pushed⟩
  have linked := link_chain chain size separate
  have merged := coalesceNext_chain linked separate
  have known := mem_append_right pre (mem_singleton_self prev)
  have linkedSize := linked.size_eq (mem_append_left _ known)
  have mergedSize := merged.size_eq (mem_append_left _ known)
  have mergedSeparate := separate.replace (mergeNext_bases block post)
  obtain ⟨_, rest, shape, _⟩ := mergeNext_shape block post
  rw [insertBlock_snoc, lastBase_concat]
  by_cases touch : prev.stop = block.base
  · have adjacent : prev.base + prev.size = block.base := touch
    constructor
    · rw [shape, append_assoc] at merged mergedSeparate
      rw [shape]
      simp only [linkFreed, mergedSize, adjacent, if_true, mergeNext, touch]
      exact absorb_chain merged mergedSeparate
    · rw [mergeNext_mergeNext touch]
      rw [append_assoc, singleton_append] at linked separate
      simp only [linkRegion, linkedSize, adjacent, if_true]
      apply coalesceNext_chain (absorb_chain linked separate)
      exact separate.replace ((sublist_cons_self _ _).cons_cons _)
  · have gap : ¬ prev.base + prev.size = block.base := touch
    rw [shape, append_assoc] at merged
    rw [shape]
    simp only [linkFreed, linkRegion, mergedSize, linkedSize, gap, if_false, mergeNext, touch]
    exact ⟨merged, merged⟩

end

/-- Freeing and growth write only into the headers of the block and of the blocks before it. -/
theorem link_frame (machine : HeapMachine) (current : Option Nat)
    (outside : ¬ InHeader (block :: pre) w) :
    (machine.linkFreed block.base (lastBase pre) current).memory w = machine.memory w ∧
      (machine.linkRegion block.base (lastBase pre) current).memory w = machine.memory w := by
  have ofBlock {before after : Words} (same : SameOutside block.base before after) :
      after w = before w := same.apply mem_cons_self outside
  rcases eq_nil_or_concat' pre with rfl | ⟨pre, prev, rfl⟩
  · have pushed := ofBlock
      ((SameOutside.setNext machine.memory _ current).trans (SameOutside.coalesceNext _ _))
    exact ⟨pushed, pushed⟩
  have ofPrev {before after : Words} (same : SameOutside prev.base before after) :
      after w = before w := same.apply (by simp) outside
  have linked := (ofPrev (SameOutside.setNext _ _ (some block.base))).trans
    (ofBlock (SameOutside.setNext machine.memory _ current))
  have merged := (ofBlock (SameOutside.coalesceNext _ _)).trans linked
  rw [lastBase_concat]
  simp only [linkFreed, linkRegion]
  constructor <;> split
  · exact (ofPrev (SameOutside.absorb _ _ _)).trans merged
  · exact merged
  · exact (ofPrev ((SameOutside.absorb _ _ _).trans (SameOutside.coalesceNext _ _))).trans linked
  · exact merged

/-! ## The two walks over the list -/

theorem lastBase_cons_or (block : Span) (rest : List Span) (prev : Option Nat) :
    (lastBase (block :: rest)).or prev = (lastBase rest).or (some block.base) := by
  cases rest with
  | nil => rfl
  | cons next rest => simp [lastBase, getLast?_cons]

/-- The insertion loop cuts the list in front of the first block behind the address. -/
theorem insertionPoint_spec {addr : Nat} {prev : Option Nat} {found : Option Nat × Option Nat}
    (chain : Chain memory head blocks)
    (walked : insertionPoint memory addr fuel prev head = some found) :
    ∃ pre post, blocks = pre ++ post ∧ found = ((lastBase pre).or prev, headBase post) ∧
      ∀ size, insertSorted blocks ⟨addr, size⟩ = insertBlock pre ⟨addr, size⟩ post := by
  refine ⟨blocks.takeWhile (·.base ≤ addr), blocks.dropWhile (·.base ≤ addr),
    takeWhile_append_dropWhile.symm, ?_, fun _ => rfl⟩
  induction fuel generalizing head prev blocks with
  | zero => cases walked
  | succ fuel ih =>
    cases blocks with
    | nil =>
      obtain rfl := nil_iff.mp chain
      cases walked
      rfl
    | cons block rest =>
      obtain ⟨rfl, _, tail⟩ := cons_iff.mp chain
      simp only [insertionPoint] at walked
      split at walked
      next behind =>
        cases walked
        have stops : ¬ decide (block.base ≤ addr) := by simpa using behind
        rw [takeWhile_cons, dropWhile_cons, if_neg stops, if_neg stops]
        rfl
      next before =>
        have passes : decide (block.base ≤ addr) := by simpa using before
        rw [takeWhile_cons, dropWhile_cons, if_pos passes, if_pos passes, lastBase_cons_or]
        exact ih tail walked

theorem insertionPoint_ends (addr : Nat) (prev : Option Nat) (chain : Chain memory head blocks)
    (enough : blocks.length < fuel) :
    ∃ place, insertionPoint memory addr fuel prev head = some place := by
  induction fuel generalizing head prev blocks with
  | zero => omega
  | succ fuel ih =>
    cases blocks with
    | nil =>
      obtain rfl := nil_iff.mp chain
      exact ⟨_, rfl⟩
    | cons block rest =>
      obtain ⟨rfl, _, tail⟩ := cons_iff.mp chain
      simp only [insertionPoint]
      split
      · exact ⟨_, rfl⟩
      · exact ih _ tail (Nat.lt_of_succ_lt_succ enough)

/-- The search loop returns the first block that is large enough, with its predecessor. -/
theorem findFit_spec {layout : Layout} {prev : Option Nat} {found : Option (Option Nat × Nat)}
    (chain : Chain memory head blocks)
    (walked : findFit memory layout fuel prev head = some found) :
    (found = none ∧ ∀ block ∈ blocks, block.size < totalNeeded layout block.base) ∨
      ∃ pre block post, blocks = pre ++ block :: post ∧
        found = some ((lastBase pre).or prev, block.base) ∧
        totalNeeded layout block.base ≤ block.size ∧
        ∀ early ∈ pre, early.size < totalNeeded layout early.base := by
  induction fuel generalizing head prev blocks with
  | zero => cases walked
  | succ fuel ih =>
    cases blocks with
    | nil =>
      obtain rfl := nil_iff.mp chain
      cases walked
      exact .inl ⟨rfl, by simp⟩
    | cons block rest =>
      obtain ⟨rfl, size, tail⟩ := cons_iff.mp chain
      simp only [findFit, size] at walked
      split at walked
      next fits =>
        cases walked
        exact .inr ⟨[], block, rest, rfl, rfl, fits, by simp⟩
      next small =>
        have small := Nat.lt_of_not_le small
        rcases ih tail walked with ⟨rfl, allSmall⟩ | ⟨pre, hit, post, rfl, rfl, fits, early⟩
        · exact .inl ⟨rfl, forall_mem_cons.mpr ⟨small, allSmall⟩⟩
        · refine .inr ⟨block :: pre, hit, post, rfl, ?_, fits, ?_⟩
          · rw [lastBase_cons_or]
          · exact forall_mem_cons.mpr ⟨small, early⟩

theorem findFit_ends (layout : Layout) (prev : Option Nat) (chain : Chain memory head blocks)
    (enough : blocks.length < fuel) : ∃ fit, findFit memory layout fuel prev head = some fit := by
  induction fuel generalizing head prev blocks with
  | zero => omega
  | succ fuel ih =>
    cases blocks with
    | nil =>
      obtain rfl := nil_iff.mp chain
      exact ⟨_, rfl⟩
    | cons block rest =>
      obtain ⟨rfl, _, tail⟩ := cons_iff.mp chain
      simp only [findFit]
      split
      · exact ⟨_, rfl⟩
      · exact ih _ tail (Nat.lt_of_succ_lt_succ enough)

theorem unlink_chain {machine : HeapMachine}
    (chain : Chain machine.memory machine.heap.freeList (pre ++ block :: post))
    (separate : Separate (pre ++ block :: post)) :
    Chain (machine.unlink (lastBase pre) block.base).memory
      (machine.unlink (lastBase pre) block.base).heap.freeList (pre ++ post) := by
  obtain ⟨frontSeparate, _, across⟩ := Separate.append_iff.mp separate
  obtain ⟨middle, front, back⟩ := Segment.append_iff.mp chain
  obtain ⟨_, _, tail⟩ := Segment.cons_iff.mp back
  rcases eq_nil_or_concat' pre with rfl | ⟨pre, prev, rfl⟩
  · exact tail
  rw [lastBase_concat]
  refine Segment.append_iff.mpr ⟨_, front.redirect _ ?_, ?_⟩
  · intro b member
    have apart := (Separate.append_iff.mp frontSeparate).2.2
    exact (apart b member prev (.head _)).symm
  · apply (SameOutside.setNext machine.memory prev.base _).segment tail
    intro b member
    exact across prev (by simp) b (mem_cons_of_mem _ member)

theorem unlink_frame (machine : HeapMachine) (blockAddr : Nat) (outside : ¬ InHeader pre w) :
    (machine.unlink (lastBase pre) blockAddr).memory w = machine.memory w := by
  rcases eq_nil_or_concat' pre with rfl | ⟨pre, prev, rfl⟩
  · rfl
  · rw [lastBase_concat]
    exact (SameOutside.setNext machine.memory prev.base _).apply (by simp) outside

end HeapMachine

end CantayaOS.Memory
