import CantayaOS.Lib.Span

/-!
# Lists of spans with coalescing insertion

A span that joins a list is linked in behind the last span that starts no later
and is coalesced with its two neighbours in the list.  Insertion keeps what the
list covers and what merging keeps of each span, and a sorted list stays sorted.
-/

namespace CantayaOS.Lib

open List Lib.Span

/-- A block coalesced with the block behind it in the list, if the two touch. -/
def mergeNext (block : Span) : List Span → List Span
  | [] => [block]
  | next :: rest =>
    if block.stop = next.base then ⟨block.base, block.size + next.size⟩ :: rest
    else block :: next :: rest

/-- The free list after a block is linked between `pre` and `post` and coalesced with both. -/
def insertBlock : List Span → Span → List Span → List Span
  | [], block, post => mergeNext block post
  | [prev], block, post => mergeNext prev (mergeNext block post)
  | first :: second :: pre, block, post => first :: insertBlock (second :: pre) block post

/-- The free list after a block is linked in where the insertion loop stops. -/
def insertSorted (free : List Span) (block : Span) : List Span :=
  insertBlock (free.takeWhile (·.base ≤ block.base)) block
    (free.dropWhile (·.base ≤ block.base))

theorem insertBlock_snoc (pre : List Span) (prev block : Span) (post : List Span) :
    insertBlock (pre ++ [prev]) block post = pre ++ mergeNext prev (mergeNext block post) := by
  induction pre with
  | nil => rfl
  | cons first rest ih =>
    cases rest with
    | nil => rfl
    | cons second rest => exact congrArg (first :: ·) ih

theorem cover_mergeNext (block : Span) (post : List Span) (x : Nat) :
    cover (mergeNext block post) x = cover (block :: post) x := by
  cases post with
  | nil => rfl
  | cons next rest =>
    by_cases touch : block.stop = next.base
    · have behind : block.base + block.size = next.base := touch
      simp only [mergeNext, touch, if_true]
      rw [cover_merge, behind]
    · simp only [mergeNext, touch, if_false]

/-- Insertion keeps what the spans cover. -/
theorem cover_insertBlock (pre : List Span) (block : Span) (post : List Span) (x : Nat) :
    cover (insertBlock pre block post) x = cover (pre ++ block :: post) x := by
  rcases eq_nil_or_concat' pre with rfl | ⟨pre, prev, rfl⟩
  · exact cover_mergeNext block post x
  · simp only [insertBlock_snoc, cover_append, cover_mergeNext, cover_cons, cover_nil]
    omega

theorem cover_insertSorted (free : List Span) (block : Span) (x : Nat) :
    cover (insertSorted free block) x = cover (block :: free) x := by
  rw [insertSorted, cover_insertBlock, cover_perm perm_middle, takeWhile_append_dropWhile]

variable {holds : Span → Prop} {b block : Span} {post : List Span}

section

variable (merge : ∀ a b, holds a → holds b → a.stop = b.base → holds ⟨a.base, a.size + b.size⟩)
include merge

theorem forall_mergeNext (all : ∀ b ∈ block :: post, holds b) :
    ∀ b ∈ mergeNext block post, holds b := by
  cases post with
  | nil => exact all
  | cons next rest =>
    by_cases touch : block.stop = next.base
    · obtain ⟨first, second, others⟩ :=
        (forall_mem_cons.mp all).imp_right forall_mem_cons.mp
      simp only [mergeNext, touch]
      exact forall_mem_cons.mpr ⟨merge _ _ first second touch, others⟩
    · simp only [mergeNext, touch]
      exact all

/-- What merging two touching spans keeps holds of every span after an insertion. -/
theorem forall_insertBlock {pre : List Span} (all : ∀ b ∈ pre ++ block :: post, holds b) :
    ∀ b ∈ insertBlock pre block post, holds b := by
  obtain ⟨front, back⟩ := forall_mem_append.mp all
  have merged := forall_mergeNext merge back
  rcases eq_nil_or_concat' pre with rfl | ⟨pre, prev, rfl⟩
  · exact merged
  · obtain ⟨early, last⟩ := forall_mem_append.mp front
    rw [insertBlock_snoc]
    refine forall_mem_append.mpr ⟨early, forall_mergeNext merge ?_⟩
    exact forall_mem_cons.mpr ⟨last prev (.head _), merged⟩

end

/-- The coalesced list starts at the block's own address, with a block at least as large. -/
theorem mergeNext_shape (block : Span) (post : List Span) :
    ∃ size rest, mergeNext block post = ⟨block.base, size⟩ :: rest ∧
      block.size ≤ size ∧ ∀ b ∈ rest, b ∈ post := by
  cases post with
  | nil => exact ⟨block.size, [], rfl, le_rfl, fun b member => member⟩
  | cons next rest =>
    by_cases touch : block.stop = next.base
    · exact ⟨_, rest, if_pos touch, Nat.le_add_right _ _, fun b member => mem_cons_of_mem _ member⟩
    · exact ⟨block.size, next :: rest, if_neg touch, le_rfl, fun b member => member⟩

theorem mergeNext_bases (block : Span) (post : List Span) :
    ((mergeNext block post).map base).Sublist ((block :: post).map base) := by
  cases post with
  | nil => exact List.Sublist.refl _
  | cons next rest =>
    by_cases touch : block.stop = next.base
    · simp only [mergeNext, touch]
      exact (sublist_cons_self _ _).cons_cons _
    · simp only [mergeNext, touch]
      exact List.Sublist.refl _

theorem insertBlock_bases (pre : List Span) (block : Span) (post : List Span) :
    ((insertBlock pre block post).map base).Sublist ((pre ++ block :: post).map base) := by
  have merged := mergeNext_bases block post
  rcases eq_nil_or_concat' pre with rfl | ⟨pre, prev, rfl⟩
  · exact merged
  rw [insertBlock_snoc, map_append, append_assoc, map_append]
  exact ((mergeNext_bases prev _).trans (merged.cons_cons _)).append_left _

theorem length_insertSorted_le (free : List Span) (block : Span) :
    (insertSorted free block).length ≤ free.length + 1 := by
  have shorter := (insertBlock_bases (free.takeWhile (·.base ≤ block.base)) block
    (free.dropWhile (·.base ≤ block.base))).length_le
  rwa [length_map, length_map, perm_middle.length_eq, length_cons,
    takeWhile_append_dropWhile] at shorter

/-- Absorbing first the block behind and then the one behind that is coalescing from behind. -/
theorem mergeNext_mergeNext {prev : Span} (touch : prev.stop = block.base) (post : List Span) :
    mergeNext prev (mergeNext block post) =
      mergeNext ⟨prev.base, prev.size + block.size⟩ post := by
  cases post with
  | nil => simp [mergeNext, touch]
  | cons next rest =>
    have stop : (mk prev.base (prev.size + block.size)).stop = block.stop := by
      unfold stop at *
      simp only
      omega
    by_cases adjacent : block.stop = next.base
    · simp [mergeNext, adjacent, touch, stop, add_assoc]
    · simp [mergeNext, adjacent, touch, stop]

/-- Every block ends strictly before the later ones start. -/
def Sorted (free : List Span) : Prop := free.Pairwise fun a b => a.stop < b.base

theorem base_le_stop (block : Span) : block.base ≤ block.stop := Nat.le_add_right _ _

section Insertion

variable {block : Span} {free pre post : List Span}

theorem Sorted.mergeNext (sorted : Sorted post) (behind : ∀ b ∈ post, block.stop ≤ b.base) :
    Sorted (mergeNext block post) ∧ ∀ b ∈ mergeNext block post, block.base ≤ b.base := by
  have start := base_le_stop block
  cases post with
  | nil => exact ⟨pairwise_singleton _ _, by simp [Lib.mergeNext]⟩
  | cons next rest =>
    obtain ⟨far, later⟩ := pairwise_cons.mp sorted
    have here := behind next (.head _)
    have width := base_le_stop next
    by_cases touch : block.stop = next.base
    · simp only [Lib.mergeNext, touch]
      refine ⟨pairwise_cons.mpr ⟨fun b member => ?_, later⟩,
        forall_mem_cons.mpr ⟨le_rfl, fun b member => ?_⟩⟩
      · have gap := far b member
        simp only [stop] at *
        omega
      · exact start.trans (behind b (mem_cons_of_mem _ member))
    · simp only [Lib.mergeNext, touch]
      refine ⟨pairwise_cons.mpr ⟨forall_mem_cons.mpr ⟨by omega, fun b member => ?_⟩,
        sorted⟩, forall_mem_cons.mpr ⟨le_rfl, fun b member => ?_⟩⟩
      · have gap := far b member
        omega
      · exact start.trans (behind b member)

theorem Sorted.insertBlock (sorted : Sorted (pre ++ post))
    (before : ∀ b ∈ pre, b.stop ≤ block.base) (behind : ∀ b ∈ post, block.stop ≤ b.base) :
    Sorted (insertBlock pre block post) := by
  obtain ⟨front, back, across⟩ := pairwise_append.mp sorted
  obtain ⟨merged, higher⟩ := Sorted.mergeNext back behind
  rcases eq_nil_or_concat' pre with rfl | ⟨pre, prev, rfl⟩
  · exact merged
  obtain ⟨early, _, below⟩ := pairwise_append.mp front
  have last := before prev (by simp)
  obtain ⟨both, above⟩ := @Sorted.mergeNext prev _ merged fun b member =>
    last.trans (higher b member)
  rw [insertBlock_snoc]
  refine pairwise_append.mpr ⟨early, both, fun a first b second => ?_⟩
  exact lt_of_lt_of_le (below a first prev (.head _)) (above b second)

/-- A block that lies apart from a sorted list is inserted at its place. -/
theorem Sorted.insertSorted (sorted : Sorted free) (large : ∀ b ∈ free, 0 < b.size)
    (nonempty : 0 < block.size) (apart : ∀ b ∈ free, b.Apart block) :
    Sorted (insertSorted free block) := by
  have ordered {b : Span} (member : b ∈ free) := (apart b member).ordered (large b member) nonempty
  have whole : free.takeWhile (·.base ≤ block.base) ++ free.dropWhile (·.base ≤ block.base) =
      free := takeWhile_append_dropWhile
  refine Sorted.insertBlock (whole.symm ▸ sorted) ?_ ?_
  · intro b member
    have low : b.base ≤ block.base := by
      simpa using List.all_eq_true.mp all_takeWhile b member
    rcases ordered ((takeWhile_sublist _).subset member) with before | behind
    · exact before
    · unfold stop at behind
      omega
  · intro b member
    have inside := (dropWhile_sublist _).subset member
    have high : block.base < b.base := by
      have rest : Sorted (free.dropWhile (·.base ≤ block.base)) :=
        sorted.sublist (dropWhile_sublist _)
      have stops := head?_dropWhile_not (fun b : Span => decide (b.base ≤ block.base)) free
      cases shape : free.dropWhile (·.base ≤ block.base) with
      | nil => simp [shape] at member
      | cons first later =>
        rw [shape] at member rest stops
        have start : block.base < first.base := by simpa using stops
        rcases mem_cons.mp member with rfl | behind
        · exact start
        · have gap := (pairwise_cons.mp rest).1 b behind
          have width := base_le_stop first
          omega
    rcases ordered inside with before | behind
    · have width := base_le_stop b
      omega
    · exact behind

/-- Insertion changes only the block that contains the inserted one. -/
theorem mem_insertBlock (member : b ∈ insertBlock pre block post) :
    b ∈ pre ++ post ∨ b.base ≤ block.base ∧ block.stop ≤ b.stop := by
  obtain ⟨size, rest, shape, wide, sub⟩ := mergeNext_shape block post
  have covers : block.stop ≤ (mk block.base size).stop := Nat.add_le_add_left wide _
  rcases List.eq_nil_or_concat' pre with rfl | ⟨pre, prev, rfl⟩
  · rw [insertBlock, shape] at member
    rcases List.mem_cons.mp member with rfl | later
    · exact .inr ⟨le_rfl, covers⟩
    · exact .inl (sub b later)
  rw [insertBlock_snoc, shape, mergeNext, List.mem_append] at member
  rcases member with early | late
  · exact .inl (by simp [early])
  split at late
  next touch =>
    rcases List.mem_cons.mp late with rfl | later
    · refine .inr ?_
      simp only [stop] at *
      omega
    · exact .inl (List.mem_append_right _ (sub b later))
  · rcases List.mem_cons.mp late with rfl | later
    · exact .inl (by simp)
    · rcases List.mem_cons.mp later with rfl | later
      · exact .inr ⟨le_rfl, covers⟩
      · exact .inl (List.mem_append_right _ (sub b later))

theorem mem_insertSorted (member : b ∈ insertSorted free block) :
    b ∈ free ∨ b.base ≤ block.base ∧ block.stop ≤ b.stop := by
  have inserted := mem_insertBlock member
  rwa [takeWhile_append_dropWhile] at inserted

end Insertion

end CantayaOS.Lib
