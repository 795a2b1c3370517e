import Mathlib

/-!
# Abstract pools of resources

A pool hands out finite parts of its free resources and takes single resources
back.  Free resources and the live parts always partition the resources the
pool started with.
-/

namespace CantayaOS.Lib

open Finset

variable {α : Type}

/-- The free resources and the parts currently handed out. -/
structure Pool (α : Type) where
  free : Finset α
  live : List (Finset α)

variable {whole : Finset α} {pool : Pool α}

variable {free part : Finset α} {live : List (Finset α)}

namespace Pool

def Holds (pool : Pool α) (a : α) : Prop := ∃ part ∈ pool.live, a ∈ part

/-- Free resources and live parts partition `whole`. -/
structure Partition (whole : Finset α) (pool : Pool α) : Prop where
  apart : pool.live.Pairwise Disjoint
  fresh : ∀ part ∈ pool.live, Disjoint part pool.free
  covers : ∀ a, a ∈ whole ↔ a ∈ pool.free ∨ pool.Holds a

theorem partition_initial (whole : Finset α) : Partition whole ⟨whole, []⟩ :=
  ⟨List.Pairwise.nil, by simp, by simp [Holds]⟩

/-- Everything a live part holds belongs to the whole. -/
theorem Partition.live_subset (partition : Partition whole pool) (member : part ∈ pool.live) :
    part ⊆ whole := by
  intro a inside
  exact (partition.covers a).mpr (.inr ⟨part, member, inside⟩)

/-- The order in which the live parts are listed does not matter. -/
theorem Partition.perm {live' : List (Finset α)}
    (partition : Partition whole ⟨free, live⟩) (same : live.Perm live') :
    Partition whole ⟨free, live'⟩ := by
  refine ⟨?_, ?_, ?_⟩
  · exact (same.pairwise_iff fun apart => apart.symm).mp partition.apart
  · intro part member
    exact partition.fresh part (same.mem_iff.mpr member)
  · intro a
    rw [partition.covers a]
    simp only [Holds, same.mem_iff]

/-- An empty part does not count. -/
theorem partition_cons_empty_iff :
    Partition whole ⟨free, ∅ :: live⟩ ↔ Partition whole ⟨free, live⟩ := by
  constructor
  · rintro ⟨apart, fresh, covers⟩
    refine ⟨(List.pairwise_cons.mp apart).2, ?_, ?_⟩
    · intro part member
      exact fresh part (List.mem_cons_of_mem _ member)
    · intro a
      rw [covers a]
      simp [Holds]
  · rintro ⟨apart, fresh, covers⟩
    refine ⟨List.Pairwise.cons (fun part _ => disjoint_empty_left part) apart, ?_, ?_⟩
    · intro part member
      rcases List.mem_cons.mp member with rfl | member
      · exact disjoint_empty_left _
      · exact fresh part member
    · intro a
      rw [covers a]
      simp [Holds]

variable [DecidableEq α]

def take (pool : Pool α) (part : Finset α) : Pool α := ⟨pool.free \ part, part :: pool.live⟩

/-- Take one resource back from the part that holds it. -/
def release (pool : Pool α) (a : α) : Pool α :=
  ⟨insert a pool.free, pool.live.map fun part => part.erase a⟩

section

variable (partition : Partition whole pool)
include partition

theorem Partition.take (available : part ⊆ pool.free) : Partition whole (pool.take part) := by
  refine ⟨?_, ?_, ?_⟩
  · refine List.Pairwise.cons ?_ partition.apart
    intro other member
    exact (partition.fresh other member).symm.mono_left available
  · intro other member
    rcases List.mem_cons.mp member with same | member
    · rw [same]
      exact disjoint_sdiff
    · exact (partition.fresh other member).mono_right sdiff_subset
  · intro a
    rw [partition.covers a]
    simp only [Pool.take, Holds, mem_sdiff, List.mem_cons, exists_eq_or_imp]
    constructor
    · rintro (free | held)
      · by_cases taken : a ∈ part
        · exact .inr (.inl taken)
        · exact .inl ⟨free, taken⟩
      · exact .inr (.inr held)
    · rintro (free | taken | held)
      · exact .inl free.1
      · exact .inl (available taken)
      · exact .inr held

theorem Partition.release {a : α} (held : pool.Holds a) : Partition whole (pool.release a) := by
  refine ⟨?_, ?_, ?_⟩
  · refine List.Pairwise.map _ ?_ partition.apart
    intro first second apart
    exact apart.mono (erase_subset _ _) (erase_subset _ _)
  · intro part member
    obtain ⟨old, oldMember, rfl⟩ := List.mem_map.mp member
    rw [disjoint_left]
    intro b inPart inFree
    rcases mem_insert.mp inFree with same | free
    · exact (mem_erase.mp inPart).1 same
    · exact disjoint_left.mp (partition.fresh old oldMember)
        (mem_erase.mp inPart).2 free
  · intro b
    rw [partition.covers b]
    simp only [Pool.release, Holds, mem_insert, List.mem_map, exists_exists_and_eq_and, mem_erase]
    by_cases same : b = a
    · subst same
      exact ⟨fun _ => .inl (.inl rfl), fun _ => .inr held⟩
    constructor
    · rintro (free | ⟨part, member, inside⟩)
      · exact .inl (.inr free)
      · exact .inr ⟨part, member, same, inside⟩
    · rintro ((same' | free) | ⟨part, member, _, inside⟩)
      · exact absurd same' same
      · exact .inl free
      · exact .inr ⟨part, member, inside⟩

/-- The sizes of the live parts and of the free rest always add up to the whole. -/
theorem Partition.card : (pool.live.map card).sum + pool.free.card = whole.card := by
  obtain ⟨free, live⟩ := pool
  induction live generalizing free with
  | nil =>
    have same : free = whole := by
      ext a
      rw [partition.covers a]
      simp [Holds]
    simp [same]
  | cons part rest ih =>
    have restPartition : Partition whole ⟨part ∪ free, rest⟩ := by
      obtain ⟨apart, fresh, covers⟩ := partition
      obtain ⟨first, apart⟩ := List.pairwise_cons.mp apart
      refine ⟨apart, ?_, ?_⟩
      · intro other member
        rw [disjoint_union_right]
        exact ⟨(first other member).symm, fresh other (List.mem_cons_of_mem _ member)⟩
      · intro a
        rw [covers a]
        simp only [Holds, List.mem_cons, exists_eq_or_imp, mem_union]
        tauto
    have counted := ih (part ∪ free) restPartition
    have disjoint : Disjoint part free := partition.fresh part (.head _)
    dsimp only at counted ⊢
    rw [card_union_of_disjoint disjoint] at counted
    rw [List.map_cons, List.sum_cons]
    omega

end

end Pool

end CantayaOS.Lib
