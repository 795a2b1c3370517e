import CantayaOS.Memory.VmmMapping

/-!
# Ranges of whole pages

The ranges that the manager hands out consist of whole pages, and what it can
still hand out is what no caller holds.  In the dynamic region an address
determines its page, so a range and its pages determine each other.
-/

namespace CantayaOS.Memory

open Lib Vmm List Span

variable {x size : Nat} {after : Vmm}

variable {vmm : Vmm} {y : Nat}

namespace Vmm

/-- The bump pointer and all free ranges consist of whole pages. -/
structure PageAligned (vmm : Vmm) : Prop where
  next : pageSize ∣ vmm.nextVaddr
  free : ∀ region ∈ vmm.freeRegions, pageSize ∣ region.base ∧ pageSize ∣ region.size

theorem dvd_mod_word (aligned : pageSize ∣ x) : pageSize ∣ x % 2 ^ 64 :=
  (Nat.dvd_mod_iff (by decide)).mpr aligned

theorem allocVirtualRange_aligned {granted : Option Nat} (aligned : vmm.PageAligned)
    (pages : pageSize ∣ size) (ran : vmm.allocVirtualRange size = (granted, after)) :
    after.PageAligned ∧ ∀ vaddr ∈ granted, pageSize ∣ vaddr := by
  have outcome := vmm.allocVirtualRange_outcome size
  rw [ran] at outcome
  have free := aligned.free
  cases outcome with
  | exact left right region list fits =>
    rw [list] at free
    refine ⟨⟨aligned.next, fun other member => free other ?_⟩, ?_⟩
    · simp only [mem_append] at member ⊢
      tauto
    · rintro _ ⟨⟩
      exact (free region (by simp)).1
  | split left right region list larger =>
    rw [list] at free
    obtain ⟨base, whole⟩ := free region (by simp)
    refine ⟨⟨aligned.next, fun other member => ?_⟩, ?_⟩
    · rcases mem_append.mp member with before | behind
      · exact free other (mem_append_left _ before)
      · rcases mem_cons.mp behind with rfl | later
        · exact ⟨dvd_mod_word (dvd_add base pages), Nat.dvd_sub whole pages⟩
        · exact free other (mem_append_right _ (mem_cons_of_mem _ later))
    · rintro _ ⟨⟩
      exact base
  | bump unfit room =>
    refine ⟨⟨dvd_mod_word (dvd_add aligned.next pages), free⟩, ?_⟩
    rintro _ ⟨⟩
    exact aligned.next
  | exhausted full => exact ⟨aligned, nofun⟩

theorem allocVirtualRange_none
    (refused : vmm.allocVirtualRange size = (none, after)) : after = vmm := by
  have outcome := vmm.allocVirtualRange_outcome size
  rw [refused] at outcome
  cases outcome
  rfl

/-- The virtual addresses that an allocation may still be given. -/
def Available (vmm : Vmm) (x : Nat) : Prop :=
  (∃ region ∈ vmm.freeRegions, region.Contains x) ∨ (vmm.nextVaddr ≤ x ∧ x < regionEnd)

end Vmm

namespace VmmClient.Valid

variable {client : VmmClient} (valid : client.Valid)
include valid

/-- What is available is what no live range holds. -/
theorem available_iff (x : Nat) :
    client.vmm.Available x ↔ regionStart ≤ x ∧ x < regionEnd ∧
      ∀ range ∈ client.live, ¬ range.Contains x := by
  have count := valid.tiles x
  have above := valid.above
  have below := valid.below
  rw [cover_append] at count
  constructor
  · rintro (⟨region, member, inside⟩ | ⟨beyond, within⟩)
    · have free := cover_pos member inside
      by_cases range : regionStart ≤ x ∧ x < client.vmm.nextVaddr
      · rw [if_pos range] at count
        refine ⟨range.1, by omega, fun other live both => ?_⟩
        have held := cover_pos live both
        omega
      · rw [if_neg range] at count
        omega
    · rw [if_neg (by omega)] at count
      refine ⟨by omega, within, fun other live both => ?_⟩
      have held := cover_pos live both
      omega
  · rintro ⟨low, high, unheld⟩
    by_cases range : x < client.vmm.nextVaddr
    · rw [if_pos ⟨low, range⟩] at count
      have uncovered : cover client.live x = 0 := by
        by_contra some
        obtain ⟨other, live, both⟩ := exists_of_cover_pos (pos_of_ne_zero some)
        exact unheld other live both
      exact .inl (exists_of_cover_pos (by omega))
    · exact .inr ⟨by omega, high⟩

theorem perm {live : List Span} (same : client.live.Perm live) : Valid ⟨client.vmm, live⟩ where
  tiles x := by
    rw [← valid.tiles x]
    exact cover_perm (same.symm.append_right _) x
  nonempty range member := valid.nonempty range
    ((same.append_right client.vmm.freeRegions).mem_iff.mpr member)
  separated := valid.separated
  above := valid.above
  below := valid.below

theorem free_aligned {range : Span} (held : range ∈ client.live)
    (aligned : client.vmm.PageAligned) (base : pageSize ∣ range.base) (pages : pageSize ∣ range.size) :
    (client.vmm.freeVirtualRange range.base range.size).PageAligned := by
  rw [freeVirtualRange_eq (valid.stop_lt (mem_append_left _ held))
    fun region member => valid.stop_lt (mem_append_right _ member)]
  refine ⟨aligned.next, forall_insertBlock ?_ ?_⟩
  · exact fun a b first second _ => ⟨first.1, dvd_add first.2 second.2⟩
  · intro region member
    rcases mem_cons.mp (perm_middle.mem_iff.mp member) with rfl | listed
    · exact ⟨base, pages⟩
    · rw [takeWhile_append_dropWhile] at listed
      exact aligned.free region listed

theorem alloc {vaddr : Nat} (positive : 0 < size) (small : size ≤ regionEnd - regionStart)
    (ran : client.vmm.allocVirtualRange size = (some vaddr, after)) :
    Valid ⟨after, ⟨vaddr, size⟩ :: client.live⟩ := by
  have stepped : client.step (.allocVirtualRange size) =
      some ⟨after, ⟨vaddr, size⟩ :: client.live⟩ := by
    simp [step, positive, small, ran]
  exact step_valid valid stepped

end VmmClient.Valid

namespace VmmState

def rangePages (vaddr pageCount : Nat) : List Page := (pageAddrs vaddr pageCount).map pageOf

theorem div_eq_of_pageOf_eq (xLow : regionStart ≤ x) (xHigh : x < 2 ^ 64)
    (yLow : regionStart ≤ y) (yHigh : y < 2 ^ 64) (same : pageOf x = pageOf y) :
    x / pageSize = y / pageSize := by
  have numbers := congrArg Fin.val same
  simp only [pageOf, pageSize, regionStart] at *
  omega

theorem pageOf_eq_of_div_eq (same : x / pageSize = y / pageSize) : pageOf x = pageOf y := by
  unfold pageOf
  rw [Fin.mk.injEq, same]

section Range

variable {vaddr pageCount : Nat} (aligned : pageSize ∣ vaddr) (low : Vmm.regionStart ≤ vaddr)
  (high : vaddr + pageCount * pageSize ≤ Vmm.regionEnd)
include aligned low high

omit low in
theorem pageAddr_eq {i : Nat} (inside : i < pageCount) :
    pageAddr vaddr i = vaddr + i * pageSize := by
  apply Nat.mod_eq_of_lt
  simp only [regionEnd, pageSize] at *
  omega

theorem mem_rangePages (xLow : regionStart ≤ x) (xHigh : x < 2 ^ 64) :
    pageOf x ∈ rangePages vaddr pageCount ↔ vaddr ≤ x ∧ x < vaddr + pageCount * pageSize := by
  obtain ⟨number, rfl⟩ := aligned
  simp only [rangePages, pageAddrs, List.map_map, List.mem_map, mem_range, Function.comp_apply]
  constructor
  · rintro ⟨i, inside, same⟩
    rw [pageAddr_eq (dvd_mul_right _ _) high inside] at same
    have numbers := div_eq_of_pageOf_eq (by omega)
      (by simp only [pageSize, regionEnd] at *; omega) xLow xHigh same
    simp only [pageSize] at *
    omega
  · rintro ⟨first, last⟩
    have inside : x / pageSize - number < pageCount := by
      simp only [pageSize] at *
      omega
    refine ⟨x / pageSize - number, inside, ?_⟩
    rw [pageAddr_eq (dvd_mul_right _ _) high inside]
    apply pageOf_eq_of_div_eq
    simp only [pageSize] at *
    omega

theorem nodup_rangePages : (rangePages vaddr pageCount).Nodup := by
  unfold rangePages pageAddrs
  rw [List.map_map]
  refine List.Nodup.map_on ?_ nodup_range
  intro i iInside j jInside same
  rw [mem_range] at iInside jInside
  simp only [Function.comp_apply, pageAddr_eq aligned high iInside,
    pageAddr_eq aligned high jInside] at same
  have numbers := div_eq_of_pageOf_eq (by omega) (by simp only [pageSize, regionEnd] at *; omega)
    (by omega) (by simp only [pageSize, regionEnd] at *; omega) same
  obtain ⟨number, rfl⟩ := aligned
  simp only [pageSize] at *
  omega

end Range

theorem pagesFor_bounds (positive : 0 < size)
    (small : size ≤ regionEnd - regionStart) : 0 < pagesFor size * pageSize ∧
      pagesFor size * pageSize ≤ regionEnd - regionStart := by
  simp only [pagesFor, pageSize, regionEnd, regionStart] at *
  omega

theorem size_mod (small : size ≤ regionEnd - regionStart) : size % 2 ^ 64 = size := by
  apply Nat.mod_eq_of_lt
  simp only [regionEnd] at small
  omega

end VmmState

end CantayaOS.Memory
