import CantayaOS.Lib.Linked
import CantayaOS.Lib.Span
import CantayaOS.Lib.Word

/-!
# Virtqueues

The driver's side of a virtqueue.  The descriptor table and the two rings are
memory that the device shares; the free descriptors are linked through the same
field of a descriptor that links a chain in flight.
-/

namespace CantayaOS.Virtio

open Lib List Option UInt16

def vringDescFNext : UInt16 := 1

def vringDescFWrite : UInt16 := 2

def virtioPciVringAlign : Nat := 4096

structure VirtqDesc where
  addr : Nat
  len : Nat
  flags : UInt16
  next : UInt16
  deriving DecidableEq, Repr

structure VirtqUsedElem where
  id : UInt32
  len : UInt32
  deriving DecidableEq, Repr

/-- The driver's fields of a queue, and the memory behind its three addresses. -/
structure Virtqueue where
  queueSize : UInt16
  descPhys : Nat
  availPhys : Nat
  usedPhys : Nat
  freeHead : UInt16
  numFree : UInt16
  lastUsedIdx : UInt16
  desc : UInt16 → VirtqDesc
  availIdx : UInt16
  availRing : Nat → UInt16
  usedIdx : UInt16
  usedRing : Nat → VirtqUsedElem

variable {after queue : Virtqueue} {head idx : UInt16} {fuel : Nat}

namespace Virtqueue

def descSize (queueSize : UInt16) : Nat := queueSize.toNat * 16

def availSize (queueSize : UInt16) : Nat := 6 + 2 * queueSize.toNat

def usedSize (queueSize : UInt16) : Nat := 6 + 8 * queueSize.toNat

def firstPartAligned (queueSize : UInt16) : Nat :=
  Word.maskUp (descSize queueSize + availSize queueSize) virtioPciVringAlign

/-- A queue in zeroed memory at `phys`, with its free descriptors linked in order. -/
def blank (queueSize : UInt16) (phys : Nat) : Virtqueue where
  queueSize
  descPhys := phys
  availPhys := phys + descSize queueSize
  usedPhys := phys + firstPartAligned queueSize
  freeHead := 0
  numFree := queueSize
  lastUsedIdx := 0
  desc i := ⟨0, 0, 0, if i.toNat + 1 < queueSize.toNat then i + 1 else 0⟩
  availIdx := 0
  availRing _ := 0
  usedIdx := 0
  usedRing _ := ⟨0, 0⟩

def new (allocateContiguousFrames : Nat → Option Nat) (queueSize : UInt16) : Option Virtqueue :=
  if queueSize = 0 then none
  else do
    let totalSize := firstPartAligned queueSize + usedSize queueSize
    let totalPages := (totalSize + 4095) / 4096
    let phys ← allocateContiguousFrames totalPages
    return blank queueSize phys

def allocDesc (queue : Virtqueue) : Option UInt16 × Virtqueue :=
  if queue.numFree = 0 then (none, queue)
  else
    let idx := queue.freeHead
    (some idx,
      { queue with freeHead := (queue.desc idx).next, numFree := queue.numFree - 1 })

def setDesc (queue : Virtqueue) (idx : UInt16) (entry : VirtqDesc) : Virtqueue :=
  { queue with desc := Function.update queue.desc idx entry }

def freeDesc (queue : Virtqueue) (idx : UInt16) : Virtqueue :=
  { queue.setDesc idx { queue.desc idx with next := queue.freeHead, flags := 0 } with
    freeHead := idx, numFree := queue.numFree + 1 }

def freeChain : Nat → Virtqueue → UInt16 → Option Virtqueue
  | 0, _, _ => none
  | fuel + 1, queue, idx =>
    let flags := (queue.desc idx).flags
    let next := (queue.desc idx).next
    let queue := queue.freeDesc idx
    if flags &&& vringDescFNext = 0 then some queue else freeChain fuel queue next

def submit (queue : Virtqueue) (head : UInt16) : Virtqueue :=
  let availIdx := queue.availIdx
  let ringSlot := (availIdx % queue.queueSize).toNat
  { queue with
    availRing := Function.update queue.availRing ringSlot head
    availIdx := availIdx + 1 }

/-- Look for a completed request in the used ring. -/
def pollUsed (queue : Virtqueue) : Option (UInt16 × UInt32) × Virtqueue :=
  if queue.lastUsedIdx = queue.usedIdx then (none, queue)
  else
    let ringSlot := (queue.lastUsedIdx % queue.queueSize).toNat
    let elem := queue.usedRing ringSlot
    (some (elem.id.toUInt16, elem.len), { queue with lastUsedIdx := queue.lastUsedIdx + 1 })

/-- The descriptors met by following the link field a number of times. -/
def follow (desc : UInt16 → VirtqDesc) : Nat → UInt16 → List UInt16
  | 0, _ => []
  | count + 1, idx => idx :: follow desc count (desc idx).next

def freeDescs (queue : Virtqueue) : List UInt16 :=
  follow queue.desc queue.numFree.toNat queue.freeHead

/-- The descriptors of a chain, if it ends after at most `fuel` of them. -/
def chainFrom (desc : UInt16 → VirtqDesc) : Nat → UInt16 → Option (List UInt16)
  | 0, _ => none
  | fuel + 1, idx =>
    if (desc idx).flags &&& vringDescFNext = 0 then some [idx]
    else (chainFrom desc fuel (desc idx).next).map (idx :: ·)

def chain (queue : Virtqueue) (head : UInt16) : Option (List UInt16) :=
  chainFrom queue.desc queue.queueSize.toNat head

def table (queue : Virtqueue) : List UInt16 :=
  (List.range queue.queueSize.toNat).map UInt16.ofNat

theorem new_eq {allocateContiguousFrames : Nat → Option Nat} {queueSize : UInt16}
    (created : new allocateContiguousFrames queueSize = some queue) :
    ∃ phys, queue = blank queueSize phys ∧ allocateContiguousFrames
      ((firstPartAligned queueSize + usedSize queueSize + 4095) / 4096) = some phys := by
  rw [new] at created
  split at created
  · cases created
  · obtain ⟨phys, taken, same⟩ := bind_eq_some_iff.mp created
    exact ⟨phys, (Option.some.inj same).symm, taken⟩

/-- The memory of the descriptor table and of the two rings. -/
def areas (queue : Virtqueue) : List Span :=
  [⟨queue.descPhys, descSize queue.queueSize⟩, ⟨queue.availPhys, availSize queue.queueSize⟩,
    ⟨queue.usedPhys, usedSize queue.queueSize⟩]

/-- The areas of a new queue share no byte and end on the pages that were allocated for it. -/
theorem new_areas {allocateContiguousFrames : Nat → Option Nat} {queueSize : UInt16}
    (created : new allocateContiguousFrames queueSize = some queue) :
    queue.areas.Pairwise Span.Apart ∧ ∃ pages phys, allocateContiguousFrames pages = some phys ∧
      ∀ area ∈ queue.areas, phys ≤ area.base ∧ area.stop ≤ phys + pages * 4096 := by
  obtain ⟨phys, rfl, taken⟩ := new_eq created
  have bound := queueSize.toNat_lt
  have first : descSize queueSize + availSize queueSize ≤ firstPartAligned queueSize :=
    Word.le_maskUp (k := 12) (by simp only [descSize, availSize]; omega) (by decide)
  simp only [areas, blank, pairwise_cons, forall_mem_cons, Span.Apart, Span.Contains, Span.stop,
    not_mem_nil, false_implies, implies_true, and_true, Pairwise.nil]
  refine ⟨⟨⟨?_, ?_⟩, ?_⟩, _, phys, taken, ?_⟩ <;> omega

/-! ## Following links -/

theorem follow_congr {desc other : UInt16 → VirtqDesc} {count : Nat}
    (agree : ∀ d ∈ follow desc count idx, (other d).next = (desc d).next) :
    follow other count idx = follow desc count idx := by
  induction count generalizing idx with
  | zero => rfl
  | succ count ih =>
    have first : (other idx).next = (desc idx).next := agree idx (.head _)
    rw [follow, follow, first, ih fun d member => agree d (mem_cons_of_mem _ member)]

@[simp] theorem length_follow (desc : UInt16 → VirtqDesc) (count : Nat) (idx : UInt16) :
    (follow desc count idx).length = count := by
  induction count generalizing idx with
  | zero => rfl
  | succ count ih => rw [follow, length_cons, ih]

theorem length_freeDescs (queue : Virtqueue) : queue.freeDescs.length = queue.numFree.toNat :=
  length_follow ..

@[simp] theorem length_table (queue : Virtqueue) : queue.table.length = queue.queueSize.toNat := by
  simp [table]

theorem nodup_table (queue : Virtqueue) : queue.table.Nodup := by
  have small := queue.queueSize.toNat_lt
  refine List.Nodup.map_on ?_ nodup_range
  intro i first j second same
  have := congrArg toNat same
  rw [mem_range] at first second
  rwa [toNat_ofNat_of_lt' (show i < 2 ^ 16 by omega),
    toNat_ofNat_of_lt' (show j < 2 ^ 16 by omega)] at this

theorem follow_blank (queueSize : UInt16) (phys count start : Nat)
    (fits : start + count = queueSize.toNat) :
    follow (blank queueSize phys).desc count (ofNat start) =
      (List.range' start count).map ofNat := by
  induction count generalizing start with
  | zero => rfl
  | succ count ih =>
    rw [follow, range'_succ, map_cons, ← ih (start + 1) (by omega)]
    cases count with
    | zero => rfl
    | succ count =>
      have small := queueSize.toNat_lt
      have isStart : (ofNat start).toNat = start :=
        toNat_ofNat_of_lt' (show start < 2 ^ 16 by omega)
      have next : ((blank queueSize phys).desc (ofNat start)).next =
          ofNat (start + 1) := by
        simp only [blank]
        rw [if_pos (by omega), ofNat_add]
        rfl
      rw [next]

theorem freeDescs_blank (queueSize : UInt16) (phys : Nat) :
    (blank queueSize phys).freeDescs = (blank queueSize phys).table := by
  have follows := follow_blank queueSize phys queueSize.toNat 0 (zero_add _)
  rw [table, range_eq_range']
  exact follows

section Descriptors

variable {queue : Virtqueue} {idx : UInt16}

theorem allocDesc_none (exhausted : queue.numFree = 0) : queue.allocDesc = (none, queue) :=
  if_pos exhausted

theorem allocDesc_some (available : queue.numFree ≠ 0) :
    queue.allocDesc.1 = some queue.freeHead ∧
      queue.freeDescs = queue.freeHead :: queue.allocDesc.2.freeDescs := by
  have positive : queue.numFree.toNat = (queue.numFree - 1).toNat + 1 := by
    have nonzero : queue.numFree.toNat ≠ 0 := fun zero => available (UInt16.toNat_inj.mp zero)
    have less := UInt16.toNat_sub_of_le queue.numFree 1 (by
      exact Nat.one_le_iff_ne_zero.mpr nonzero)
    rw [less]
    exact (Nat.sub_add_cancel (Nat.one_le_iff_ne_zero.mpr nonzero)).symm
  rw [allocDesc, if_neg available]
  refine ⟨rfl, ?_⟩
  rw [freeDescs, positive]
  rfl

theorem allocDesc_nil (exhausted : queue.freeDescs = []) : queue.allocDesc = (none, queue) := by
  refine allocDesc_none (UInt16.toNat_inj.mp ?_)
  rw [← length_freeDescs, exhausted]
  rfl

theorem freeDescs_setDesc (entry : VirtqDesc) (held : idx ∉ queue.freeDescs) :
    (queue.setDesc idx entry).freeDescs = queue.freeDescs := by
  refine follow_congr fun d member => ?_
  have other : d ≠ idx := by
    rintro rfl
    exact held member
  exact congrArg VirtqDesc.next (Function.update_of_ne other _ _)

theorem freeDescs_freeDesc (held : idx ∉ queue.freeDescs)
    (room : queue.freeDescs.length + 1 < 2 ^ 16) :
    (queue.freeDesc idx).freeDescs = idx :: queue.freeDescs := by
  have count : (queue.numFree + 1).toNat = queue.numFree.toNat + 1 := by
    rw [length_freeDescs] at room
    exact Nat.mod_eq_of_lt room
  have rest := freeDescs_setDesc { queue.desc idx with next := queue.freeHead, flags := 0 } held
  have link : ((queue.freeDesc idx).desc idx).next = queue.freeHead := by
    simp [freeDesc, setDesc]
  rw [← rest]
  change follow (queue.freeDesc idx).desc (queue.numFree + 1).toNat idx = _
  rw [count, follow, link]
  rfl

end Descriptors

/-! ## Chains -/

def successor (desc : UInt16 → VirtqDesc) (idx : UInt16) : Option UInt16 :=
  if (desc idx).flags &&& vringDescFNext = 0 then none else some (desc idx).next

section Chains

variable {desc other : UInt16 → VirtqDesc} {fuel : Nat} {head : UInt16} {nodes : List UInt16}

section

variable (ends : chainFrom desc fuel head = some nodes)
include ends

theorem linked_of_chainFrom : Linked (successor desc) (some head) nodes none := by
  induction fuel generalizing head nodes with
  | zero => cases ends
  | succ fuel ih =>
    rw [chainFrom] at ends
    by_cases last : (desc head).flags &&& vringDescFNext = 0
    · rw [if_pos last] at ends
      cases ends
      exact ⟨rfl, if_pos last⟩
    rw [if_neg last] at ends
    obtain ⟨rest, later, rfl⟩ := map_eq_some_iff.mp ends
    refine ⟨rfl, ?_⟩
    rw [successor, if_neg last]
    exact ih later

theorem nodup_of_chainFrom : nodes.Nodup :=
  (linked_of_chainFrom ends).nodup

theorem head_mem_of_chainFrom : head ∈ nodes := by
  have first := (linked_of_chainFrom ends).head_eq
  cases nodes with
  | nil => cases first
  | cons node rest =>
    cases first
    exact .head _

theorem chainFrom_congr
    (agree : ∀ d ∈ nodes, other d = desc d) : chainFrom other fuel head = some nodes := by
  induction fuel generalizing head nodes with
  | zero => cases ends
  | succ fuel ih =>
    have same : other head = desc head := agree head (head_mem_of_chainFrom ends)
    rw [chainFrom] at ends ⊢
    rw [same]
    by_cases last : (desc head).flags &&& vringDescFNext = 0
    · rw [if_pos last] at ends ⊢
      exact ends
    · rw [if_neg last] at ends ⊢
      obtain ⟨rest, later, rfl⟩ := map_eq_some_iff.mp ends
      rw [ih later fun d member => agree d (mem_cons_of_mem _ member)]
      rfl

end

end Chains

/-- Everything but the table and the free list is the same in two queues. -/
structure SameRings (queue after : Virtqueue) : Prop where
  queueSize : after.queueSize = queue.queueSize
  lastUsedIdx : after.lastUsedIdx = queue.lastUsedIdx
  availIdx : after.availIdx = queue.availIdx
  availRing : after.availRing = queue.availRing
  usedIdx : after.usedIdx = queue.usedIdx
  usedRing : after.usedRing = queue.usedRing

theorem SameRings.trans {middle : Virtqueue} (first : SameRings queue middle)
    (second : SameRings middle after) : SameRings queue after where
  queueSize := second.queueSize.trans first.queueSize
  lastUsedIdx := second.lastUsedIdx.trans first.lastUsedIdx
  availIdx := second.availIdx.trans first.availIdx
  availRing := second.availRing.trans first.availRing
  usedIdx := second.usedIdx.trans first.usedIdx
  usedRing := second.usedRing.trans first.usedRing

theorem sameRings_freeDesc (queue : Virtqueue) (idx : UInt16) :
    SameRings queue (queue.freeDesc idx) :=
  ⟨rfl, rfl, rfl, rfl, rfl, rfl⟩

theorem allocDesc_cons {rest : List UInt16} (free : queue.freeDescs = idx :: rest) :
    ∃ after, queue.allocDesc = (some idx, after) ∧ after.freeDescs = rest ∧
      after.desc = queue.desc ∧ SameRings queue after := by
  have available : queue.numFree ≠ 0 := by
    intro exhausted
    have length := length_freeDescs queue
    rw [free, exhausted] at length
    cases length
  obtain ⟨first, isFree⟩ := allocDesc_some available
  rw [free, List.cons.injEq] at isFree
  refine ⟨queue.allocDesc.2, ?_, isFree.2.symm, ?_, ?_⟩
  · rw [isFree.1, ← first]
  · rw [allocDesc, if_neg available]
  · rw [allocDesc, if_neg available]
    exact ⟨rfl, rfl, rfl, rfl, rfl, rfl⟩

/-- Freeing a chain puts its descriptors on the free list and changes no others. -/
structure ChainFreed (queue : Virtqueue) (nodes : List UInt16) (after : Virtqueue) : Prop where
  freeDescs : after.freeDescs = nodes.reverse ++ queue.freeDescs
  desc : ∀ d, d ∉ nodes → after.desc d = queue.desc d
  rings : SameRings queue after

theorem freeChain_mono {more : Nat}
    (freed : freeChain fuel queue head = some after) (le : fuel ≤ more) :
    freeChain more queue head = some after := by
  induction fuel generalizing more queue head with
  | zero => cases freed
  | succ fuel ih =>
    obtain ⟨more, rfl⟩ := Nat.exists_eq_add_of_le' (Nat.le_of_add_left_le le)
    rw [freeChain] at freed ⊢
    by_cases last : (queue.desc head).flags &&& vringDescFNext = 0
    · rw [if_pos last] at freed ⊢
      exact freed
    · rw [if_neg last] at freed ⊢
      exact ih freed (by omega)

theorem freeChain_eq {nodes : List UInt16}
    (ends : chainFrom queue.desc fuel head = some nodes) (held : ∀ d ∈ nodes, d ∉ queue.freeDescs)
    (room : queue.freeDescs.length + nodes.length < 2 ^ 16) :
    ∃ after, freeChain fuel queue head = some after ∧ ChainFreed queue nodes after := by
  induction fuel generalizing queue head nodes with
  | zero => cases ends
  | succ fuel ih =>
    have unique := nodup_of_chainFrom ends
    have headHeld := held head (head_mem_of_chainFrom ends)
    have freed := freeDescs_freeDesc headHeld (by
      have := length_pos_of_mem (head_mem_of_chainFrom ends)
      omega)
    have elsewhere (d : UInt16) (differs : d ≠ head) : (queue.freeDesc head).desc d = queue.desc d :=
      Function.update_of_ne differs _ _
    rw [chainFrom] at ends
    rw [freeChain]
    by_cases last : (queue.desc head).flags &&& vringDescFNext = 0
    · rw [if_pos last] at ends ⊢
      cases ends
      refine ⟨_, rfl, freed, ?_, sameRings_freeDesc queue head⟩
      intro d outside
      exact elsewhere d fun same => outside (mem_singleton.mpr same)
    rw [if_neg last] at ends ⊢
    obtain ⟨rest, later, rfl⟩ := map_eq_some_iff.mp ends
    obtain ⟨headOut, restUnique⟩ := nodup_cons.mp unique
    have later' :=
      chainFrom_congr later fun d member =>
        elsewhere d fun same => headOut (same ▸ member)
    obtain ⟨after, done, after_free⟩ := ih later' (by
        intro d member free
        rw [freed] at free
        rcases mem_cons.mp free with same | free
        · exact headOut (same ▸ member)
        · exact held d (mem_cons_of_mem _ member) free)
      (by
        rw [freed]
        simp only [length_cons] at room ⊢
        omega)
    refine ⟨after, done, ?_, ?_, (sameRings_freeDesc queue head).trans after_free.rings⟩
    · rw [after_free.freeDescs, freed]
      simp
    · intro d outside
      rw [mem_cons, not_or] at outside
      rw [after_free.desc d outside.2, elsewhere d outside.1]

end Virtqueue

end CantayaOS.Virtio
