import CantayaOS.Lib.Ring
import CantayaOS.Lib.Transition
import CantayaOS.Virtio.Queue

/-!
# Requests between driver and device

The driver and the device step in any order.  The driver links descriptors that
it holds into chains, submits them, polls for completed ones and frees them; the
device takes heads from the available ring and completes them in any order.
Every descriptor is free, held by the driver, or part of one chain in flight, so
neither ring is ever more than full although their counters wrap.
-/

namespace CantayaOS.Virtio

open Lib Virtqueue List Option Function

/-- Where the device stands in the available ring, and the heads that it is working on. -/
structure Device where
  lastAvailIdx : UInt16
  working : List UInt16

/-- A queue between its driver and its device.  The descriptors that the driver holds, the chain
last submitted with each head, and what has passed so far are recorded beside it. -/
structure QueueSystem where
  queue : Virtqueue
  device : Device
  owned : List UInt16
  chainOf : UInt16 → List UInt16
  submitted : List UInt16
  seen : List UInt16
  completed : List UInt16
  returned : List UInt16

inductive QueueEvent where
  | allocDesc
  | writeDesc (idx : UInt16) (entry : VirtqDesc)
  | submit (head : UInt16)
  | pollUsed
  | freeChain (head : UInt16)
  | deviceTakes
  | deviceCompletes (position : Nat) (len : UInt32)

variable {counter head : UInt16} {nodes : List UInt16} {next : QueueSystem}

variable {items owned : List UInt16} {d queueSize : UInt16} {count : Nat}

namespace QueueSystem

/-- A new queue, its descriptors all free and nothing sent. -/
def start (queue : Virtqueue) : QueueSystem :=
  { queue, device := ⟨0, []⟩, owned := [], chainOf := fun _ => [],
    submitted := [], seen := [], completed := [], returned := [] }

/-- The chain with the given head, if the driver holds all of it. -/
def ownedChain (system : QueueSystem) (head : UInt16) : Option (List UInt16) :=
  (system.queue.chain head).filter fun nodes => nodes.all fun d => decide (d ∈ system.owned)

def send (system : QueueSystem) (head : UInt16) (nodes : List UInt16) : QueueSystem :=
  { system with
    queue := system.queue.submit head
    owned := system.owned.diff nodes
    chainOf := Function.update system.chainOf head nodes
    submitted := system.submitted ++ [head] }

def take (system : QueueSystem) (head : UInt16) : QueueSystem :=
  { system with
    device := ⟨system.device.lastAvailIdx + 1, system.device.working ++ [head]⟩
    seen := system.seen ++ [head] }

/-- The device puts a head that it has worked on into the used ring. -/
def complete (system : QueueSystem) (head : UInt16) (position : Nat) (len : UInt32) :
    QueueSystem :=
  let slot := (system.queue.usedIdx % system.queue.queueSize).toNat
  { system with
    queue := { system.queue with
      usedRing := Function.update system.queue.usedRing slot ⟨head.toUInt32, len⟩
      usedIdx := system.queue.usedIdx + 1 }
    device := { system.device with working := system.device.working.eraseIdx position }
    completed := system.completed ++ [head] }

/-- The driver gets a chain back from a poll that left the queue in the given state. -/
def getBack (system : QueueSystem) (head : UInt16) (queue : Virtqueue) : QueueSystem :=
  { system with
    queue
    owned := system.chainOf head ++ system.owned
    returned := system.returned ++ [head] }

def step (system : QueueSystem) : QueueEvent → Option QueueSystem
  | .allocDesc =>
    match system.queue.allocDesc with
    | (some idx, queue) => some { system with queue, owned := idx :: system.owned }
    | (none, queue) => some { system with queue }
  | .writeDesc idx entry =>
    if idx ∈ system.owned then some { system with queue := system.queue.setDesc idx entry }
    else none
  | .submit head => do
      let nodes ← system.ownedChain head
      some (system.send head nodes)
  | .pollUsed =>
    match system.queue.pollUsed with
    | (some (head, _), queue) => some (system.getBack head queue)
    | (none, queue) => some { system with queue }
  | .freeChain head => do
      let nodes ← system.ownedChain head
      let queue ← Virtqueue.freeChain system.queue.queueSize.toNat system.queue head
      some { system with queue, owned := system.owned.diff nodes }
  | .deviceTakes =>
    if system.device.lastAvailIdx = system.queue.availIdx then none
    else
      some (system.take (system.queue.availRing
        (system.device.lastAvailIdx % system.queue.queueSize).toNat))
  | .deviceCompletes position len => do
      let head ← system.device.working[position]?
      some (system.complete head position len)

/-- The heads that were submitted and not yet returned. -/
def inFlight (system : QueueSystem) : List UInt16 :=
  system.submitted.drop system.seen.length ++ system.device.working ++
    system.completed.drop system.returned.length

/-- A free-running 16-bit counter that has been incremented `count` times. -/
def Counts (counter : UInt16) (count : Nat) : Prop := counter.toNat = count % 2 ^ 16

theorem Counts.push (counts : Counts counter items.length)
    (item : UInt16) : Counts (counter + 1) (items ++ [item]).length := by
  rw [Counts, UInt16.toNat_add, counts, length_append]
  exact Nat.mod_add_mod _ _ 1

theorem Counts.slot {k : Nat} (counts : Counts counter count) (power : queueSize.toNat = 2 ^ k) :
    (counter % queueSize).toNat = count % queueSize.toNat := by
  have small := queueSize.toNat_lt
  have exponent : k ≤ 16 := by
    by_contra large
    have := Nat.pow_le_pow_right (show 0 < 2 by decide) (show 16 ≤ k by omega)
    omega
  rw [UInt16.toNat_mod, counts]
  exact Nat.mod_mod_of_dvd _ (power ▸ pow_dvd_pow 2 exponent)

theorem Counts.eq_iff {other : UInt16} {otherCount : Nat}
    (counts : Counts counter count) (otherCounts : Counts other otherCount) :
    counter = other ↔ count % 2 ^ 16 = otherCount % 2 ^ 16 := by
  rw [← UInt16.toNat_inj, counts, otherCounts]

/-- Every descriptor is free, held by the driver or in one chain in flight, and the chains in
flight stand in the table as they were submitted. -/
structure Accounted (system : QueueSystem) : Prop where
  parts : (system.queue.freeDescs ++ system.owned ++
    system.inFlight.flatMap system.chainOf).Perm system.queue.table
  chains : ∀ head ∈ system.inFlight, system.queue.chain head = some (system.chainOf head)

structure Valid (system : QueueSystem) : Prop extends Accounted system where
  size : ∃ k, system.queue.queueSize.toNat = 2 ^ k
  avail : Ring.Carries system.queue.queueSize.toNat system.queue.availRing system.submitted
    system.seen.length
  used : Ring.Carries system.queue.queueSize.toNat
    (fun slot => (system.queue.usedRing slot).id.toUInt16) system.completed system.returned.length
  availIdx : Counts system.queue.availIdx system.submitted.length
  lastAvailIdx : Counts system.device.lastAvailIdx system.seen.length
  usedIdx : Counts system.queue.usedIdx system.completed.length
  lastUsedIdx : Counts system.queue.lastUsedIdx system.returned.length
  inOrder : system.seen <+: system.submitted
  polled : system.returned <+: system.completed
  worked : system.seen.Perm (system.completed ++ system.device.working)

theorem length_le_flatMap {flight : List UInt16} {chainOf : UInt16 → List UInt16}
    (inside : ∀ head ∈ flight, head ∈ chainOf head) :
    flight.length ≤ (flight.flatMap chainOf).length := by
  induction flight with
  | nil => exact le_refl 0
  | cons head rest ih =>
    have positive := length_pos_of_mem (inside head (.head _))
    have later := ih fun other member => inside other (mem_cons_of_mem _ member)
    rw [flatMap_cons, length_append, length_cons]
    omega

/-- A held chain can be split off what the driver holds. -/
theorem owned_perm (unique : nodes.Nodup) (held : nodes ⊆ owned) :
    (nodes ++ owned.diff nodes).Perm owned := by
  refine subperm_append_diff_self_of_count_le fun d member => ?_
  exact (nodup_iff_count_le_one.mp unique d).trans (count_pos_iff.mpr (held member))

namespace Accounted

variable {system : QueueSystem}

section

variable (accounted : system.Accounted)
include accounted

theorem nodup : (system.queue.freeDescs ++ system.owned ++
    system.inFlight.flatMap system.chainOf).Nodup :=
  accounted.parts.nodup_iff.mpr (nodup_table system.queue)

theorem head_mem (flying : head ∈ system.inFlight) : head ∈ system.chainOf head :=
  head_mem_of_chainFrom (accounted.chains head flying)

theorem not_free (held : d ∈ system.owned) : d ∉ system.queue.freeDescs := by
  have free := (nodup_append.mp (nodup_append.mp accounted.nodup).1).2.2
  exact fun member => free d member d held rfl

theorem not_flying (held : d ∈ system.owned) : d ∉ system.inFlight.flatMap system.chainOf := by
  have apart := (nodup_append.mp accounted.nodup).2.2
  exact fun member => apart d (mem_append_right _ held) d member rfl

theorem length_parts : system.queue.freeDescs.length +
    system.owned.length + (system.inFlight.flatMap system.chainOf).length =
      system.queue.queueSize.toNat := by
  have length := accounted.parts.length_eq
  rwa [length_append, length_append, length_table] at length

/-- There are never more requests in flight than slots in a ring. -/
theorem length_inFlight_le : system.inFlight.length ≤ system.queue.queueSize.toNat := by
  have total := accounted.length_parts
  have atLeast : system.inFlight.length ≤ (system.inFlight.flatMap system.chainOf).length :=
    length_le_flatMap fun _ flying => accounted.head_mem flying
  omega

end

end Accounted

namespace Valid

variable {system : QueueSystem}

theorem memory (valid : system.Valid) {queue : Virtqueue} (rings : SameRings system.queue queue)
    (parts : (queue.freeDescs ++ owned).Perm (system.queue.freeDescs ++ system.owned))
    (desc : ∀ d ∈ system.inFlight.flatMap system.chainOf, queue.desc d = system.queue.desc d) :
    Valid { system with queue, owned } where
  size := by rw [rings.queueSize]; exact valid.size
  avail := by rw [rings.queueSize, rings.availRing]; exact valid.avail
  used := by rw [rings.queueSize, rings.usedRing]; exact valid.used
  availIdx := by rw [rings.availIdx]; exact valid.availIdx
  lastAvailIdx := valid.lastAvailIdx
  usedIdx := by rw [rings.usedIdx]; exact valid.usedIdx
  lastUsedIdx := by rw [rings.lastUsedIdx]; exact valid.lastUsedIdx
  inOrder := valid.inOrder
  polled := valid.polled
  worked := valid.worked
  parts := by
    rw [table, rings.queueSize]
    exact (parts.append_right _).trans valid.parts
  chains := by
    intro head flying
    rw [chain, rings.queueSize]
    refine chainFrom_congr (valid.chains head flying) fun d member => ?_
    exact desc d (mem_flatMap.mpr ⟨head, flying, member⟩)

theorem allocDesc (valid : system.Valid)
    (stepped : system.step .allocDesc = some next) : next.Valid := by
  by_cases exhausted : system.queue.numFree = 0
  · rw [step, allocDesc_none exhausted] at stepped
    cases stepped
    exact valid
  obtain ⟨isHead, freeDescs⟩ := allocDesc_some exhausted
  have result : system.queue.allocDesc =
      (some system.queue.freeHead, system.queue.allocDesc.2) := Prod.ext isHead rfl
  rw [step, result] at stepped
  cases stepped
  refine valid.memory ?_ ?_ ?_
  · rw [Virtqueue.allocDesc, if_neg exhausted]
    exact ⟨rfl, rfl, rfl, rfl, rfl, rfl⟩
  · rw [freeDescs]
    exact perm_middle
  · intro d _
    rw [Virtqueue.allocDesc, if_neg exhausted]

theorem writeDesc (valid : system.Valid) {idx : UInt16} {entry : VirtqDesc}
    (stepped : system.step (.writeDesc idx entry) = some next) : next.Valid := by
  obtain ⟨held, stepped⟩ := ite_none_right_eq_some.mp stepped
  cases stepped
  refine valid.memory ⟨rfl, rfl, rfl, rfl, rfl, rfl⟩ ?_ ?_
  · rw [freeDescs_setDesc entry (valid.not_free held)]
  · intro d flying
    refine update_of_ne ?_ _ _
    rintro rfl
    exact valid.not_flying held flying

theorem ownedChain_eq (held : system.ownedChain head = some nodes) :
    system.queue.chain head = some nodes ∧ nodes ⊆ system.owned := by
  obtain ⟨ends, all⟩ := filter_eq_some_iff.mp held
  refine ⟨ends, fun d member => ?_⟩
  exact of_decide_eq_true (List.all_eq_true.mp all d member)

section

variable (valid : system.Valid)
include valid

theorem freeChain_total (held : system.ownedChain head = some nodes) :
    ∃ queue, Virtqueue.freeChain system.queue.queueSize.toNat system.queue head = some queue ∧
      ChainFreed system.queue nodes queue := by
  obtain ⟨ends, inside⟩ := ownedChain_eq held
  refine freeChain_eq ends (fun d member => valid.not_free (inside member)) ?_
  have small := system.queue.queueSize.toNat_lt
  have total := valid.length_parts
  have unique := nodup_of_chainFrom ends
  have length := (owned_perm unique inside).length_eq
  rw [length_append] at length
  omega

theorem freeChain (stepped : system.step (.freeChain head) = some next) : next.Valid := by
  obtain ⟨nodes, held, stepped⟩ := bind_eq_some_iff.mp stepped
  obtain ⟨queue, freed, stepped⟩ := bind_eq_some_iff.mp stepped
  cases stepped
  obtain ⟨ends, inside⟩ := ownedChain_eq held
  obtain ⟨queue', freed', spec⟩ := valid.freeChain_total held
  cases freed.symm.trans freed'
  refine valid.memory spec.rings ?_ ?_
  · have split := owned_perm (nodup_of_chainFrom ends) inside
    rw [spec.freeDescs]
    refine List.Perm.trans ?_ (split.append_left _)
    rw [append_assoc]
    refine (reverse_perm nodes).append_right _ |>.trans ?_
    exact perm_append_comm_assoc ..
  · intro d flying
    refine spec.desc d fun member => valid.not_flying (inside member) flying

/-! ## Steps on the rings -/

theorem send (held : system.ownedChain head = some nodes) : (system.send head nodes).Valid := by
  obtain ⟨ends, inside⟩ := ownedChain_eq held
  have headHeld : head ∈ system.owned := inside (head_mem_of_chainFrom ends)
  have grounded : head ∉ system.inFlight := fun flying =>
    valid.not_flying headHeld (mem_flatMap.mpr ⟨head, flying, valid.head_mem flying⟩)
  have own : (system.send head nodes).chainOf head = nodes := update_self ..
  have others (other : UInt16) (flying : other ∈ system.inFlight) :
      (system.send head nodes).chainOf other = system.chainOf other := by
    refine update_of_ne ?_ _ _
    rintro rfl
    exact grounded flying
  have flight : (system.send head nodes).inFlight.Perm (head :: system.inFlight) := by
    rw [inFlight, inFlight, QueueSystem.send, drop_append_of_le_length valid.avail.started]
    simp only [append_assoc]
    exact perm_middle
  have accounted : (system.send head nodes).Accounted := by
    constructor
    · have flying := flight.flatMap_right (system.send head nodes).chainOf
      rw [flatMap_cons, own, flatMap_congr others] at flying
      have split := owned_perm (nodup_of_chainFrom ends) inside
      have parts := valid.parts
      rw [append_assoc] at parts
      rw [append_assoc]
      refine List.Perm.trans (List.Perm.append_left _ ((flying.append_left _).trans ?_)) parts
      rw [← append_assoc]
      exact (perm_append_comm.trans split).append_right _
    · intro other flying
      rcases mem_cons.mp (flight.mem_iff.mp flying) with rfl | before
      · rw [own]
        exact ends
      · rw [others other before]
        exact valid.chains other before
  have room : system.submitted.length < system.seen.length + system.queue.queueSize.toNat := by
    have bound : (system.send head nodes).inFlight.length ≤ system.queue.queueSize.toNat :=
      accounted.length_inFlight_le
    simp only [inFlight, QueueSystem.send, length_append, length_drop, length_singleton] at bound
    omega
  obtain ⟨k, power⟩ := valid.size
  have pushed := valid.avail.push head room
  rw [← valid.availIdx.slot power] at pushed
  exact { accounted with
    size := valid.size
    avail := pushed
    used := valid.used
    availIdx := valid.availIdx.push head
    lastAvailIdx := valid.lastAvailIdx
    usedIdx := valid.usedIdx
    lastUsedIdx := valid.lastUsedIdx
    inOrder := valid.inOrder.trans (prefix_append _ _)
    polled := valid.polled
    worked := valid.worked }

theorem accounted_of_perm (flight : next.inFlight.Perm system.inFlight)
    (queueSize : next.queue.queueSize = system.queue.queueSize)
    (desc : next.queue.desc = system.queue.desc)
    (free : next.queue.freeDescs = system.queue.freeDescs) (owned : next.owned = system.owned)
    (chainOf : next.chainOf = system.chainOf) : next.Accounted := by
  constructor
  · rw [free, owned, chainOf, table, queueSize]
    exact ((flight.flatMap_right _).append_left _).trans valid.parts
  · intro head flying
    rw [chain, queueSize, desc, chainOf]
    exact valid.chains head (flight.mem_iff.mp flying)

/-- What the device finds next is the oldest head that it has not seen. -/
theorem next_submitted (news : system.device.lastAvailIdx ≠ system.queue.availIdx) :
    ∃ waiting : system.seen.length < system.submitted.length,
      system.queue.availRing (system.device.lastAvailIdx % system.queue.queueSize).toNat =
        system.submitted[system.seen.length] := by
  have waiting : system.seen.length < system.submitted.length := by
    refine lt_of_le_of_ne valid.avail.started fun same => news ?_
    rw [valid.lastAvailIdx.eq_iff valid.availIdx, same]
  obtain ⟨k, power⟩ := valid.size
  rw [valid.lastAvailIdx.slot power]
  exact ⟨waiting, valid.avail.slot _ waiting le_rfl⟩

/-- What polling finds next is the oldest completed head that it has not returned. -/
theorem next_completed (news : system.queue.lastUsedIdx ≠ system.queue.usedIdx) :
    ∃ waiting : system.returned.length < system.completed.length,
      (system.queue.usedRing
        (system.queue.lastUsedIdx % system.queue.queueSize).toNat).id.toUInt16 =
          system.completed[system.returned.length] := by
  have waiting : system.returned.length < system.completed.length := by
    refine lt_of_le_of_ne valid.used.started fun same => news ?_
    rw [valid.lastUsedIdx.eq_iff valid.usedIdx, same]
  obtain ⟨k, power⟩ := valid.size
  rw [valid.lastUsedIdx.slot power]
  exact ⟨waiting, valid.used.slot _ waiting le_rfl⟩

end

theorem prefix_push {all : List UInt16} (before : items <+: all)
    (more : items.length < all.length) : items ++ [all[items.length]] <+: all := by
  obtain ⟨rest, rfl⟩ := before
  cases rest with
  | nil => simp at more
  | cons item rest => simp

theorem take (valid : system.Valid) (waiting : system.seen.length < system.submitted.length) :
    (system.take system.submitted[system.seen.length]).Valid := by
  generalize taken : system.submitted[system.seen.length] = head
  have drop : system.submitted.drop system.seen.length =
      head :: system.submitted.drop (system.seen.length + 1) := by
    rw [drop_eq_getElem_cons waiting, taken]
  have flight : (system.take head).inFlight.Perm system.inFlight := by
    rw [inFlight, inFlight, drop]
    simp only [QueueSystem.take, length_append, append_assoc, cons_append]
    rw [← append_assoc, ← append_assoc]
    exact perm_middle
  have waited := valid.avail.take waiting
  have shown := prefix_push valid.inOrder waiting
  rw [taken] at shown
  exact { valid.accounted_of_perm flight rfl rfl rfl rfl rfl with
    size := valid.size
    avail := by
      rw [QueueSystem.take, length_append]
      exact waited
    used := valid.used
    availIdx := valid.availIdx
    lastAvailIdx := valid.lastAvailIdx.push head
    usedIdx := valid.usedIdx
    lastUsedIdx := valid.lastUsedIdx
    inOrder := shown
    polled := valid.polled
    worked := by
      have worked := valid.worked.append_right [head]
      rwa [append_assoc] at worked }

theorem usedRing_update (usedRing : Nat → VirtqUsedElem) (slot : Nat) (head : UInt16)
    (len : UInt32) :
    (fun i => (Function.update usedRing slot ⟨head.toUInt32, len⟩ i).id.toUInt16) =
      Function.update (fun i => (usedRing i).id.toUInt16) slot head := by
  funext i
  by_cases same : i = slot
  · subst same
    simp
  · rw [update_of_ne same, update_of_ne same]

section

variable (valid : system.Valid)
include valid

theorem complete {position : Nat} (works : system.device.working[position]? = some head)
    (len : UInt32) : (system.complete head position len).Valid := by
  obtain ⟨inside, isHead⟩ := List.getElem?_eq_some_iff.mp works
  have split : system.device.working.Perm (head :: system.device.working.eraseIdx position) := by
    rw [← isHead]
    exact (getElem_cons_eraseIdx_perm inside).symm
  have flight : (system.complete head position len).inFlight.Perm system.inFlight := by
    rw [inFlight, inFlight, QueueSystem.complete]
    rw [drop_append_of_le_length valid.used.started, append_assoc, append_assoc]
    refine List.Perm.append_left _ ?_
    rw [← append_assoc]
    refine perm_append_comm.trans ?_
    exact (split.append_right _).symm
  have bound := valid.length_inFlight_le
  have room : system.completed.length < system.returned.length + system.queue.queueSize.toNat := by
    simp only [inFlight, length_append, length_drop] at bound
    omega
  obtain ⟨k, power⟩ := valid.size
  have pushed := valid.used.push head room
  rw [← valid.usedIdx.slot power, ← usedRing_update _ _ _ len] at pushed
  exact { valid.accounted_of_perm flight rfl rfl rfl rfl rfl with
    size := valid.size
    avail := valid.avail
    used := pushed
    availIdx := valid.availIdx
    lastAvailIdx := valid.lastAvailIdx
    usedIdx := valid.usedIdx.push head
    lastUsedIdx := valid.lastUsedIdx
    inOrder := valid.inOrder
    polled := valid.polled.trans (prefix_append _ _)
    worked := by
      refine valid.worked.trans ((split.append_left _).trans ?_)
      rw [QueueSystem.complete, append_assoc]
      exact List.Perm.refl _ }

theorem getBack (waiting : system.returned.length < system.completed.length) :
    (system.getBack system.completed[system.returned.length]
      { system.queue with lastUsedIdx := system.queue.lastUsedIdx + 1 }).Valid := by
  generalize back : system.completed[system.returned.length] = head
  have drop : system.completed.drop system.returned.length =
      head :: system.completed.drop (system.returned.length + 1) := by
    rw [drop_eq_getElem_cons waiting, back]
  generalize moved : (system.getBack head
    { system.queue with lastUsedIdx := system.queue.lastUsedIdx + 1 }) = next
  have flight : system.inFlight.Perm (head :: next.inFlight) := by
    rw [inFlight, inFlight, drop, ← moved]
    simp only [QueueSystem.getBack, length_append]
    exact perm_middle
  have accounted : next.Accounted := by
    have flying := flight.flatMap_right system.chainOf
    rw [← moved] at flying ⊢
    constructor
    · have parts := valid.parts
      change (system.queue.freeDescs ++ (system.chainOf head ++ system.owned) ++ _).Perm
        system.queue.table
      rw [append_assoc] at parts ⊢
      refine List.Perm.trans (List.Perm.append_left _ ?_) parts
      refine List.Perm.trans ?_ (flying.symm.append_left _)
      rw [append_assoc]
      exact perm_append_comm_assoc ..
    · intro other flying
      refine valid.chains other (flight.mem_iff.mpr (mem_cons_of_mem _ ?_))
      rw [← moved]
      exact flying
  have returned := prefix_push valid.polled waiting
  rw [back] at returned
  have waited := valid.used.take waiting
  rw [← moved] at accounted ⊢
  exact { accounted with
    size := valid.size
    avail := valid.avail
    used := by
      rw [QueueSystem.getBack, length_append]
      exact waited
    availIdx := valid.availIdx
    lastAvailIdx := valid.lastAvailIdx
    usedIdx := valid.usedIdx
    lastUsedIdx := valid.lastUsedIdx.push head
    inOrder := valid.inOrder
    polled := returned
    worked := valid.worked }

theorem pollUsed (stepped : system.step .pollUsed = some next) : next.Valid := by
  rw [QueueSystem.step, Virtqueue.pollUsed] at stepped
  by_cases nothing : system.queue.lastUsedIdx = system.queue.usedIdx
  · rw [if_pos nothing] at stepped
    cases stepped
    exact valid
  obtain ⟨waiting, elem⟩ := valid.next_completed nothing
  rw [if_neg nothing] at stepped
  dsimp only at stepped
  rw [elem] at stepped
  cases stepped
  exact valid.getBack waiting

theorem deviceTakes (stepped : system.step .deviceTakes = some next) : next.Valid := by
  rw [QueueSystem.step] at stepped
  by_cases nothing : system.device.lastAvailIdx = system.queue.availIdx
  · rw [if_pos nothing] at stepped
    cases stepped
  · obtain ⟨waiting, head⟩ := valid.next_submitted nothing
    rw [if_neg nothing, head] at stepped
    cases stepped
    exact valid.take waiting

end

/-! ## Runs -/

theorem step (valid : system.Valid) {event : QueueEvent}
    (stepped : system.step event = some next) : next.Valid := by
  cases event with
  | allocDesc => exact valid.allocDesc stepped
  | writeDesc idx entry => exact valid.writeDesc stepped
  | submit head =>
    obtain ⟨nodes, held, sent⟩ := bind_eq_some_iff.mp stepped
    cases sent
    exact valid.send held
  | pollUsed => exact valid.pollUsed stepped
  | freeChain head => exact valid.freeChain stepped
  | deviceTakes => exact valid.deviceTakes stepped
  | deviceCompletes position len =>
    obtain ⟨head, works, completed⟩ := bind_eq_some_iff.mp stepped
    cases completed
    exact valid.complete works len

end Valid

theorem start_valid (power : ∃ k, queueSize.toNat = 2 ^ k) (phys : Nat) :
    (start (blank queueSize phys)).Valid where
  parts := by
    simp only [start, inFlight, drop_nil, append_nil, flatMap_nil, freeDescs_blank]
    exact List.Perm.refl _
  chains := by
    intro head flying
    simp [start, inFlight] at flying
  size := power
  avail := Ring.carries_nil _ _
  used := Ring.carries_nil _ _
  availIdx := rfl
  lastAvailIdx := rfl
  usedIdx := rfl
  lastUsedIdx := rfl
  inOrder := prefix_rfl
  polled := prefix_rfl
  worked := List.Perm.refl _

/-- Every request is seen once and in order, and comes back once. -/
structure ExactlyOnce (system : QueueSystem) : Prop where
  /-- The device has seen the first of the submitted heads, in the order of submission. -/
  seen_inOrder : system.seen <+: system.submitted
  /-- When the device finds nothing new, it has seen all of them. -/
  seen_all : system.device.lastAvailIdx = system.queue.availIdx → system.seen = system.submitted
  /-- Polling has returned the first of the completed heads. -/
  returned_inOrder : system.returned <+: system.completed
  /-- When polling finds nothing, it has returned all of them. -/
  returned_all : system.queue.pollUsed.1 = none → system.returned = system.completed
  /-- A submission has been returned or is in flight, never both. -/
  balance : system.submitted.Perm (system.returned ++ system.inFlight)
  /-- No head is in flight twice. -/
  distinct : system.inFlight.Nodup
  /-- The chain of a head in flight is as it was submitted, and none of it is free. -/
  grounded : ∀ head ∈ system.inFlight, system.queue.chain head = some (system.chainOf head) ∧
    ∀ d ∈ system.chainOf head, d ∉ system.queue.freeDescs

variable {system : QueueSystem}

theorem Valid.balance (valid : system.Valid) :
    system.submitted.Perm (system.returned ++ system.inFlight) := by
  have seen := prefix_iff_eq_append.mp valid.inOrder |>.symm
  have completed := prefix_iff_eq_append.mp valid.polled |>.symm
  have worked := valid.worked
  rw [perm_iff_count] at worked ⊢
  intro head
  have worked := worked head
  have seen := congrArg (List.count head) seen
  have completed := congrArg (List.count head) completed
  simp only [inFlight, count_append] at worked seen completed ⊢
  omega

theorem Valid.distinct (valid : system.Valid) : system.inFlight.Nodup := by
  have apart := (nodup_flatMap.mp (nodup_append.mp valid.nodup).2.1).2
  refine List.Pairwise.imp_of_mem ?_ apart
  rintro head other first - disjoint rfl
  exact disjoint (valid.head_mem first) (valid.head_mem first)

theorem Valid.exactlyOnce (valid : system.Valid) : system.ExactlyOnce where
  seen_inOrder := valid.inOrder
  seen_all nothing := by
    have same := (valid.lastAvailIdx.eq_iff valid.availIdx).mp nothing
    exact valid.inOrder.eq_of_length (valid.avail.all_taken system.queue.queueSize.toNat_lt same)
  returned_inOrder := valid.polled
  returned_all nothing := by
    have still : system.queue.lastUsedIdx = system.queue.usedIdx := by
      by_contra news
      rw [Virtqueue.pollUsed, if_neg news] at nothing
      cases nothing
    have same := (valid.lastUsedIdx.eq_iff valid.usedIdx).mp still
    exact valid.polled.eq_of_length (valid.used.all_taken system.queue.queueSize.toNat_lt same)
  balance := valid.balance
  distinct := valid.distinct
  grounded head flying := by
    refine ⟨valid.chains head flying, fun d member free => ?_⟩
    have apart := (nodup_append.mp valid.nodup).2.2
    exact apart d (mem_append_left _ free) d (mem_flatMap.mpr ⟨head, flying, member⟩) rfl

/-- In every run of a queue whose size is a power of two, of any length and however driver and
device interleave, each submitted head is seen by the device once and in order and is returned by
polling once, and no descriptor of a chain in flight is free. -/
theorem requests_exactlyOnce_along_runs {allocateContiguousFrames : Nat → Option Nat}
    {queueSize : UInt16} {queue : Virtqueue} (power : ∃ k, queueSize.toNat = 2 ^ k)
    (created : Virtqueue.new allocateContiguousFrames queueSize = some queue)
    {events : List QueueEvent} {system : QueueSystem}
    (reached : Transition.run step (start queue) events = some system) : system.ExactlyOnce := by
  obtain ⟨phys, rfl, _⟩ := new_eq created
  have valid := Transition.run_invariant (fun _ _ _ valid stepped => Valid.step valid stepped)
    (start_valid power phys) reached
  exact valid.exactlyOnce

/-- Two requests at once on a queue of two descriptors, completed in the other order. -/
def crossedRequests : List QueueEvent :=
  [.allocDesc, .writeDesc 0 ⟨0x1000, 16, 0, 0⟩, .submit 0,
    .allocDesc, .writeDesc 1 ⟨0x2000, 16, vringDescFWrite, 0⟩, .submit 1,
    .deviceTakes, .deviceTakes, .deviceCompletes 1 16, .pollUsed, .freeChain 1, .allocDesc,
    .submit 1, .deviceCompletes 0 0, .pollUsed]

theorem requests_exactlyOnce_crossed :
    ∃ queue system, Virtqueue.new (fun _ => some 0x8000) 2 = some queue ∧
      Transition.run step (start queue) crossedRequests = some system ∧
      system.submitted = [0, 1, 1] ∧ system.returned = [1, 0] ∧ system.ExactlyOnce := by
  have seen : ∃ system ∈ Transition.run step (start (blank 2 0x8000)) crossedRequests,
      system.submitted = [0, 1, 1] ∧ system.returned = [1, 0] := by
    decide +kernel
  obtain ⟨system, reached, submitted, returned⟩ := seen
  exact ⟨blank 2 0x8000, system, rfl, reached, submitted, returned,
    requests_exactlyOnce_along_runs ⟨1, rfl⟩ (rfl : Virtqueue.new (fun _ => some 0x8000) 2 = _)
      reached⟩

end QueueSystem

end CantayaOS.Virtio
