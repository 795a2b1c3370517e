import CantayaOS.Lib.Transition
import CantayaOS.Storage.Walk

/-!
# The copies of the table

The driver keeps several copies of the allocation table and reads the first.
Every operation on the table is a sequence of single writes, and each of these
renews the lower 28 bits of one entry in all copies.  So the copies refine one
table that maps clusters to numbers.
-/

namespace CantayaOS.Storage

open Lib List Nat Bytes

namespace Fat32State

variable {st : Fat32State} {disk initial : Disk} {table : Nat → Nat} {cluster entry copy : Nat}

def InTable (st : Fat32State) (lba : Nat) : Prop :=
  st.reservedSectors ≤ lba ∧ lba < st.reservedSectors + st.numFats * st.sectorsPerFat

/-- The sectors of the table can be read and written. -/
def Reliable (st : Fat32State) (disk : Disk) : Prop :=
  ∀ lba, st.InTable lba → disk.readable lba ∧ disk.writable lba

/-- The table has an entry for the cluster, and its offset fits in 32 bits. -/
def InRange (st : Fat32State) (cluster : Nat) : Prop :=
  cluster < st.sectorsPerFat * 128 ∧ cluster < 2 ^ 30

instance (st : Fat32State) (cluster : Nat) : Decidable (st.InRange cluster) :=
  inferInstanceAs (Decidable (_ ∧ _))

theorem inTable_of_entry (known : copy < st.numFats) {sector : Nat}
    (inside : sector < st.sectorsPerFat) :
    st.InTable (st.reservedSectors + copy * st.sectorsPerFat + sector) := by
  have step := Nat.mul_le_mul_right st.sectorsPerFat known
  rw [succ_mul] at step
  exact ⟨by omega, by omega⟩

/-- The device has changed from its initial contents only by writes that the table records. -/
structure Tracks (st : Fat32State) (initial : Disk) (table : Nat → Nat) (disk : Disk) : Prop where
  readable : disk.readable = initial.readable
  writable : disk.writable = initial.writable
  same : st.SameCopies disk
  entries : ∀ cluster, st.InRange cluster → raw disk (st.entryWord 0 cluster) % 2 ^ 28 = table cluster
  upper : ∀ copy < st.numFats, ∀ entry < st.sectorsPerFat * 128,
    raw disk (st.entryWord copy entry) / 2 ^ 28 = raw initial (st.entryWord copy entry) / 2 ^ 28
  outside : ∀ i, ¬ st.InTable (i / 128) → raw disk i = raw initial i

theorem Tracks.write (tracks : st.Tracks initial table disk) (reliable : st.Reliable initial)
    (copies : 0 < st.numFats) (inRange : st.InRange cluster) (value : Nat) :
    ∃ after, st.fatWrite disk cluster value = (true, after) ∧
      st.Tracks initial (Function.update table cluster (value % 2 ^ 28)) after := by
  have ok : ∀ copy < st.numFats, disk.readable (st.fatSector copy cluster) ∧
      disk.writable (st.fatSector copy cluster) := by
    rw [tracks.readable, tracks.writable]
    refine fun copy known => reliable _ (inTable_of_entry known ?_)
    unfold InRange at inRange
    omega
  obtain ⟨after, written, renews⟩ := fatWrite_renews inRange.1 inRange.2 value ok
  refine ⟨after, written, renews.readable.trans tracks.readable,
    renews.writable.trans tracks.writable, ?_, ?_, ?_, ?_⟩
  · intro copy known entry inside
    rw [renews.entries copy known entry inside, renews.entries 0 copies entry inside,
      tracks.same copy known entry inside]
  · intro other known
    rw [renews.entries 0 copies other known.1, Function.update_apply]
    split
    · exact combined_entry ..
    · exact tracks.entries other known
  · intro copy known entry inside
    rw [renews.entries copy known entry inside, ← tracks.upper copy known entry inside]
    split
    · exact renewed_div (raw_lt ..) value
    · rfl
  · intro i outside
    refine (renews.others i ?_).trans (tracks.outside i outside)
    rintro copy known rfl
    apply outside
    have sector : st.entryWord copy cluster / 128 =
        st.reservedSectors + copy * st.sectorsPerFat + cluster / 128 := by
      unfold entryWord
      omega
    rw [sector]
    exact inTable_of_entry known (by have := inRange.1; omega)

/-! ## Operations -/

def freed (st : Fat32State) (disk : Disk) : Nat → Nat → List Nat
  | 0, _ => []
  | fuel + 1, cluster =>
    let next := st.fatRead disk cluster
    let disk := (st.fatWrite disk cluster fatFree).2
    cluster :: if next ≥ fatEoc ∨ next = fatFree ∨ next = fatBad then [] else freed st disk fuel next

end Fat32State

/-- A call of one of the driver's functions on the table; freeing a chain with its bound on the steps. -/
inductive FatOp where
  | write (cluster value : Nat)
  | alloc
  | freeChain (start fuel : Nat)

namespace FatOp

def apply (st : Fat32State) (disk : Disk) : FatOp → Option Disk
  | write cluster value => some (st.fatWrite disk cluster value).2
  | alloc => some (st.fatAlloc disk).2
  | freeChain start fuel => st.fatFreeChain disk fuel start

/-- The entries that the call writes, in order, with their values. -/
def writes (st : Fat32State) (disk : Disk) : FatOp → List (Nat × Nat)
  | write cluster value => [(cluster, value)]
  | alloc => ((st.fatAlloc disk).1.map fun cluster => (cluster, 0x0FFFFFFF)).toList
  | freeChain start fuel => (st.freed disk fuel start).map fun cluster => (cluster, fatFree)

/-- The clusters that the call may write have entries in the table. -/
def InRange (st : Fat32State) (disk : Disk) : FatOp → Prop
  | alloc => ∀ cluster ∈ List.range' 2 st.totalClusters, st.InRange cluster
  | op => ∀ written ∈ op.writes st disk, st.InRange written.1

instance (st : Fat32State) (disk : Disk) (op : FatOp) : Decidable (op.InRange st disk) := by
  cases op <;> unfold InRange <;> infer_instance

/-- The table after some writes: each cluster has the lower 28 bits last written. -/
def record (table : Nat → Nat) (writes : List (Nat × Nat)) : Nat → Nat :=
  writes.foldl (fun table written => Function.update table written.1 (written.2 % 2 ^ 28)) table

/-- The device after a call, and the table with the call's writes recorded. -/
def step (st : Fat32State) (now : Disk × (Nat → Nat)) (op : FatOp) : Option (Disk × (Nat → Nat)) :=
  (op.apply st now.1).map fun disk => (disk, record now.2 (op.writes st now.1))

end FatOp

namespace Fat32State

variable {st : Fat32State} {disk initial : Disk} {table : Nat → Nat}

section

variable (reliable : st.Reliable initial) (copies : 0 < st.numFats)
include reliable copies

theorem Tracks.alloc (tracks : st.Tracks initial table disk) (candidates : List Nat)
    (inRange : ∀ cluster ∈ candidates, st.InRange cluster) :
    st.Tracks initial (FatOp.record table (((st.fatAllocFrom disk candidates).1.map
      fun cluster => (cluster, 0x0FFFFFFF)).toList)) (st.fatAllocFrom disk candidates).2 := by
  induction candidates with
  | nil => exact tracks
  | cons cluster rest ih =>
    obtain ⟨here, later⟩ := forall_mem_cons.mp inRange
    unfold fatAllocFrom
    split
    · obtain ⟨after, written, tracks⟩ := tracks.write reliable copies here 0x0FFFFFFF
      rw [written]
      exact tracks
    · exact ih later

theorem Tracks.freeChain (tracks : st.Tracks initial table disk) {start fuel : Nat} {last : Disk}
    (inRange : ∀ cluster ∈ st.freed disk fuel start, st.InRange cluster)
    (ran : st.fatFreeChain disk fuel start = some last) :
    st.Tracks initial (FatOp.record table
      ((st.freed disk fuel start).map fun cluster => (cluster, fatFree))) last := by
  induction fuel generalizing disk table start with
  | zero => cases ran
  | succ fuel ih =>
    obtain ⟨here, later⟩ := forall_mem_cons.mp inRange
    obtain ⟨after, written, tracks⟩ := tracks.write reliable copies here fatFree
    unfold fatFreeChain at ran
    unfold freed
    dsimp only at ran later ⊢
    rw [written] at ran later ⊢
    split at ran
    next ends =>
      cases ran
      rw [if_pos ends]
      exact tracks
    next continues =>
      rw [if_neg continues] at later ⊢
      exact ih tracks later ran

theorem Tracks.step (now : Disk × (Nat → Nat)) (op : FatOp) (next : Disk × (Nat → Nat))
    (tracks : st.Tracks initial now.2 now.1) (inRange : op.InRange st now.1)
    (stepped : op.step st now = some next) : st.Tracks initial next.2 next.1 := by
  obtain ⟨disk, ran, rfl⟩ := Option.map_eq_some_iff.mp stepped
  cases op with
  | write cluster value =>
    cases ran
    obtain ⟨after, written, tracks⟩ := tracks.write reliable copies
      (inRange _ (mem_singleton_self _)) value
    rw [written]
    exact tracks
  | alloc =>
    cases ran
    exact tracks.alloc reliable copies _ inRange
  | freeChain start fuel =>
    refine tracks.freeChain reliable copies (fun cluster member => ?_) ran
    exact inRange _ (List.mem_map_of_mem member)

end

def zeroDisk : Disk := ⟨fun _ => 0, fun _ => true, fun _ => true⟩

/--
On a table whose sectors can be read and written and whose copies are the same:
after every run of writes, allocations and releases of chains on clusters with
entries, the copies are the same, reading an entry yields the lower 28 bits last
written, the upper four bits of every entry are the initial ones, and no sector
outside the table has changed, if the volume has a copy of the table at all.
-/
theorem copies_refine_table (st : Fat32State) (initial : Disk) (reliable : st.Reliable initial)
    (same : st.SameCopies initial) (ops : List FatOp) (copies : 0 < st.numFats)
    (last : Disk × (Nat → Nat))
    (inRange : Transition.Meets (FatOp.step st) (fun now op => op.InRange st now.1)
      (initial, st.fatRead initial) ops)
    (reached : Transition.run (FatOp.step st) (initial, st.fatRead initial) ops = some last) :
    st.SameCopies last.1 ∧
      (∀ cluster, st.InRange cluster → st.fatRead last.1 cluster = last.2 cluster) ∧
      (∀ copy < st.numFats, ∀ entry < st.sectorsPerFat * 128,
        raw last.1 (st.entryWord copy entry) / 2 ^ 28 =
          raw initial (st.entryWord copy entry) / 2 ^ 28) ∧
      ∀ lba, ¬ st.InTable lba → ∀ i < 512,
        last.1.bytes (lba * 512 + i) = initial.bytes (lba * 512 + i) := by
  have readWord {disk : Disk} (readable : disk.readable = initial.readable) {cluster : Nat}
      (known : st.InRange cluster) :
      st.fatRead disk cluster = raw disk (st.entryWord 0 cluster) % 2 ^ 28 := by
    have sector := inTable_of_entry copies (show cluster * 4 % 2 ^ 32 / 512 < st.sectorsPerFat by
      unfold InRange at known; omega)
    have ok := (reliable _ sector).1
    rw [Nat.zero_mul, ← readable] at ok
    rw [fatRead_eq_raw ok, mod_eq_of_lt known.2]
  have start : st.Tracks initial (st.fatRead initial) initial :=
    ⟨rfl, rfl, same, fun _ known => (readWord rfl known).symm, fun _ _ _ _ => rfl,
      fun _ _ => rfl⟩
  have tracks := Transition.run_preserves (Tracks.step reliable copies) start inRange reached
  refine ⟨tracks.same, fun cluster known => ?_, tracks.upper, ?_⟩
  · rw [readWord tracks.readable known, tracks.entries cluster known]
  · intro lba outside i small
    have sector : (lba * 512 + i) / 4 / 128 = lba := by omega
    rw [byte_eq_raw, byte_eq_raw initial, tracks.outside _ (sector.symm ▸ outside)]

/-- A cluster is allocated on a volume with two copies of the table and freed again. -/
theorem copies_refine_table_twoCopies : ∃ last,
    Transition.run (FatOp.step (loopState 2)) (zeroDisk, (loopState 2).fatRead zeroDisk)
      [.write 1 5, .alloc, .freeChain 2 1] = some last ∧
      (loopState 2).SameCopies last.1 ∧ (loopState 2).fatRead last.1 1 = last.2 1 := by
  refine ⟨_, (Option.some_get (by decide +kernel)).symm, ?_⟩
  exact (copies_refine_table (loopState 2) zeroDisk (fun _ _ => ⟨rfl, rfl⟩) (fun _ _ _ _ => rfl)
    _ two_pos _ (by decide +kernel) (Option.some_get _).symm).imp id (·.1 1 (by decide))

/-- On a volume that is mounted with no copies a write succeeds and is lost. -/
theorem copies_unwritten : (loopState 0).Reliable loopDisk ∧ (loopState 0).SameCopies loopDisk ∧
    (loopState 0).InRange 2 ∧ ∃ last, Transition.run (FatOp.step (loopState 0))
      (loopDisk, (loopState 0).fatRead loopDisk) [.write 2 5] = some last ∧
        (loopState 0).fatRead last.1 2 ≠ last.2 2 := by
  refine ⟨fun lba inside => absurd inside.2 (Nat.not_lt_of_le inside.1), nofun, by decide, _, rfl, ?_⟩
  decide +kernel

end Fat32State

end CantayaOS.Storage
