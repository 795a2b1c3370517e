import CantayaOS.Storage.Chain

/-!
# Chains over any table contents

The table is read from disk and may hold anything: cycles, marks of bad
clusters, links out of the volume.  Which clusters the chain loop collects, and
whether freeing a chain comes to an end, is described by the links that are
followed from the start.
-/

namespace CantayaOS.Storage

open Lib List Nat

namespace Fat32State

variable {st : Fat32State} {disk : Disk} {cluster start n : Nat}

/-- Where the table leads from a cluster in `n` steps. -/
def walk (st : Fat32State) (disk : Disk) (start n : Nat) : Nat := (st.fatRead disk)^[n] start

def Stops (cluster : Nat) : Prop := cluster < 2 ∨ cluster ≥ fatEoc

/-- Freeing a chain ends behind an entry with this value. -/
def Ends (next : Nat) : Prop := next ≥ fatEoc ∨ next = fatFree ∨ next = fatBad

theorem walk_succ (st : Fat32State) (disk : Disk) (start n : Nat) :
    st.walk disk start (n + 1) = st.walk disk (st.fatRead disk start) n :=
  Function.iterate_succ_apply ..

/-- Where two walks have met they stay together. -/
theorem walk_add (st : Fat32State) (disk : Disk) (start n more : Nat) :
    st.walk disk start (n + more) = st.walk disk (st.walk disk start n) more := by
  unfold walk
  rw [add_comm, Function.iterate_add_apply]

/-- The loop collects the walk up to the first stop, or as much of it as it may. -/
theorem clusterChainFrom_eq_walk (st : Fat32State) (disk : Disk) (left cluster : Nat) :
    ∃ n, st.clusterChainFrom disk left cluster = (List.range n).map (st.walk disk cluster) ∧
      (∀ k < n, ¬ Stops (st.walk disk cluster k)) ∧
      (n < left → Stops (st.walk disk cluster n)) := by
  induction left generalizing cluster with
  | zero => exact ⟨0, rfl, nofun, nofun⟩
  | succ left ih =>
    by_cases stops : Stops cluster
    · exact ⟨0, if_pos stops, nofun, fun _ => stops⟩
    obtain ⟨n, collected, going, stopped⟩ := ih (st.fatRead disk cluster)
    refine ⟨n + 1, ?_, fun k small => ?_, fun fewer => ?_⟩
    · have continues : st.clusterChainFrom disk (left + 1) cluster =
          cluster :: st.clusterChainFrom disk left (st.fatRead disk cluster) := if_neg stops
      rw [continues, collected, range_succ_eq_map, map_cons, List.map_map]
      rfl
    · cases k with
      | zero => exact stops
      | succ k => exact going k (lt_of_succ_lt_succ small)
    · exact stopped (lt_of_succ_lt_succ fewer)

/--
Whatever the table holds, the clusters that the chain loop returns are data
clusters and all different, if and only if the links from the start lead through
data clusters to a value at which the loop stops.
-/
theorem clusterChain_valid_iff (st : Fat32State) (disk : Disk) (start : Nat) :
    ((∀ cluster ∈ st.clusterChain disk start, st.IsCluster cluster) ∧
      (st.clusterChain disk start).Nodup) ↔
    ∃ n, Stops (st.walk disk start n) ∧
      ∀ k < n, st.IsCluster (st.walk disk start k) ∧ ¬ Stops (st.walk disk start k) := by
  obtain ⟨n, collected, going, stopped⟩ :=
    clusterChainFrom_eq_walk st disk (st.totalClusters + 1) start
  unfold clusterChain
  rw [collected]
  constructor
  · rintro ⟨valid, distinct⟩
    have few := length_le_totalClusters distinct valid
    rw [length_map, length_range] at few
    refine ⟨n, stopped (lt_succ_of_le few), fun k small => ⟨?_, going k small⟩⟩
    exact valid _ (List.mem_map_of_mem (mem_range.mpr small))
  · rintro ⟨last, stops, before⟩
    have inside : n ≤ last := Nat.le_of_not_lt fun later => going last later stops
    constructor
    · intro cluster member
      obtain ⟨k, small, rfl⟩ := List.mem_map.mp member
      exact (before k (lt_of_lt_of_le (mem_range.mp small) inside)).1
    · -- A walk that meets itself never reaches its stop.
      have apart {i j : Nat} (less : i < j) (small : j < n) :
          st.walk disk start i ≠ st.walk disk start j := by
        intro same
        have early : i + (last - j) < last := by omega
        refine (before _ early).2 ?_
        rw [walk_add, same, ← walk_add, add_sub_of_le (by omega)]
        exact stops
      refine List.Nodup.map_on (fun i first j second same => ?_) nodup_range
      rcases lt_trichotomy i j with less | equal | more
      · exact absurd same (apart less (mem_range.mp second))
      · exact equal
      · exact absurd same.symm (apart more (mem_range.mp first))

/-- A volume with one data cluster, and a table whose entry for it links back to it. -/
def loopState (numFats : Nat) : Fat32State := ⟨1, 1, numFats, 1, 2, 1 + numFats, 1⟩

def loopDisk : Disk := ⟨fun addr => if addr = 520 then 2 else 0, fun _ => true, fun _ => true⟩

/-- The loop's guard lets the cluster of that volume through twice. -/
theorem clusterChain_loop :
    ¬ ((loopState 1).clusterChain loopDisk 2).Nodup ∧
      (loopState 1).clusterChain loopDisk 2 = [2, 2] := by
  decide +kernel

/-! ## Freeing -/

def word (disk : Disk) (i : Nat) : Nat := Bytes.fromLe (Bytes.window disk.bytes (i * 4) 4) % 2 ^ 28

theorem fatRead_eq_word
    (readable : disk.readable (st.reservedSectors + cluster * 4 % 2 ^ 32 / 512)) :
    st.fatRead disk cluster = word disk (st.reservedSectors * 128 + cluster % 2 ^ 30) := by
  rw [fatRead_eq_raw readable, entryWord, Nat.zero_mul]
  rfl

/-- The second device is the first one with some words zeroed. -/
structure Fades (before after : Disk) : Prop where
  readable : after.readable = before.readable
  writable : after.writable = before.writable
  words : ∀ i, word after i = word before i ∨ word after i = 0

theorem Fades.refl (disk : Disk) : Fades disk disk := ⟨rfl, rfl, fun _ => .inl rfl⟩

theorem Fades.trans {middle after : Disk} (first : Fades disk middle) (second : Fades middle after) :
    Fades disk after := by
  refine ⟨second.readable.trans first.readable, second.writable.trans first.writable, fun i => ?_⟩
  rcases second.words i with kept | zeroed
  · rw [kept]
    exact first.words i
  · exact .inr zeroed

/-- Writing zero to a copy of an entry zeroes one word, if the sector can be read. -/
theorem fatWriteCopies_cons_fades (rewritable : ∀ lba, disk.readable lba → disk.writable lba)
    (copy : Nat) (rest : List Nat) :
    (disk.readable (st.fatSector copy cluster) = false ∧
      (st.fatWriteCopies disk cluster fatFree (copy :: rest)).2 = disk) ∨
    ∃ after, Fades disk after ∧
      word after ((st.reservedSectors + copy * st.sectorsPerFat) * 128 + cluster % 2 ^ 30) = 0 ∧
      st.fatWriteCopies disk cluster fatFree (copy :: rest) =
        st.fatWriteCopies after cluster fatFree rest := by
  cases readable : disk.readable (st.fatSector copy cluster) with
  | false =>
    refine Or.inl ⟨rfl, ?_⟩
    rw [fatWriteCopies]
    simp only [Disk.readBlock, readable, Bool.false_eq_true, if_false]
  | true =>
    have zeroes (k i : Nat) : word (setRaw disk k (renewed (raw disk k) fatFree)) i =
        if i = k then 0 else word disk i := by
      unfold word
      rw [← raw, raw_setRaw, apply_ite (· % 2 ^ 28), renewed, combined_entry]
      rfl
    refine Or.inr ⟨_, ?_, ?_, fatWriteCopies_cons_eq readable (rewritable _ readable) fatFree rest⟩
    · refine ⟨rfl, rfl, fun i => ?_⟩
      rw [zeroes]
      split
      · exact Or.inr rfl
      · exact Or.inl rfl
    · exact (zeroes ..).trans (if_pos rfl)

theorem fatWriteCopies_fades (rewritable : ∀ lba, disk.readable lba → disk.writable lba)
    (copies : List Nat) : Fades disk (st.fatWriteCopies disk cluster fatFree copies).2 := by
  induction copies generalizing disk with
  | nil => exact Fades.refl disk
  | cons copy rest ih =>
    rcases fatWriteCopies_cons_fades rewritable copy rest with
      ⟨_, failed⟩ | ⟨after, fades, _, continues⟩
    · rw [failed]
      exact Fades.refl disk
    · rw [continues]
      refine fades.trans (ih ?_)
      rw [fades.readable, fades.writable]
      exact rewritable

/-- The entries that freeing may still follow. -/
def pending (st : Fat32State) (disk : Disk) : Finset Nat :=
  (Finset.range (2 ^ 30)).filter fun entry => word disk (st.reservedSectors * 128 + entry) ≠ 0

/-- A step of the loop that goes on has zeroed an entry, and no zeroed entry comes back. -/
theorem pending_fatWrite (rewritable : ∀ lba, disk.readable lba → disk.writable lba)
    (copies : 0 < st.numFats) (continues : ¬ Ends (st.fatRead disk cluster)) :
    (st.pending (st.fatWrite disk cluster fatFree).2).card < (st.pending disk).card := by
  have linked : st.fatRead disk cluster ≠ fatFree := fun free => continues (.inr (.inl free))
  have readable : disk.readable (st.reservedSectors + cluster * 4 % 2 ^ 32 / 512) = true := by
    by_contra unreadable
    refine continues (.inr (.inr ?_))
    unfold fatRead Disk.readBlock
    dsimp only
    rw [if_neg unreadable]
  rw [fatRead_eq_word readable] at linked
  obtain ⟨rest, range⟩ : ∃ rest, List.range st.numFats = 0 :: rest := by
    rw [← succ_pred_eq_of_pos copies]
    exact ⟨_, range_succ_eq_map⟩
  have fades : Fades disk (st.fatWrite disk cluster fatFree).2 :=
    fatWriteCopies_fades rewritable (List.range st.numFats)
  have zeroed : word (st.fatWrite disk cluster fatFree).2
      (st.reservedSectors * 128 + cluster % 2 ^ 30) = 0 := by
    rcases @fatWriteCopies_cons_fades st disk cluster rewritable 0 rest with
      ⟨failed, _⟩ | ⟨after, first, cleared, goesOn⟩
    · rw [fatSector, Nat.zero_mul, add_zero, readable] at failed
      cases failed
    · rw [Nat.zero_mul, add_zero] at cleared
      rw [fatWrite, range, goesOn]
      have later : Fades after (st.fatWriteCopies after cluster fatFree rest).2 := by
        apply fatWriteCopies_fades
        rw [first.readable, first.writable]
        exact rewritable
      rcases later.words (st.reservedSectors * 128 + cluster % 2 ^ 30) with kept | zero
      · rw [kept, cleared]
      · exact zero
  apply Finset.card_lt_card
  rw [Finset.ssubset_iff_of_subset]
  · refine ⟨cluster % 2 ^ 30, ?_, ?_⟩
    · exact Finset.mem_filter.mpr ⟨Finset.mem_range.mpr (mod_lt _ (by decide)), linked⟩
    · exact fun member => (Finset.mem_filter.mp member).2 zeroed
  · intro entry member
    obtain ⟨inside, nonzero⟩ := Finset.mem_filter.mp member
    refine Finset.mem_filter.mpr ⟨inside, fun zero => nonzero ?_⟩
    rcases fades.words (st.reservedSectors * 128 + entry) with kept | faded
    · rw [kept, zero]
    · exact faded

theorem fatFreeChain_ends (ends : Ends (st.fatRead disk cluster)) (fuel : Nat) :
    (st.fatFreeChain disk (fuel + 1) cluster).isSome :=
  (congrArg Option.isSome (if_pos ends)).trans rfl

theorem fatFreeChain_continues (continues : ¬ Ends (st.fatRead disk cluster)) (fuel : Nat) :
    st.fatFreeChain disk (fuel + 1) cluster =
      st.fatFreeChain (st.fatWrite disk cluster fatFree).2 fuel (st.fatRead disk cluster) :=
  if_neg continues

theorem fatFreeChain_terminates (rewritable : ∀ lba, disk.readable lba → disk.writable lba)
    (copies : 0 < st.numFats) (start : Nat) : ∃ fuel, (st.fatFreeChain disk fuel start).isSome := by
  induction counted : (st.pending disk).card using Nat.strong_induction_on
    generalizing disk start with
  | _ count ih =>
    by_cases ends : Ends (st.fatRead disk start)
    · exact ⟨1, fatFreeChain_ends ends 0⟩
    have fades : Fades disk (st.fatWrite disk start fatFree).2 := fatWriteCopies_fades rewritable _
    have rewritableToo : ∀ lba, (st.fatWrite disk start fatFree).2.readable lba →
        (st.fatWrite disk start fatFree).2.writable lba := by
      rw [fades.readable, fades.writable]
      exact rewritable
    obtain ⟨fuel, done⟩ := ih _ (counted ▸ pending_fatWrite rewritable copies ends) rewritableToo
      (st.fatRead disk start) rfl
    exact ⟨fuel + 1, by rw [fatFreeChain_continues ends]; exact done⟩

/-- Without a copy of the table nothing is written, and the loop follows the walk. -/
theorem fatFreeChain_unwritten_iff (noCopies : st.numFats = 0) (start : Nat) :
    (∃ fuel, (st.fatFreeChain disk fuel start).isSome) ↔ ∃ n, Ends (st.walk disk start (n + 1)) := by
  have unchanged (cluster : Nat) : (st.fatWrite disk cluster fatFree).2 = disk := by
    unfold fatWrite
    rw [noCopies]
    rfl
  constructor
  · rintro ⟨fuel, done⟩
    induction fuel generalizing start with
    | zero => cases done
    | succ fuel ih =>
      by_cases ends : Ends (st.fatRead disk start)
      · exact ⟨0, ends⟩
      · rw [fatFreeChain_continues ends, unchanged] at done
        obtain ⟨n, later⟩ := ih _ done
        exact ⟨n + 1, (st.walk_succ disk start (n + 1)).symm ▸ later⟩
  · rintro ⟨n, ends⟩
    induction n generalizing start with
    | zero => exact ⟨1, fatFreeChain_ends ends 0⟩
    | succ n ih =>
      obtain ⟨fuel, done⟩ := ih _ ends
      by_cases here : Ends (st.fatRead disk start)
      · exact ⟨1, fatFreeChain_ends here 0⟩
      · exact ⟨fuel + 1, by rw [fatFreeChain_continues here, unchanged]; exact done⟩

/--
On a device whose readable sectors can be written, freeing a chain terminates,
whatever the table holds, if and only if the volume has a copy of the table or
the links from the start lead to an end.
-/
theorem fatFreeChain_terminates_iff (st : Fat32State) (disk : Disk) (start : Nat)
    (rewritable : ∀ lba, disk.readable lba → disk.writable lba) :
    (∃ fuel, (st.fatFreeChain disk fuel start).isSome) ↔
      0 < st.numFats ∨ ∃ n, Ends (st.walk disk start (n + 1)) := by
  rcases Nat.eq_zero_or_pos st.numFats with noCopies | copies
  · rw [fatFreeChain_unwritten_iff noCopies, noCopies]
    exact (or_iff_right (lt_irrefl 0)).symm
  · exact ⟨fun _ => .inl copies, fun _ => fatFreeChain_terminates rewritable copies start⟩

/-- Freeing the cluster that links to itself ends, as its entry is zeroed first. -/
theorem fatFreeChain_terminates_loop :
    ∃ fuel, ((loopState 1).fatFreeChain loopDisk fuel 2).isSome :=
  (fatFreeChain_terminates_iff (loopState 1) loopDisk 2 fun _ _ => rfl).mpr (.inl one_pos)

/-- On a volume that is mounted with no copies of the table it goes on forever. -/
theorem fatFreeChain_loops : (loopState 0).fatRead loopDisk 2 = 2 ∧
    ∀ fuel, (loopState 0).fatFreeChain loopDisk fuel 2 = none := by
  have linked : (loopState 0).fatRead loopDisk 2 = 2 := by decide +kernel
  refine ⟨linked, fun fuel => ?_⟩
  induction fuel with
  | zero => rfl
  | succ fuel ih =>
    have continues : ¬ Ends ((loopState 0).fatRead loopDisk 2) := by
      unfold Ends
      decide
    exact ih

end Fat32State

end CantayaOS.Storage
