import CantayaOS.Storage.Reach

/-!
# What a failed call leaves behind

A call that returns `false` should leave the free clusters, the listings and
the contents of the files alone.  Writing a file and creating a directory
allocate clusters before they enter the name, and nothing gives the clusters
back when the name cannot be entered.
-/

namespace CantayaOS.Storage

open Lib List Option

namespace Fat32State

/-- The free clusters, the listings and the contents of the files are the same. -/
structure SameView (st : Fat32State) (unicode : Unicode) (before after : Disk) : Prop where
  free : st.freeClusters (st.volume after) = st.freeClusters (st.volume before)
  listings : ∀ dir, st.LiveDir unicode before dir →
    st.readDir unicode after dir = st.readDir unicode before dir
  contents : ∀ entry, st.Listed unicode before entry → entry.isDir = false →
    st.readFile after entry = st.readFile before entry

def freeCount (st : Fat32State) (disk : Disk) : Nat := (st.freeClusters (st.volume disk)).length

/-- The directory has a slot that can take an entry. -/
def hasVacantSlot (st : Fat32State) (disk : Disk) (dir : Nat) : Bool :=
  (st.dirSlots disk (st.clusterChain disk dir)).any Slot.isVacant

variable {st : Fat32State} {unicode : Unicode} {disk after : Disk} {vol vol' : Volume}
  {table : Table} {owner : Owner} {clusters : List Nat} {dir : Nat}
  {data : List UInt8} {ok : Bool}

theorem WellFormed.sameView (formed : st.WellFormed disk)
    (stores : st.Stores after (st.volume disk)) : st.SameView unicode disk after := by
  obtain ⟨table, idle, layout⟩ := formed.laidOut
  refine ⟨by rw [stores.volume_eq], fun dir live => ?_, ?_⟩
  · obtain ⟨owner, clusters, inDir, _⟩ := layout.exists_inDir idle formed.stores live
    rw [stores.readDir inDir.chain, formed.stores.readDir inDir.chain]
  · rintro entry ⟨dir, live, listed⟩ _
    obtain ⟨owner, clusters, inDir, _⟩ := layout.exists_inDir idle formed.stores live
    rw [formed.stores.readDir inDir.chain] at listed
    obtain ⟨loc, found⟩ := exists_at listed
    by_cases large : 2 ≤ entry.cluster
    · obtain ⟨old, chain, _⟩ := inDir.exists_chain found (.inr large)
      exact readFile_congr formed.stores stores (fun _ => chain) fun _ _ => ⟨rfl, rfl⟩
    · have noChain : 2 ≤ entry.cluster → st.Chain (st.volume disk) entry.cluster [] :=
        fun large' => absurd large' large
      exact readFile_congr formed.stores stores noChain fun _ _ => ⟨rfl, rfl⟩

theorem not_sameView_of_leak (stores : st.Stores after vol') {cluster : Nat}
    (free : cluster ∈ st.freeClusters (st.volume disk)) (taken : vol'.fat cluster ≠ fatFree) :
    ¬ st.SameView unicode disk after := by
  intro same
  rw [← same.free, stores.volume_eq] at free
  exact taken (mem_freeClusters.mp free).2

/-! ## When a call fails -/

theorem Stores.hasVacantSlot_iff (stores : st.Stores disk vol) (chain : st.Chain vol dir clusters) :
    st.hasVacantSlot disk dir = true ↔
      ∃ loc ∈ st.locs clusters, (st.slotAt vol loc).isVacant = true := by
  unfold hasVacantSlot
  rw [stores.slots_eq chain, slots, List.any_map, List.any_eq_true]
  rfl

/-- Entering a slot succeeds when there is one, or a cluster for more of them. -/
theorem Entered.ok_iff {raw : List UInt8} (entered : st.Entered vol clusters raw ok vol') :
    ok = true ↔ (∃ loc ∈ st.locs clusters, (st.slotAt vol loc).isVacant = true) ∨
      st.freeClusters vol ≠ [] := by
  cases entered with
  | slot shape used vacant =>
    refine iff_of_true rfl (.inl ⟨_, ?_, vacant⟩)
    rw [shape]
    exact mem_append_right _ (.head _)
  | extended shape used free =>
    refine iff_of_true rfl (.inr ?_)
    rw [free]
    exact cons_ne_nil _ _
  | exhausted used none =>
    refine iff_of_false nofun ?_
    rintro (⟨loc, member, vacant⟩ | more)
    · rw [used loc member] at vacant
      cases vacant
    · exact more none

theorem exists_vacant_congr (chain : st.Chain vol dir clusters) (spares : vol.Spares vol') :
    (∃ loc ∈ st.locs clusters, (st.slotAt vol' loc).isVacant = true) ↔
      ∃ loc ∈ st.locs clusters, (st.slotAt vol loc).isVacant = true := by
  refine exists_congr fun loc => and_congr_right fun member => ?_
  have used := chain.fat_ne_free (mem_locs.mp member).1
  rw [slotAt_congr (spares loc.1 used).2]

/-- The free clusters that are left behind written data. -/
theorem Chained.freeClusters_eq_nil_iff {start : Nat} (chained : st.Chained vol data start vol') :
    st.freeClusters vol' = [] ↔ (st.freeClusters vol).length ≤ st.needed data := by
  have mem : ∀ cluster, cluster ∈ st.freeClusters vol' ↔
      cluster ∈ st.freeClusters vol ∧ cluster ∉ st.granted vol data := by
    intro cluster
    rw [mem_freeClusters, mem_freeClusters]
    by_cases member : cluster ∈ st.granted vol data
    · exact iff_of_false (fun free => chained.chain.fat_ne_free member free.2) fun both => both.2 member
    · rw [chained.fat cluster member]
      exact ⟨fun free => ⟨free, member⟩, fun both => both.1⟩
  constructor
  · intro full
    by_contra more
    rw [not_le] at more
    have left : (st.freeClusters vol)[st.needed data] ∈ st.freeClusters vol' := by
      refine (mem _).mpr ⟨getElem_mem more, fun granted => ?_⟩
      have apart := disjoint_take_drop (st.nodup_freeClusters vol) (le_refl (st.needed data))
      refine apart granted ?_
      rw [drop_eq_getElem_cons more]
      exact .head _
    rw [full] at left
    cases left
  · intro few
    refine eq_nil_iff_forall_not_mem.mpr fun cluster free => ?_
    obtain ⟨member, outside⟩ := (mem cluster).mp free
    refine outside ?_
    unfold granted
    rwa [take_of_length_le few]

end Fat32State

/--
The call leaves nothing behind when it fails: the name is there already, no
cluster is allocated, or the name can be entered.
-/
def FileCall.RollsBack (st : Fat32State) (unicode : Unicode) (disk : Disk) : FileCall → Prop
  | writeFile dir name data => (st.findEntry unicode disk dir name).isSome = true ∨ data = [] ∨
      st.freeCount disk < st.needed data ∨ (unicode.encode83Name name).isSome = true ∧
        (st.hasVacantSlot disk dir = true ∨ st.needed data < st.freeCount disk)
  | mkdir dir name => (st.findEntry unicode disk dir name).isSome = true ∨ st.freeCount disk = 0 ∨
      (unicode.encode83Name name).isSome = true ∧
        (st.hasVacantSlot disk dir = true ∨ 2 ≤ st.freeCount disk)
  | delete _ _ => True

namespace Fat32State

variable {st : Fat32State} {unicode : Unicode} {disk after : Disk} {vol vol' : Volume}
  {table : Table} {owner : Owner} {clusters : List Nat} {dir : Nat} {name : List Char}
  {data : List UInt8} {ok : Bool} {call : FileCall} {fuel : Nat}

theorem Absent.findEntry (absent : st.Absent unicode vol clusters name) (stores : st.Stores disk vol)
    (chain : st.Chain vol dir clusters) : st.findEntry unicode disk dir name = none :=
  (stores.findEntry chain).trans (absent_iff.mp absent)

theorem Found.findEntry {before behind : List Loc} {loc : Loc} {pending : List (UInt8 × List Char)}
    {entry : DirEntry} (found : st.Found unicode vol clusters name before loc behind pending entry)
    (stores : st.Stores disk vol) (chain : st.Chain vol dir clusters) :
    st.findEntry unicode disk dir name = some entry :=
  (stores.findEntry chain).trans found.find?_eq

/-- The chain that was written for data shows as clusters that are not free any more. -/
theorem Chained.leaks {start : Nat} (chained : st.Chained (st.volume disk) data start vol')
    (stores : st.Stores after vol') : ¬ st.SameView unicode disk after := by
  have member := chained.chain.start_mem
  exact not_sameView_of_leak stores (mem_freeClusters.mpr (mem_granted member))
    (chained.chain.fat_ne_free member)

section

variable (formed : st.WellFormed disk) (inDir : st.InDir (st.volume disk) table owner clusters dir)
  (stores : st.Stores after vol')
include formed inDir stores

theorem writeFile_rollsBack_iff
    (outcome : st.WriteOutcome unicode (st.volume disk) clusters name data ok vol') :
    (ok = false → st.SameView unicode disk after) ↔
      (FileCall.writeFile dir name data).RollsBack st unicode disk := by
  rw [FileCall.RollsBack]
  cases outcome with
  | overwritten found _ _ =>
    refine iff_of_true nofun (.inl ?_)
    rw [found.findEntry formed.stores inDir.chain]
    rfl
  | created absent encoded stored entered =>
    have missing := absent.findEntry formed.stores inDir.chain
    have okIff := entered.ok_iff
    rw [exists_vacant_congr inDir.chain stored.spares,
      ← formed.stores.hasVacantSlot_iff inDir.chain] at okIff
    simp only [missing, encoded, isSome_none, isSome_some, Bool.false_eq_true, false_or, true_and]
    cases stored with
    | empty nothing =>
      refine iff_of_true (fun failed => ?_) (.inl nothing)
      cases failed
      cases entered.eq_of_false
      exact formed.sameView stores
    | full _ few =>
      refine iff_of_true (fun failed => ?_) (.inr (.inl few))
      cases failed
      cases entered.eq_of_false
      exact formed.sameView stores
    | chained something enough chained =>
      have left := chained.freeClusters_eq_nil_iff
      constructor
      · intro rolled
        refine .inr (.inr ?_)
        have succeeded : ok = true := by
          by_contra failed
          cases Bool.eq_false_of_not_eq_true failed
          cases entered.eq_of_false
          exact chained.leaks stores (rolled rfl)
        exact (okIff.mp succeeded).imp_right fun more => Nat.lt_of_not_le fun few =>
          more (left.mpr few)
      · rintro (nothing | few | room) failed
        · exact absurd nothing something
        · exact absurd few (not_lt.mpr enough)
        · cases failed.symm.trans (okIff.mpr (room.imp_right fun more full =>
            absurd (left.mp full) (not_le.mpr more)))
  | refused absent invalid stored =>
    simp only [absent.findEntry formed.stores inDir.chain, invalid, isSome_none,
      Bool.false_eq_true, false_or, false_and, or_false]
    cases stored with
    | empty nothing => exact iff_of_true (fun _ => formed.sameView stores) (.inl nothing)
    | full _ few => exact iff_of_true (fun _ => formed.sameView stores) (.inr few)
    | chained something enough chained =>
      refine iff_of_false (fun rolled => chained.leaks stores (rolled trivial)) ?_
      rintro (nothing | few)
      · exact something nothing
      · exact absurd few (not_lt.mpr enough)

theorem mkdir_rollsBack_iff
    (outcome : st.MkdirOutcome unicode (st.volume disk) dir clusters name ok vol') :
    (ok = false → st.SameView unicode disk after) ↔
      (FileCall.mkdir dir name).RollsBack st unicode disk := by
  rw [FileCall.RollsBack, freeCount]
  cases outcome with
  | present present =>
    refine iff_of_true (fun _ => formed.sameView stores) (.inl ?_)
    rw [formed.stores.findEntry inDir.chain, isSome_iff_ne_none]
    exact fun missing => present (absent_iff.mpr missing)
  | exhausted absent none =>
    refine iff_of_true (fun _ => formed.sameView stores) (.inr (.inl ?_))
    rw [none]
    rfl
  | created absent encoded free entered =>
    rename_i short cluster rest
    have member : cluster ∈ st.freeClusters (st.volume disk) := free ▸ (.head _)
    have unused := (mem_freeClusters.mp member).2
    have okIff := entered.ok_iff
    have left : st.freeClusters (freshDir (st.volume disk) cluster dir) = rest :=
      freeClusters_setFat (by decide) free
    rw [exists_vacant_congr inDir.chain (freshDir_spares unused dir),
      ← formed.stores.hasVacantSlot_iff inDir.chain, left] at okIff
    simp only [absent.findEntry formed.stores inDir.chain, encoded, free, length_cons,
      isSome_none, isSome_some, Bool.false_eq_true, false_or, true_and,
      Nat.succ_ne_zero]
    constructor
    · intro rolled
      have succeeded : ok = true := by
        by_contra failed
        cases Bool.eq_false_of_not_eq_true failed
        cases entered.eq_of_false
        exact not_sameView_of_leak stores member (freshDir_used _ _ _) (rolled rfl)
      exact (okIff.mp succeeded).imp_right fun more =>
        Nat.succ_le_succ (length_pos_iff.mpr more)
    · intro room failed
      cases failed.symm.trans (okIff.mpr (room.imp_right fun more =>
        length_pos_iff.mp (Nat.le_of_succ_le_succ more)))
  | refused absent invalid free =>
    simp only [absent.findEntry formed.stores inDir.chain, invalid, free, length_cons,
      isSome_none, Bool.false_eq_true, false_and, or_false, Nat.succ_ne_zero]
    refine iff_of_false (fun rolled => not_sameView_of_leak stores
      (free ▸ (.head _)) (freshDir_used _ _ _) (rolled trivial)) id

end

/-- A failed call leaves everything as it was exactly when it could not leak clusters. -/
theorem failed_call_rolls_back_iff (formed : st.WellFormed disk)
    (live : st.LiveDir unicode disk call.dir) (enough : st.totalClusters ≤ fuel) :
    (∃ ok after, call.apply st unicode fuel disk = some (ok, after) ∧
      (ok = false → st.SameView unicode disk after)) ↔ call.RollsBack st unicode disk := by
  obtain ⟨table, owner, clusters, ok, after, vol', inDir, ended, stores, outcome⟩ :=
    formed.call_outcome live enough
  have returned : (∃ ok after, call.apply st unicode fuel disk = some (ok, after) ∧
      (ok = false → st.SameView unicode disk after)) ↔
        (ok = false → st.SameView unicode disk after) := by
    rw [ended]
    constructor
    · rintro ⟨_, _, ⟨⟩, rolled⟩
      exact rolled
    · exact fun rolled => ⟨ok, after, rfl, rolled⟩
  rw [returned]
  cases outcome with
  | wrote outcome => exact writeFile_rollsBack_iff formed inDir stores outcome
  | made outcome => exact mkdir_rollsBack_iff formed inDir stores outcome
  | deleted outcome =>
    refine iff_of_true (fun failed => ?_) trivial
    cases outcome with
    | absent => exact formed.sameView stores
    | occupied => exact formed.sameView stores
    | deleted => cases failed

/-- With data for two clusters the only free one is given back, and then the name is refused. -/
theorem failed_call_rolls_back_iff_tooLong :
    ∃ after, (oneSector 2).writeFile .ascii 2 (oneSector 2).formatted 2 "LONGNAME9".toList
        (replicate 513 1) = some (false, after) ∧
      (oneSector 2).SameView .ascii (oneSector 2).formatted after := by
  have tooLong : (FileCall.writeFile 2 "LONGNAME9".toList (replicate 513 1)).RollsBack
      (oneSector 2) .ascii (oneSector 2).formatted := .inr (.inr (.inl (by decide +kernel)))
  obtain ⟨ok, after, ended, rolled⟩ :=
    (failed_call_rolls_back_iff (oneSector_wellFormed (by decide) (by decide)) .root
      (le_refl 2)).mpr tooLong
  have fails : ∀ result ∈ (oneSector 2).writeFile .ascii 2 (oneSector 2).formatted 2
      "LONGNAME9".toList (replicate 513 1), result.1 = false := by decide +kernel
  obtain rfl := fails _ ended
  exact ⟨after, ended, rolled rfl⟩

/-- A name that has no short form is refused after the only free cluster was taken. -/
theorem refused_name_leaks_cluster :
    (oneSector 2).WellFormed (oneSector 2).formatted ∧
    (∃ after, (oneSector 2).writeFile .ascii 2 (oneSector 2).formatted 2 "LONGNAME9".toList [1] =
        some (false, after) ∧
      ¬ (oneSector 2).SameView .ascii (oneSector 2).formatted after) ∧
    ∃ after, (oneSector 2).mkdir .ascii (oneSector 2).formatted 2 "LONGNAME9".toList =
        (false, after) ∧
      ¬ (oneSector 2).SameView .ascii (oneSector 2).formatted after := by
  refine ⟨oneSector_wellFormed (by decide) (by decide), ?_, ?_⟩
  · have seen : ∃ result ∈ (oneSector 2).writeFile .ascii 2 (oneSector 2).formatted 2
        "LONGNAME9".toList [1], result.1 = false ∧
          (oneSector 2).freeClusters ((oneSector 2).volume result.2) ≠
            (oneSector 2).freeClusters ((oneSector 2).volume (oneSector 2).formatted) := by
      decide +kernel
    obtain ⟨⟨ok, after⟩, ended, rfl, leaked⟩ := seen
    exact ⟨after, ended, fun same => leaked same.free⟩
  · refine ⟨_, Prod.ext (by decide +kernel) rfl, fun same => absurd same.free ?_⟩
    decide +kernel

end Fat32State

end CantayaOS.Storage
