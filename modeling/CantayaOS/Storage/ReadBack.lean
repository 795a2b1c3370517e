import CantayaOS.Storage.Frame

/-!
# Reading back what was written

When writing a file succeeds, the name should lead to an entry with the length
of the data, and reading it should yield the data.  It does not when the data
does not fit on the device, since the file is then entered empty; when its
length does not fit into the size field; and when the new entry is listed under
another name or not at all.
-/

namespace CantayaOS.Storage

open Lib List Nat Volume

namespace Fat32State

/-- The name leads to an entry of the right size whose contents are the data. -/
def ReadsBack (st : Fat32State) (unicode : Unicode) (disk : Disk) (dir : Nat) (name : List Char)
    (data : List UInt8) : Prop :=
  ∃ entry, st.findEntry unicode disk dir name = some entry ∧ entry.size = data.length ∧
    st.readFile disk entry = data

/-- The data fits into so many clusters, and its length into the size field. -/
def Fits (st : Fat32State) (data : List UInt8) (clusters : Nat) : Prop :=
  data = [] ∨ st.needed data ≤ clusters ∧ data.length < 2 ^ 32

/-- The number of clusters that overwriting an entry gives back. -/
def regained (st : Fat32State) (disk : Disk) (entry : DirEntry) : Nat :=
  if 2 ≤ entry.cluster then (st.clusterChain disk entry.cluster).length else 0

/-- A new entry with this short name is listed in the directory under the name itself. -/
def ListsItself (st : Fat32State) (unicode : Unicode) (disk : Disk) (dir : Nat) (name : List Char)
    (short : List UInt8) : Prop :=
  short.getD 0 0 ≠ 0x00 ∧ short.getD 0 0 ≠ 0xE5 ∧
    ¬ Unicode.IsDots (unicode.listedAs
      (unicode.partsBefore (st.dirSlots disk (st.clusterChain disk dir))) short) ∧
    unicode.sameName (unicode.listedAs
      (unicode.partsBefore (st.dirSlots disk (st.clusterChain disk dir))) short) name = true

/--
Writing the data is faithful.  An existing entry must have enough clusters
together with the free ones.  A new entry must be listed under its name, with
enough free clusters, unless the call fails.
-/
def WritesFaithfully (st : Fat32State) (unicode : Unicode) (disk : Disk) (dir : Nat)
    (name : List Char) (data : List UInt8) : Prop :=
  match st.findEntry unicode disk dir name with
  | some entry => st.Fits data (st.freeCount disk + st.regained disk entry)
  | none =>
    match unicode.encode83Name name with
    | none => True
    | some short =>
      st.hasVacantSlot disk dir = false ∧ (st.freeCount disk = 0 ∨
          st.freeCount disk = st.needed data) ∨
        st.ListsItself unicode disk dir name short ∧ st.Fits data (st.freeCount disk)

variable {st : Fat32State} {unicode : Unicode} {disk after : Disk} {vol mid vol' : Volume}
  {table : Table} {owner : Owner} {clusters : List Nat} {dir start : Nat} {name : List Char}
  {data : List UInt8} {first : Option Nat} {entry : DirEntry} {old : List Nat}

/-- An entry for stored data reads back exactly when the data fits. -/
theorem Stored.reads_back_iff (stored : st.Stored vol data first mid) (stores : st.Stores after vol')
    (agree : ∀ cluster ∈ st.granted vol data, mid.fat cluster ≠ fatFree →
      vol'.fat cluster = mid.fat cluster ∧ vol'.data cluster = mid.data cluster)
    (cluster : entry.cluster = first.getD 0) (size : entry.size = data.length % 2 ^ 32) :
    (entry.size = data.length ∧ st.readFile after entry = data) ↔
      st.Fits data (st.freeClusters vol).length := by
  have unstored : first.getD 0 = 0 → st.readFile after entry = [] := by
    intro zero
    unfold readFile
    rw [cluster, zero, if_pos (by decide)]
  cases stored with
  | empty nothing =>
    refine iff_of_true ⟨?_, ?_⟩ (.inl nothing)
    · rw [size, nothing]
      rfl
    · rw [unstored rfl, nothing]
  | full something few =>
    refine iff_of_false (fun both => something ?_) ?_
    · rw [← both.2, unstored rfl]
    · rintro (nothing | ⟨fits, _⟩)
      · exact something nothing
      · exact not_lt.mpr fits few
  | chained something enough chained =>
    have agree : ∀ cluster ∈ st.granted vol data, vol'.fat cluster = mid.fat cluster ∧
        vol'.data cluster = mid.data cluster :=
      fun cluster member => agree cluster member (chained.chain.fat_ne_free member)
    have chain : st.Chain vol' entry.cluster (st.granted vol data) := by
      rw [cluster]
      exact chained.chain.congr fun cluster member => (agree cluster member).1
    have contents : st.contents vol' (st.granted vol data) =
        zeroFilled (st.needed data * st.clusterSize) data := by
      rw [← chained.contents]
      refine flatMap_congr fun place member => ?_
      unfold sectorAt
      rw [(agree place.1 (mem_sectorsOf.mp member).1).2]
    by_cases short : data.length < 2 ^ 32
    · refine iff_of_true ⟨?_, ?_⟩ (.inr ⟨enough, short⟩)
      · rw [size, mod_eq_of_lt short]
      · rw [stores.readFile chain, contents, size, mod_eq_of_lt short,
          take_zeroFilled (length_le_needed stores.geometry data)]
    refine iff_of_false (fun both => ?_) ?_
    · have small := mod_lt data.length (show 2 ^ 32 > 0 by decide)
      rw [← size, both.1] at small
      exact short small
    · rintro (nothing | ⟨_, short'⟩)
      · exact something nothing
      · exact short short'

theorem length_freeClusters_mark (chain : st.OldChain vol start old) :
    (st.freeClusters (vol.mark fatFree old)).length = (st.freeClusters vol).length + old.length := by
  have valid : ∀ cluster ∈ old, st.IsCluster cluster ∧ vol.fat cluster ≠ fatFree := by
    intro cluster member
    unfold OldChain at chain
    split_ifs at chain with large
    · exact ⟨chain.valid cluster member, chain.fat_ne_free member⟩
    · rw [chain] at member
      cases member
  have distinct : old.Nodup := by
    unfold OldChain at chain
    split_ifs at chain with large
    · exact chain.nodup
    · rw [chain]
      exact nodup_nil
  have both : (st.freeClusters vol ++ old).Nodup := by
    refine (st.nodup_freeClusters vol).append distinct fun cluster free member => ?_
    exact (valid cluster member).2 (mem_freeClusters.mp free).2
  rw [← length_append]
  refine ((perm_ext_iff_of_nodup (st.nodup_freeClusters _) both).mpr fun cluster => ?_).length_eq
  rw [mem_append, mem_freeClusters, mem_freeClusters]
  by_cases member : cluster ∈ old
  · rw [mark_of_mem member]
    exact iff_of_true ⟨(valid cluster member).1, rfl⟩ (.inr member)
  · rw [mark_of_not_mem member]
    exact ⟨Or.inl, fun either => either.resolve_right member⟩

theorem regained_eq (stores : st.Stores disk vol) (chain : st.OldChain vol entry.cluster old) :
    st.regained disk entry = old.length := by
  unfold regained
  unfold OldChain at chain
  split_ifs at chain ⊢ with large
  · rw [stores.clusterChain chain]
  · rw [chain]
    rfl

theorem needed_nil (geometry : st.Geometry) : st.needed [] = 0 := by
  have positive : 0 < st.clusterSize := mul_pos geometry.cluster_pos (by decide)
  exact div_eq_of_lt (show 0 + st.clusterSize - 1 < st.clusterSize by omega)

theorem Stored.none_left_iff (stored : st.Stored vol data first mid) (geometry : st.Geometry) :
    st.freeClusters mid = [] ↔ (st.freeClusters vol).length = 0 ∨
      (st.freeClusters vol).length = st.needed data := by
  cases stored with
  | empty nothing =>
    rw [nothing, needed_nil geometry, or_self, length_eq_zero_iff]
  | full something few =>
    rw [length_eq_zero_iff]
    exact ⟨Or.inl, fun either => either.resolve_right few.ne⟩
  | chained something enough chained =>
    rw [chained.freeClusters_eq_nil_iff]
    omega

/-! ## Finding the entry again -/

/-- The name is found in a revised listing if it is the name of the new entry. -/
theorem find?_reveal_iff {front behind : List DirEntry} {sight : Sight}
    (absent : ∀ entry ∈ front ++ behind, unicode.sameName entry.name name = false) :
    (front ++ sight.reveal behind).find? (unicode.named name) =
      some entry ↔ sight = .entry entry ∧ unicode.sameName entry.name name = true := by
  have early : front.find? (unicode.named name) = none := by
    refine find?_eq_none.mpr fun entry member => ?_
    rw [Unicode.named, absent entry (mem_append_left _ member)]
    decide
  have late : behind.find? (unicode.named name) = none := by
    refine find?_eq_none.mpr fun entry member => ?_
    rw [Unicode.named, absent entry (mem_append_right _ member)]
    decide
  rw [find?_append, early, Option.none_or]
  cases sight with
  | endOfDir => exact iff_of_false (fun found => by cases found) (fun seen => by cases seen.1)
  | passed parts =>
    rw [Sight.reveal, late]
    exact iff_of_false (fun found => by cases found) (fun seen => by cases seen.1)
  | entry found =>
    rw [Sight.reveal, find?_cons, Unicode.named, late, Sight.entry.injEq]
    cases named : unicode.sameName found.name name with
    | false =>
      refine iff_of_false (fun found => by cases found) ?_
      rintro ⟨rfl, named'⟩
      rw [named] at named'
      cases named'
    | true =>
      rw [Option.some.injEq]
      exact ⟨fun same => ⟨same, same ▸ named⟩, And.left⟩

/-- An existing entry reads back exactly when the data fits. -/
theorem overwritten_reads_back_iff {before behind : List Loc} {loc : Loc}
    {pending : List (UInt8 × List Char)} (inDir : st.InDir vol table owner clusters dir)
    (stores : st.Stores disk vol)
    (found : st.Found unicode vol clusters name before loc behind pending entry)
    (chain : st.OldChain vol entry.cluster old)
    (stored : st.Stored (vol.mark fatFree old) data first mid)
    (stores' : st.Stores after (mid.patch loc.1 (loc.2 * 32) (patchClusterSize
      (st.slotAt vol loc).raw (first.getD 0) (data.length % 2 ^ 32)))) :
    st.ReadsBack unicode after dir name data ↔
      st.Fits data ((st.freeClusters vol).length + old.length) := by
  have revision := inDir.revision_of_overwritten found chain stored
  obtain ⟨_, listing⟩ := revision.readDir_self inDir stores stores'
  have search : st.findEntry unicode after dir name = some { entry with
      cluster := first.getD 0 % 2 ^ 32, size := data.length % 2 ^ 32 % 2 ^ 32 } := by
    unfold findEntry
    rw [listing]
    refine find?_eq_some_iff_append.mpr ⟨found.named, _, _, rfl, fun other member => ?_⟩
    rw [Bool.not_eq_true']
    exact found.first other member
  have inside := (mem_locs.mp found.split.mem).1
  have apart := inDir.old_apart found.split found.look chain
  have outside : ∀ cluster ∈ st.granted (vol.mark fatFree old) data, cluster ≠ loc.1 := by
    rintro cluster granted rfl
    have free := (mem_granted granted).2
    rw [mark_of_not_mem fun given => apart given inside] at free
    exact inDir.chain.fat_ne_free inside free
  have cluster := InDir.start_lt stores.geometry stored
  have size : data.length % 2 ^ 32 % 2 ^ 32 = data.length % 2 ^ 32 := mod_mod _ _
  rw [cluster, size] at search
  have contents := stored.reads_back_iff stores'
    (fun cluster granted _ => ⟨rfl, patch_of_ne _ _ (outside cluster granted) _ _⟩)
    (show ({ entry with cluster := first.getD 0, size := data.length % 2 ^ 32 } :
      DirEntry).cluster = _ from rfl) rfl
  rw [← length_freeClusters_mark chain, ← contents]
  unfold ReadsBack
  rw [search]
  constructor
  · rintro ⟨_, ⟨⟩, both⟩
    exact both
  · exact fun both => ⟨_, rfl, both⟩

/-- A new entry reads back exactly when it is listed under its name and the data fits. -/
theorem created_reads_back_iff {short : List UInt8} (inDir : st.InDir vol table owner clusters dir)
    (stores : st.Stores disk vol) (clean : EndsClean (st.slots vol clusters))
    (absent : st.Absent unicode vol clusters name)
    (encoded : unicode.encode83Name name = some short) (stored : st.Stored vol data first mid)
    (entered : st.Entered mid clusters
      (rawEntry short (entryAttr false) (first.getD 0) (data.length % 2 ^ 32)) true vol')
    (stores' : st.Stores after vol') :
    st.ReadsBack unicode after dir name data ↔
      st.ListsItself unicode disk dir name short ∧ st.Fits data (st.freeClusters vol).length := by
  have whole := length_encode83Name encoded
  obtain ⟨loc, raw, revision⟩ := inDir.revision_of_entered stores.geometry clean
    stored.spares (length_rawEntry whole ..) (fun slot raw =>
      Slot.plain_of_attr (Slot.fields_of_rawEntry whole raw).2.2.1) entered
  obtain ⟨_, listing⟩ := revision.readDir_self inDir stores stores'
  have missing : ∀ entry ∈ unicode.scan [] (usedSlots (st.slots vol clusters)) ++
      unicode.scan [] (slotsBehind (st.slots vol clusters)),
      unicode.sameName entry.name name = false := by
    intro entry listed
    refine absent entry ?_
    rwa [revision.before, Option.toList_none, append_nil]
  have agree : ∀ cluster ∈ st.granted vol data, mid.fat cluster ≠ fatFree →
      vol'.fat cluster = mid.fat cluster ∧ vol'.data cluster = mid.data cluster :=
    fun cluster member used => entered.confined used fun inside =>
      inDir.chain.fat_ne_free inside (mem_granted member).2
  have search : ∀ entry, st.findEntry unicode after dir name = some entry ↔
      unicode.look (unicode.partsBefore (st.slots vol clusters)) (st.slotAt vol' loc) =
        .entry entry ∧ unicode.sameName entry.name name = true := by
    intro entry
    unfold findEntry
    rw [listing]
    exact find?_reveal_iff missing
  -- Whichever entry is found, it is the new one, and it names the stored data.
  have contents : ∀ entry, st.findEntry unicode after dir name = some entry →
      ((entry.size = data.length ∧ st.readFile after entry = data) ↔
        st.Fits data (st.freeClusters vol).length) := by
    intro entry found
    obtain ⟨_, _, rfl⟩ := Unicode.look_eq_entry ((search entry).mp found).1
    obtain ⟨cluster, size, _⟩ := Slot.fields_of_rawEntry whole raw
    exact stored.reads_back_iff stores' agree
      (cluster.trans (InDir.start_lt stores.geometry stored)) (size.trans (mod_mod _ _))
  have listed : (∃ entry, st.findEntry unicode after dir name = some entry) ↔
      st.ListsItself unicode disk dir name short := by
    unfold ListsItself
    rw [stores.slots_eq inDir.chain]
    simp only [search, look_of_rawEntry whole raw]
    constructor
    · rintro ⟨entry, sees, named⟩
      split_ifs at sees with ended hidden
      cases sees
      obtain ⟨kept, notDots⟩ := not_or.mp hidden
      exact ⟨ended, kept, notDots, named⟩
    · rintro ⟨inUse, kept, notDots, named⟩
      exact ⟨_, by rw [if_neg inUse, if_neg (not_or.mpr ⟨kept, notDots⟩)], named⟩
  rw [← listed]
  constructor
  · rintro ⟨entry, found, both⟩
    exact ⟨⟨entry, found⟩, (contents entry found).mp both⟩
  · rintro ⟨⟨entry, found⟩, fits⟩
    exact ⟨entry, found, (contents entry found).mpr fits⟩

/-- What was written reads back exactly when the write is faithful. -/
theorem writeFile_reads_back_iff {fuel : Nat} (formed : st.WellFormed disk)
    (clean : st.CleanEnds unicode disk) (live : st.LiveDir unicode disk dir)
    (enough : st.totalClusters ≤ fuel) (name : List Char) (data : List UInt8) :
    (∃ ok after, st.writeFile unicode fuel disk dir name data = some (ok, after) ∧
      (ok = true → st.ReadsBack unicode after dir name data)) ↔
      st.WritesFaithfully unicode disk dir name data := by
  obtain ⟨table, idle, layout⟩ := formed.laidOut
  have stores := formed.stores
  obtain ⟨owner, clusters, inDir, _⟩ := layout.exists_inDir idle stores live
  have clean := clean dir live
  rw [stores.slots_eq inDir.chain] at clean
  obtain ⟨ok, after, vol', ended, stores', outcome⟩ :=
    writeFile_outcome stores inDir enough name data
  have returned : (∃ ok after, st.writeFile unicode fuel disk dir name data = some (ok, after) ∧
      (ok = true → st.ReadsBack unicode after dir name data)) ↔
        (ok = true → st.ReadsBack unicode after dir name data) := by
    rw [ended]
    constructor
    · rintro ⟨_, _, ⟨⟩, reads⟩
      exact reads
    · exact fun reads => ⟨ok, after, rfl, reads⟩
  rw [returned]
  unfold WritesFaithfully
  cases outcome with
  | overwritten found chain stored =>
    simp only [found.findEntry stores inDir.chain, true_implies, regained_eq stores chain]
    exact overwritten_reads_back_iff inDir stores found chain stored stores'
  | created absent encoded stored entered =>
    have okIff := entered.ok_iff
    rw [exists_vacant_congr inDir.chain stored.spares, ← stores.hasVacantSlot_iff inDir.chain,
      ne_eq, stored.none_left_iff stores.geometry] at okIff
    simp only [absent.findEntry stores inDir.chain, encoded]
    cases ok with
    | false =>
      obtain ⟨full, noneLeft⟩ := not_or.mp (mt okIff.mpr nofun)
      exact iff_of_true nofun (.inl ⟨Bool.eq_false_of_not_eq_true full, not_not.mp noneLeft⟩)
    | true =>
      rw [forall_prop_of_true rfl,
        created_reads_back_iff inDir stores clean absent encoded stored entered stores']
      refine (or_iff_right ?_).symm
      rintro ⟨full, noneLeft⟩
      rcases okIff.mp rfl with vacant | left
      · rw [full] at vacant
        cases vacant
      · exact left noneLeft
  | refused absent invalid _ =>
    simp only [absent.findEntry stores inDir.chain, invalid]
    exact iff_of_true nofun trivial

theorem writeFile_reads_back_iff_formatted :
    ∃ after, (oneSector 3).writeFile .ascii 3 (oneSector 3).formatted 2 ['A'] (replicate 513 7) =
        some (true, after) ∧
      (oneSector 3).ReadsBack .ascii after 2 ['A'] (replicate 513 7) := by
  have missing : (oneSector 3).findEntry .ascii (oneSector 3).formatted 2 ['A'] = none := by
    decide +kernel
  have encoded : Unicode.ascii.encode83Name ['A'] = some (0x41 :: replicate 10 0x20) := by
    decide +kernel
  have lists : (oneSector 3).ListsItself .ascii (oneSector 3).formatted 2 ['A']
      (0x41 :: replicate 10 0x20) := by
    unfold ListsItself
    decide +kernel
  have faithful : (oneSector 3).WritesFaithfully .ascii (oneSector 3).formatted 2 ['A']
      (replicate 513 7) := by
    rw [WritesFaithfully, missing, encoded]
    exact .inr ⟨lists, .inr (by decide +kernel)⟩
  have clean : (oneSector 3).CleanEnds .ascii (oneSector 3).formatted :=
    cleanEnds_of_flat (by decide +kernel) (by decide +kernel)
  obtain ⟨ok, after, ended, reads⟩ :=
    (writeFile_reads_back_iff (oneSector_wellFormed (by decide) (by decide)) clean .root
      (le_refl 3) ['A'] _).mpr faithful
  have succeeds : ∀ result ∈ (oneSector 3).writeFile .ascii 3 (oneSector 3).formatted 2 ['A']
      (replicate 513 7), result.1 = true := by decide +kernel
  obtain rfl := succeeds _ ended
  exact ⟨after, ended, reads rfl⟩

/-- On a volume without free clusters a file is entered empty, and the call succeeds. -/
theorem full_volume_loses_data :
    (oneSector 1).WellFormed (oneSector 1).formatted ∧
    (oneSector 1).CleanEnds .ascii (oneSector 1).formatted ∧
    ∃ after, (oneSector 1).writeFile .ascii 1 (oneSector 1).formatted 2 ['A'] [1] =
        some (true, after) ∧
      ¬ (oneSector 1).ReadsBack .ascii after 2 ['A'] [1] := by
  refine ⟨oneSector_wellFormed (by decide) (by decide),
    cleanEnds_of_flat (by decide +kernel) (by decide +kernel), ?_⟩
  have seen : ∃ result ∈ (oneSector 1).writeFile .ascii 1 (oneSector 1).formatted 2 ['A'] [1],
      result.1 = true ∧ ∀ entry ∈ (oneSector 1).findEntry .ascii result.2 2 ['A'],
        (oneSector 1).readFile result.2 entry ≠ [1] := by
    decide +kernel
  obtain ⟨⟨ok, after⟩, ended, rfl, lost⟩ := seen
  exact ⟨after, ended, fun ⟨entry, found, _, contents⟩ => lost entry found contents⟩

/--
On a well-formed volume whose device has no errors and whose copies of the table
are the same, writing data to new clusters either returns the start of a chain of
distinct clusters that were free, from which the data is read back, and leaves
all other entries of all copies alone, or it returns nothing and leaves every
entry of every copy alone.
-/
theorem writeDataClusters_chain_or_nothing (formed : st.WellFormed disk)
    (copies : st.SameCopies disk) (data : List UInt8) (something : data ≠ []) (first : Option Nat)
    (after : Disk) (ran : st.writeDataClusters disk data = (first, after)) :
    match first with
    | some start =>
      (st.clusterChain after start).Nodup ∧
        (∀ cluster ∈ st.clusterChain after start,
          st.IsCluster cluster ∧ st.fatRead disk cluster = fatFree) ∧
        (∀ entry : DirEntry, entry.cluster = start → entry.size = data.length →
          st.readFile after entry = data) ∧
        ∀ copy < st.numFats, ∀ entry < st.sectorsPerFat * 128,
          entry ∉ st.clusterChain after start →
            raw after (st.entryWord copy entry) = raw disk (st.entryWord copy entry)
    | none =>
      ∀ copy < st.numFats, ∀ entry < st.sectorsPerFat * 128,
        raw after (st.entryWord copy entry) = raw disk (st.entryWord copy entry) := by
  have stores := formed.stores
  obtain ⟨_, _, vol', written, stores', stored, keeps⟩ := stores.writeDataClusters data
  cases ran.symm.trans written
  have unchanged {copy entry : Nat} (known : copy < st.numFats)
      (inside : entry < st.sectorsPerFat * 128) (same : vol'.fat entry = (st.volume disk).fat entry) :
      raw after (st.entryWord copy entry) = raw disk (st.entryWord copy entry) := by
    refine keeps.raw_eq copies known inside fun valid => ?_
    rw [← fatRead_eq stores.geometry stores'.errorFree valid,
      ← fatRead_eq stores.geometry stores.errorFree valid, stores'.fatRead valid, same]
    exact (stores.fatRead valid).symm
  cases stored with
  | empty nothing => exact absurd nothing something
  | full _ few => exact fun copy known entry inside => unchanged known inside rfl
  | chained _ enough chained =>
    dsimp only
    rw [stores'.clusterChain chained.chain]
    refine ⟨chained.chain.nodup, fun cluster member => ?_, ?_, ?_⟩
    · obtain ⟨valid, free⟩ := mem_granted member
      exact ⟨valid, (stores.fatRead valid).trans free⟩
    · rintro entry rfl size
      rw [stores'.readFile chained.chain, chained.contents, size]
      exact take_zeroFilled (length_le_needed stores.geometry data)
    · exact fun copy known entry inside outside =>
        unchanged known inside (chained.fat entry outside)

/-- A sector and one byte take the two free clusters behind the root directory. -/
theorem writeDataClusters_twoClusters : ∃ after,
    (oneSector 3).writeDataClusters (oneSector 3).formatted (replicate 513 7) = (some 3, after) ∧
      (oneSector 3).clusterChain after 3 = [3, 4] ∧
      (∀ entry : DirEntry, entry.cluster = 3 → entry.size = 513 →
        (oneSector 3).readFile after entry = replicate 513 7) ∧
      ∀ entry < 128, entry ∉ [3, 4] → raw after ((oneSector 3).entryWord 0 entry) =
        raw (oneSector 3).formatted ((oneSector 3).entryWord 0 entry) := by
  generalize ran : (oneSector 3).writeDataClusters (oneSector 3).formatted (replicate 513 7) = result
  have observed : (result.1, (oneSector 3).clusterChain result.2 3) = (some 3, [3, 4]) := by
    rw [← ran]
    decide +kernel
  obtain ⟨_, after⟩ := result
  obtain ⟨rfl, chain⟩ := Prod.mk.inj observed
  obtain ⟨_, _, reads, others⟩ := writeDataClusters_chain_or_nothing
    (oneSector_wellFormed (by decide) (by decide))
    (fun copy only _ _ => by rw [Nat.lt_one_iff.mp only]) _ (cons_ne_nil _ _) _ after ran
  rw [chain] at others
  refine ⟨after, rfl, chain, fun entry start size => ?_, others 0 one_pos⟩
  exact reads entry start (size.trans length_replicate.symm)

end Fat32State

end CantayaOS.Storage
