import CantayaOS.Storage.Layout

/-!
# What the file operations do to a volume

Each operation of the driver ends in one of a few outcomes, and an outcome
says exactly which volume is left.  Everything that is proved about the
operations follows from their outcomes.
-/

namespace CantayaOS.Storage

open Lib List Fat32State Unicode

variable {cluster : Nat}

namespace Fat32State

/-- The outcome of entering a new slot into a directory with these clusters. -/
inductive Entered (st : Fat32State) (vol : Volume) (clusters : List Nat) (raw : List UInt8) :
    Bool → Volume → Prop
  | slot {before behind : List Loc} {loc : Loc}
      (shape : st.locs clusters = before ++ loc :: behind)
      (used : ∀ other ∈ before, (st.slotAt vol other).isVacant = false)
      (vacant : (st.slotAt vol loc).isVacant = true) :
      Entered st vol clusters raw true (vol.patch loc.1 (loc.2 * 32) raw)
  | extended {front rest : List Nat} {last cluster : Nat} (shape : clusters = front ++ [last])
      (used : ∀ other ∈ st.locs clusters, (st.slotAt vol other).isVacant = false)
      (free : st.freeClusters vol = cluster :: rest) :
      Entered st vol clusters raw true
        ((((vol.setFat cluster 0x0FFFFFFF).setFat last cluster).blank cluster).patch cluster 0 raw)
  | exhausted (used : ∀ other ∈ st.locs clusters, (st.slotAt vol other).isVacant = false)
      (full : st.freeClusters vol = []) : Entered st vol clusters raw false vol

variable {st : Fat32State} {unicode : Unicode} {disk : Disk} {vol : Volume} {clusters : List Nat}
  {start : Nat} {name : List Char} {short raw : List UInt8}

theorem length_padded {width : Nat} {bytes : List UInt8} (fits : bytes.length ≤ width) :
    (padded width bytes).length = width := by
  rw [padded, length_append, length_replicate]
  omega

theorem length_encode83Name (encoded : unicode.encode83Name name = some short) :
    short.length = 11 := by
  unfold encode83Name at encoded
  dsimp only at encoded
  split at encoded
  · cases encoded
  next base =>
    obtain ⟨_, fits⟩ := not_or.mp base
    split at encoded
    · cases encoded
      rw [length_append, length_padded (le_of_not_gt fits), length_padded (Nat.zero_le _)]
    split at encoded
    · cases encoded
    next ext =>
      cases encoded
      rw [length_append, length_padded (le_of_not_gt fits), length_padded (le_of_not_gt ext)]

theorem length_rawEntry (whole : short.length = 11) (attr : UInt8) (cluster size : Nat) :
    (rawEntry short attr cluster size).length = 32 := by
  simp [rawEntry, whole]

theorem blank_patch_zeroFilled (vol : Volume) (cluster : Nat) (short : raw.length ≤ 512) :
    (vol.blank cluster).patch cluster 0 (zeroFilled 512 raw) =
      (vol.blank cluster).patch cluster 0 raw := by
  refine congrArg (Volume.mk vol.fat) (congrArg (Function.update _ cluster) (funext fun i => ?_))
  rw [Volume.blank_self]
  unfold Bytes.overlay
  simp only [Nat.zero_le, true_and, Nat.zero_add, length_zeroFilled, Nat.sub_zero]
  by_cases small : i < 512
  · rw [if_pos small, getD_zeroFilled small]
    split
    next => rfl
    next outside => exact List.getD_eq_default _ _ (not_lt.mp outside)
  · rw [if_neg small, if_neg (by omega)]

theorem Stores.writeFirst (stores : st.Stores disk (vol.blank cluster))
    (valid : st.IsCluster cluster) (short : raw.length ≤ 512) :
    ∃ after, disk.writeBlock (st.clusterToSector cluster) (Bytes.overlay zeroSector 0 raw) =
        (true, after) ∧ st.Stores after ((vol.blank cluster).patch cluster 0 raw) := by
  obtain ⟨after, written, holds, _⟩ := stores.writeBlock valid stores.geometry.cluster_pos
    (Bytes.overlay zeroSector 0 raw)
  have filled := window_overlay_zero raw
  rw [take_of_length_le short] at filled
  rw [filled, blank_patch_zeroFilled vol cluster short] at holds
  exact ⟨after, written, holds⟩

theorem Stores.freeOld (stores : st.Stores disk vol) {fuel : Nat} {old : List Nat}
    (chain : st.OldChain vol cluster old) (enough : st.totalClusters ≤ fuel) :
    ∃ after, (∀ next : Disk → Option (Bool × Disk),
        (if cluster ≥ 2 then st.fatFreeChain disk fuel cluster >>= next else some disk >>= next) =
          next after) ∧
      st.Stores after (vol.mark fatFree old) := by
  unfold OldChain at chain
  by_cases large : 2 ≤ cluster
  · rw [if_pos large] at chain
    obtain ⟨after, ended, holds⟩ :=
      stores.fatFreeChain chain (le_trans chain.length_le enough)
    refine ⟨after, fun next => ?_, holds⟩
    rw [if_pos large, ended]
    rfl
  · rw [if_neg large] at chain
    refine ⟨disk, fun next => if_neg large, ?_⟩
    rw [chain]
    exact stores

theorem Stores.createDirEntry (stores : st.Stores disk vol) (chain : st.Chain vol start clusters)
    (encoded : unicode.encode83Name name = some short) (isDir : Bool) (cluster size : Nat) :
    ∃ ok after vol', st.createDirEntry unicode disk start name isDir cluster size = (ok, after) ∧
      st.Stores after vol' ∧
      st.Entered vol clusters (rawEntry short (entryAttr isDir) cluster size) ok vol' := by
  have whole := length_rawEntry (length_encode83Name encoded) (entryAttr isDir) cluster size
  generalize entry : rawEntry short (entryAttr isDir) cluster size = raw at whole
  unfold Fat32State.createDirEntry
  rw [encoded]
  simp only [stores.clusterChain chain, stores.dirSlots chain.valid, entry]
  cases vacancy : (st.slots vol clusters).find? Slot.isVacant with
  | some slot =>
    obtain ⟨vacant, first, last, shape, used⟩ := find?_eq_some_iff_append.mp vacancy
    obtain ⟨before, rest, locs, rfl, same⟩ := map_eq_append_iff.mp shape
    obtain ⟨loc, behind, rfl, rfl, rfl⟩ := map_eq_cons_iff.mp same
    have member : loc ∈ st.locs clusters := by
      rw [locs]
      exact mem_append_right _ (.head _)
    obtain ⟨sector, after, read, _, written, holds⟩ :=
      stores.patchSlot (isLoc_of_mem chain.valid member) (le_of_eq (by rw [zero_add, whole]))
    rw [add_zero] at written holds
    simp only [read, written]
    refine ⟨true, after, _, rfl, holds, .slot locs (fun other known => ?_) vacant⟩
    simpa using used (st.slotAt vol other) (List.mem_map_of_mem known)
  | none =>
    have used : ∀ other ∈ st.locs clusters, (st.slotAt vol other).isVacant = false := by
      intro other known
      simpa using find?_eq_none.mp vacancy (st.slotAt vol other) (List.mem_map_of_mem known)
    obtain ⟨exhausted, found⟩ := stores.fatAlloc
    cases free : st.freeClusters vol with
    | nil =>
      simp only [exhausted free]
      exact ⟨false, disk, vol, rfl, stores, .exhausted used free⟩
    | cons fresh rest =>
      obtain ⟨claimed, allocated, holds, _⟩ := found fresh rest free
      have valid : st.IsCluster fresh :=
        (mem_freeClusters.mp (by rw [free]; exact .head _)).1
      rcases eq_nil_or_concat clusters with rfl | ⟨front, last, rfl⟩
      · obtain ⟨_, impossible⟩ := chain.exists_cons
        cases impossible
      rw [concat_eq_append] at *
      have lastValid : st.IsCluster last := chain.valid last (by simp)
      obtain ⟨linked, wrote, holds, _⟩ :=
        holds.fatWrite lastValid (stores.geometry.cluster_lt valid)
      obtain ⟨after, written, holds⟩ :=
        (holds.zeroCluster valid).writeFirst valid (le_trans (le_of_eq whole) (by decide))
      simp only [allocated, getLast?_append, getLast?_singleton, Option.some_or,
        Option.getD_some, wrote, written]
      exact ⟨true, after, _, rfl, holds, .extended rfl used free⟩

theorem createDirEntry_refused (invalid : unicode.encode83Name name = none) (disk : Disk)
    (start : Nat) (isDir : Bool) (cluster size : Nat) :
    st.createDirEntry unicode disk start name isDir cluster size = (false, disk) := by
  unfold createDirEntry
  rw [invalid]

/-! ## The operations -/

def Absent (st : Fat32State) (unicode : Unicode) (vol : Volume) (clusters : List Nat)
    (name : List Char) : Prop :=
  ∀ entry ∈ st.listing unicode vol clusters, unicode.sameName entry.name name = false

theorem absent_iff : st.Absent unicode vol clusters name ↔
    (st.listing unicode vol clusters).find? (unicode.named name) = none := by
  simp [Absent]

inductive WriteOutcome (st : Fat32State) (unicode : Unicode) (vol : Volume) (clusters : List Nat)
    (name : List Char) (data : List UInt8) : Bool → Volume → Prop
  | overwritten {before behind : List Loc} {loc : Loc} {pending : List (UInt8 × List Char)}
      {entry : DirEntry} {old : List Nat} {start : Option Nat} {vol' : Volume}
      (found : st.Found unicode vol clusters name before loc behind pending entry)
      (chain : st.OldChain vol entry.cluster old)
      (stored : st.Stored (vol.mark fatFree old) data start vol') :
      WriteOutcome st unicode vol clusters name data true (vol'.patch loc.1 (loc.2 * 32)
        (patchClusterSize (st.slotAt vol loc).raw (start.getD 0) (data.length % 2 ^ 32)))
  | created {short : List UInt8} {start : Option Nat} {vol' after : Volume} {ok : Bool}
      (absent : st.Absent unicode vol clusters name)
      (encoded : unicode.encode83Name name = some short) (stored : st.Stored vol data start vol')
      (entered : st.Entered vol' clusters
        (rawEntry short (entryAttr false) (start.getD 0) (data.length % 2 ^ 32)) ok after) :
      WriteOutcome st unicode vol clusters name data ok after
  | refused {start : Option Nat} {vol' : Volume} (absent : st.Absent unicode vol clusters name)
      (invalid : unicode.encode83Name name = none) (stored : st.Stored vol data start vol') :
      WriteOutcome st unicode vol clusters name data false vol'

def freshDir (vol : Volume) (cluster parent : Nat) : Volume :=
  ((vol.setFat cluster 0x0FFFFFFF).blank cluster).patch cluster 0
    (rawEntry (dotName 1) attrDirectory cluster 0 ++ rawEntry (dotName 2) attrDirectory parent 0)

theorem freshDir_spares (free : vol.fat cluster = fatFree) (parent : Nat) :
    vol.Spares (freshDir vol cluster parent) := by
  intro other used
  have differ : other ≠ cluster := fun same => used (same ▸ free)
  exact ⟨vol.setFat_of_ne _ differ _,
    (Volume.patch_of_ne _ _ differ _ _).trans (Volume.blank_of_ne _ differ)⟩

inductive MkdirOutcome (st : Fat32State) (unicode : Unicode) (vol : Volume) (start : Nat)
    (clusters : List Nat) (name : List Char) : Bool → Volume → Prop
  | present (present : ¬ st.Absent unicode vol clusters name) :
      MkdirOutcome st unicode vol start clusters name false vol
  | exhausted (absent : st.Absent unicode vol clusters name) (full : st.freeClusters vol = []) :
      MkdirOutcome st unicode vol start clusters name false vol
  | created {short : List UInt8} {cluster : Nat} {rest : List Nat} {after : Volume} {ok : Bool}
      (absent : st.Absent unicode vol clusters name)
      (encoded : unicode.encode83Name name = some short)
      (free : st.freeClusters vol = cluster :: rest)
      (entered : st.Entered (freshDir vol cluster start) clusters
        (rawEntry short (entryAttr true) cluster 0) ok after) :
      MkdirOutcome st unicode vol start clusters name ok after
  | refused {cluster : Nat} {rest : List Nat} (absent : st.Absent unicode vol clusters name)
      (invalid : unicode.encode83Name name = none) (free : st.freeClusters vol = cluster :: rest) :
      MkdirOutcome st unicode vol start clusters name false (freshDir vol cluster start)

inductive DeleteOutcome (st : Fat32State) (unicode : Unicode) (vol : Volume) (clusters : List Nat)
    (name : List Char) : Bool → Volume → Prop
  | absent (absent : st.Absent unicode vol clusters name) :
      DeleteOutcome st unicode vol clusters name false vol
  | occupied {before behind : List Loc} {loc : Loc} {pending : List (UInt8 × List Char)}
      {entry : DirEntry} {old : List Nat}
      (found : st.Found unicode vol clusters name before loc behind pending entry)
      (isDir : entry.isDir = true) (chain : st.Chain vol entry.cluster old)
      (occupied : st.listing unicode vol old ≠ []) :
      DeleteOutcome st unicode vol clusters name false vol
  | deleted {before behind : List Loc} {loc : Loc} {pending : List (UInt8 × List Char)}
      {entry : DirEntry} {old : List Nat}
      (found : st.Found unicode vol clusters name before loc behind pending entry)
      (chain : st.OldChain vol entry.cluster old)
      (empty : entry.isDir = true → st.listing unicode vol old = []) :
      DeleteOutcome st unicode vol clusters name true
        ((vol.mark fatFree old).patch loc.1 (loc.2 * 32) [0xE5])

variable {table : Table} {owner : Owner}

theorem mkdir_outcome (stores : st.Stores disk vol)
    (dir : st.InDir vol table owner clusters start) (name : List Char) :
    ∃ ok after vol', st.mkdir unicode disk start name = (ok, after) ∧ st.Stores after vol' ∧
      st.MkdirOutcome unicode vol start clusters name ok vol' := by
  unfold mkdir
  rw [stores.findEntry dir.chain]
  cases found : (st.listing unicode vol clusters).find? (unicode.named name) with
  | some entry =>
    refine ⟨false, disk, vol, rfl, stores, .present fun absent => ?_⟩
    rw [absent_iff.mp absent] at found
    cases found
  | none =>
    have absent := absent_iff.mpr found
    obtain ⟨exhausted, allocated⟩ := stores.fatAlloc
    cases free : st.freeClusters vol with
    | nil =>
      rw [exhausted free]
      exact ⟨false, disk, vol, rfl, stores, .exhausted absent free⟩
    | cons cluster rest =>
      obtain ⟨claimed, taken, holds, _⟩ := allocated cluster rest free
      obtain ⟨valid, unused⟩ := mem_freeClusters.mp (free ▸ mem_cons_self)
      obtain ⟨made, written, holds⟩ := (holds.zeroCluster valid).writeFirst valid
        (show (rawEntry (dotName 1) attrDirectory cluster 0 ++
          rawEntry (dotName 2) attrDirectory start 0).length ≤ 512 by
            simp [rawEntry, dotName])
      rw [taken]
      simp only [written]
      cases encoded : unicode.encode83Name name with
      | none =>
        rw [createDirEntry_refused encoded]
        exact ⟨false, made, _, rfl, holds, .refused absent encoded free⟩
      | some short =>
        obtain ⟨ok, after, vol', entered, stored, outcome⟩ := Stores.createDirEntry holds
          (dir.chain.spared (freshDir_spares unused start)) encoded true cluster 0
        exact ⟨ok, after, vol', entered, stored, .created absent encoded free outcome⟩

theorem length_slotAt (st : Fat32State) (vol : Volume) (loc : Loc) : (st.slotAt vol loc).raw.length = 32 :=
  Bytes.length_window ..

theorem length_patchClusterSize (whole : raw.length = 32) (cluster size : Nat) :
    (patchClusterSize raw cluster size).length = 32 := by
  simp [patchClusterSize, whole]

theorem Stores.updateDirEntry (stores : st.Stores disk vol) {loc : Loc} (valid : st.IsLoc loc)
    (cluster size : Nat) :
    ∃ after, updateDirEntryClusterSize disk (st.slotAt vol loc).sector (st.slotAt vol loc).offset
        cluster size = (true, after) ∧
      st.Stores after (vol.patch loc.1 (loc.2 * 32)
        (patchClusterSize (st.slotAt vol loc).raw cluster size)) := by
  have whole := length_patchClusterSize (length_slotAt st vol loc) cluster size
  obtain ⟨sector, after, read, window, written, holds⟩ :=
    stores.patchSlot valid (le_of_eq (by rw [zero_add, whole]))
  rw [add_zero] at written holds
  refine ⟨after, ?_, holds⟩
  unfold updateDirEntryClusterSize
  rw [read]
  simp only [window, written]

theorem Stored.spares_marked {data : List UInt8} {start : Option Nat} {vol' : Volume}
    {old : List Nat} (stored : st.Stored (vol.mark fatFree old) data start vol')
    (used : vol.fat cluster ≠ fatFree) (kept : cluster ∉ old) :
    vol'.fat cluster = vol.fat cluster ∧ vol'.data cluster = vol.data cluster := by
  have same : (vol.mark fatFree old).fat cluster = vol.fat cluster :=
    Volume.mark_of_not_mem kept fatFree
  obtain ⟨fat, data⟩ := stored.spares cluster (same ▸ used)
  exact ⟨fat.trans same, data⟩

variable {fuel : Nat}

section

variable (stores : st.Stores disk vol) (dir : st.InDir vol table owner clusters start)
  (enough : st.totalClusters ≤ fuel)
include stores dir enough

theorem writeFile_outcome (name : List Char) (data : List UInt8) :
    ∃ ok after vol', st.writeFile unicode fuel disk start name data = some (ok, after) ∧
      st.Stores after vol' ∧ st.WriteOutcome unicode vol clusters name data ok vol' := by
  unfold writeFile
  rw [stores.findEntry dir.chain]
  cases search : (st.listing unicode vol clusters).find? (unicode.named name) with
  | some entry =>
    obtain ⟨before, loc, behind, pending, found⟩ := exists_found search
    obtain ⟨old, chain, apart, _⟩ := dir.exists_old found.split found.look
    obtain ⟨_, _, rfl⟩ := look_eq_entry found.look
    obtain ⟨freed, ended, holds⟩ := stores.freeOld chain enough
    obtain ⟨first, filled, vol', written, stored, outcome, _⟩ := holds.writeDataClusters data
    have member : loc.1 ∈ clusters := (mem_locs.mp found.split.mem).1
    have same : st.slotAt vol' loc = st.slotAt vol loc := by
      unfold slotAt
      rw [(outcome.spares_marked (dir.chain.fat_ne_free member)
        (fun given => apart given member)).2]
    obtain ⟨after, updated, final⟩ := stored.updateDirEntry
      (isLoc_of_mem dir.chain.valid found.split.mem) (first.getD 0) (data.length % 2 ^ 32)
    rw [same] at updated final
    refine ⟨true, after, _, ?_, final, .overwritten found chain outcome⟩
    refine (ended _).trans ?_
    simp only [written, Slot.entry, updated]
  | none =>
    have absent := absent_iff.mpr search
    obtain ⟨first, filled, vol', written, stored, outcome, _⟩ := stores.writeDataClusters data
    have same : (if data ≠ [] then st.writeDataClusters disk data else (some 0, disk)) =
        (first, filled) := by
      split
      next => exact written
      next nothing =>
        rw [← written, writeDataClusters, if_pos (not_not.mp nothing)]
    simp only [same]
    cases encoded : unicode.encode83Name name with
    | none =>
      rw [createDirEntry_refused encoded]
      exact ⟨false, filled, vol', rfl, stored, .refused absent encoded outcome⟩
    | some short =>
      obtain ⟨ok, after, vol'', entered, final, entering⟩ := stored.createDirEntry
        (dir.chain.spared outcome.spares) encoded false (first.getD 0) (data.length % 2 ^ 32)
      rw [entered]
      exact ⟨ok, after, vol'', rfl, final, .created absent encoded outcome entering⟩

theorem delete_outcome (name : List Char) :
    ∃ ok after vol', st.delete unicode fuel disk start name = some (ok, after) ∧
      st.Stores after vol' ∧ st.DeleteOutcome unicode vol clusters name ok vol' := by
  unfold delete
  rw [stores.findEntry dir.chain]
  cases search : (st.listing unicode vol clusters).find? (unicode.named name) with
  | none => exact ⟨false, disk, vol, rfl, stores, .absent (absent_iff.mpr search)⟩
  | some entry =>
    obtain ⟨before, loc, behind, pending, found⟩ := exists_found search
    obtain ⟨old, chain, _, _⟩ := dir.exists_old found.split found.look
    obtain ⟨large, _⟩ := dir.layout.owned dir.owned rfl found.split found.look
    obtain ⟨_, _, rfl⟩ := look_eq_entry found.look
    have listed : (st.slotAt vol loc).isDir = true →
        st.Chain vol (st.slotAt vol loc).cluster old := by
      intro isDir
      unfold OldChain at chain
      rwa [if_pos (show 2 ≤ (Slot.entry _ _).cluster from large isDir)] at chain
    by_cases occupied : (st.slotAt vol loc).isDir = true ∧
        st.readDir unicode disk (st.slotAt vol loc).cluster ≠ []
    · obtain ⟨isDir, entries⟩ := occupied
      have kept := entries
      rw [stores.readDir (listed isDir)] at kept
      exact ⟨false, disk, vol, if_pos ⟨isDir, entries⟩, stores,
        .occupied found isDir (listed isDir) kept⟩
    obtain ⟨freed, ended, holds⟩ := stores.freeOld chain enough
    obtain ⟨sector, after, read, _, written, final⟩ := holds.patchSlot
      (isLoc_of_mem dir.chain.valid found.split.mem)
      (show 0 + [(0xE5 : UInt8)].length ≤ 32 by decide)
    refine ⟨true, after, _, (if_neg occupied).trans ((ended _).trans ?_), final,
      .deleted found chain fun isDir => ?_⟩
    · -- Freeing a chain leaves the bytes of every slot alone.
      change freed.readBlock (st.slotAt vol loc).sector = some sector at read
      simp only [Slot.entry, read]
      exact congrArg some written
    · by_contra entries
      exact occupied ⟨isDir, by rwa [stores.readDir (listed isDir)]⟩

end

end Fat32State

end CantayaOS.Storage
