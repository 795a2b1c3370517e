import CantayaOS.Storage.Chain

/-!
# The contents of a chain

The contents of a list of clusters are their bytes, sector by sector.  Reading
a file takes a first part of the contents of its chain, and writing data makes
fresh clusters a chain whose contents are the data, filled up with zeros.
-/

namespace CantayaOS.Storage

open Lib Bytes Volume List

/-- The first `len` bytes of the data, filled up with zeros. -/
def zeroFilled (len : Nat) (data : List UInt8) : List UInt8 :=
  (data ++ List.replicate len 0).take len

variable {data : List UInt8}

@[simp] theorem length_zeroFilled (len : Nat) (data : List UInt8) :
    (zeroFilled len data).length = len := by
  simp [zeroFilled]

theorem zeroFilled_zero (data : List UInt8) : zeroFilled 0 data = [] := by
  simp [zeroFilled]

variable {len : Nat} {bytes : List UInt8} {place : Nat × Nat} {entry : DirEntry} {after : Disk}

theorem getD_zeroFilled {i : Nat} (inside : i < len) (data : List UInt8) :
    (zeroFilled len data).getD i 0 = data.getD i 0 := by
  by_cases short : i < data.length
  · simp [zeroFilled, inside, short]
  have behind := Nat.le_of_not_lt short
  have long : i < (data ++ List.replicate len (0 : UInt8)).length := by
    rw [length_append, length_replicate]
    omega
  rw [getD_eq_default data 0 behind, zeroFilled,
    getD_eq_getElem _ _ (by rw [length_take]; omega), getElem_take,
    getElem_append_right behind, getElem_replicate]

theorem zeroFilled_add (first second : Nat) (data : List UInt8) :
    zeroFilled (first + second) data =
      zeroFilled first data ++ zeroFilled second (data.drop first) := by
  apply ext_getElem (by simp)
  intro i _ _
  simp only [zeroFilled, getElem_take, getElem_append, length_take]
  grind

theorem take_zeroFilled (fits : data.length ≤ len) :
    (zeroFilled len data).take data.length = data := by
  rw [zeroFilled, take_take, min_eq_left fits, take_left]

theorem window_overlay_zero (data : List UInt8) :
    window (overlay Fat32State.zeroSector 0 (data.take 512)) 0 512 =
      zeroFilled 512 data := by
  apply ext_getElem (by simp)
  intro i inside _
  rw [length_window] at inside
  simp only [window, getElem_map, getElem_range, zeroFilled, getElem_take,
    getElem_append, getElem_replicate]
  by_cases short : i < data.length
  · have taken : i < (data.take 512).length := by
      rw [length_take]
      omega
    have value : overlay Fat32State.zeroSector 0 (data.take 512) (0 + i) =
        (data.take 512).getD i 0 := overlay_of_mem taken
    rw [zero_add] at value
    simp [value, short, inside]
  · rw [overlay_of_not_mem (by rw [length_take]; omega)]
    simp [short, Fat32State.zeroSector]

namespace Volume

/-- The bytes of a sector, given by its cluster and its number in the cluster. -/
def sectorAt (vol : Volume) (place : Nat × Nat) : List UInt8 :=
  Bytes.window (vol.data place.1) (place.2 * 512) 512

@[simp] theorem length_sectorAt (vol : Volume) (place : Nat × Nat) :
    (vol.sectorAt place).length = 512 :=
  length_window ..

theorem sectorAt_patch_self (vol : Volume) (place : Nat × Nat) (whole : bytes.length = 512) :
    (vol.patch place.1 (place.2 * 512) bytes).sectorAt place = bytes := by
  unfold sectorAt
  rw [patch_self]
  have written := window_overlay_self (vol.data place.1) (place.2 * 512) bytes
  rwa [whole] at written

theorem sectorAt_patch_of_ne (vol : Volume) {other : Nat × Nat} (differ : other ≠ place)
    (whole : bytes.length = 512) :
    (vol.patch place.1 (place.2 * 512) bytes).sectorAt other = vol.sectorAt other := by
  unfold sectorAt
  by_cases same : other.1 = place.1
  · have sectors : other.2 ≠ place.2 := fun equal => differ (Prod.ext same equal)
    rw [same, patch_self]
    exact window_congr fun i small => overlay_of_not_mem (by omega)
  · rw [patch_of_ne _ _ same]

/-- What writing data to a list of sectors does to a volume. -/
structure Filled (before after : Volume) (places : List (Nat × Nat))
    (data : List UInt8) : Prop where
  fat : after.fat = before.fat
  others : ∀ cluster, (∀ place ∈ places, place.1 ≠ cluster) → after.data cluster = before.data cluster
  sectors : ∀ place, place ∉ places → after.sectorAt place = before.sectorAt place
  written : places.flatMap after.sectorAt = zeroFilled (places.length * 512) data

def blank (vol : Volume) (cluster : Nat) : Volume :=
  { vol with data := Function.update vol.data cluster fun _ => 0 }

@[simp] theorem blank_fat (vol : Volume) (cluster : Nat) : (vol.blank cluster).fat = vol.fat := rfl

@[simp] theorem blank_self (vol : Volume) (cluster : Nat) :
    (vol.blank cluster).data cluster = fun _ => 0 :=
  Function.update_self ..

theorem blank_of_ne (vol : Volume) {cluster other : Nat} (differ : other ≠ cluster) :
    (vol.blank cluster).data other = vol.data other :=
  Function.update_of_ne differ ..

end Volume

namespace Fat32State

def sectorsOf (st : Fat32State) (clusters : List Nat) : List (Nat × Nat) :=
  clusters.flatMap fun cluster => (List.range st.sectorsPerCluster).map fun sec => (cluster, sec)

def lba (st : Fat32State) (place : Nat × Nat) : Nat := st.clusterToSector place.1 + place.2

def contents (st : Fat32State) (vol : Volume) (clusters : List Nat) : List UInt8 :=
  (st.sectorsOf clusters).flatMap vol.sectorAt

def IsSector (st : Fat32State) (place : Nat × Nat) : Prop :=
  st.IsCluster place.1 ∧ place.2 < st.sectorsPerCluster

variable {st : Fat32State} {disk : Disk} {vol : Volume} {cluster : Nat} {clusters : List Nat}

theorem mem_sectorsOf : place ∈ st.sectorsOf clusters ↔
    place.1 ∈ clusters ∧ place.2 < st.sectorsPerCluster :=
  mem_product.trans (and_congr_right' mem_range)

theorem nodup_sectorsOf (distinct : clusters.Nodup) : (st.sectorsOf clusters).Nodup :=
  distinct.product nodup_range

theorem length_sectorsOf (st : Fat32State) (clusters : List Nat) :
    (st.sectorsOf clusters).length = clusters.length * st.sectorsPerCluster := by
  rw [← length_range (n := st.sectorsPerCluster)]
  exact length_product ..

theorem flatMap_clusterSectors (st : Fat32State) (clusters : List Nat) :
    clusters.flatMap st.clusterSectors = (st.sectorsOf clusters).map st.lba := by
  unfold sectorsOf
  rw [map_flatMap]
  refine flatMap_congr fun cluster _ => ?_
  unfold clusterSectors
  rw [List.map_map, range'_eq_map_range]
  rfl

theorem sectors_valid (valid : ∀ cluster ∈ clusters, st.IsCluster cluster) :
    ∀ place ∈ st.sectorsOf clusters, st.IsSector place := by
  intro place member
  obtain ⟨known, small⟩ := mem_sectorsOf.mp member
  exact ⟨valid _ known, small⟩

theorem readSectors_eq (stores : st.Stores disk vol) (places : List (Nat × Nat))
    (valid : ∀ place ∈ places, st.IsSector place) (remaining : Nat) :
    readSectors disk (places.map st.lba) remaining =
      (places.flatMap vol.sectorAt).take remaining := by
  induction places generalizing remaining with
  | nil => simp [readSectors]
  | cons place rest ih =>
    obtain ⟨here, later⟩ := forall_mem_cons.mp valid
    obtain ⟨sector, read, _, windows⟩ := stores.readBlock here.1 here.2
    rw [map_cons, readSectors, flatMap_cons]
    by_cases done : remaining = 0
    · simp [done]
    have chunk : window sector 0 (min remaining 512) =
        (vol.sectorAt place).take remaining := by
      rw [windows 0 _ (by omega), add_zero]
      unfold sectorAt window
      rw [← map_take, take_range]
    have rest : remaining - min remaining 512 = remaining - 512 := by omega
    rw [if_neg done, lba, read, take_append, length_sectorAt]
    simp only [chunk, ih later, rest]

theorem Stores.readFile (stores : st.Stores disk vol)
    (chain : st.Chain vol entry.cluster clusters) :
    st.readFile disk entry = (st.contents vol clusters).take entry.size := by
  have valid := chain.start_valid
  unfold IsCluster at valid
  rw [Fat32State.readFile, if_neg (by omega), stores.clusterChain chain, flatMap_clusterSectors]
  exact readSectors_eq stores _ (sectors_valid chain.valid) _

theorem readFile_congr (stores : st.Stores disk vol) {vol' : Volume}
    (stores' : st.Stores after vol') {old : List Nat}
    (chain : 2 ≤ entry.cluster → st.Chain vol entry.cluster old)
    (agree : ∀ cluster ∈ old, vol'.fat cluster = vol.fat cluster ∧
      vol'.data cluster = vol.data cluster) : st.readFile after entry = st.readFile disk entry := by
  by_cases large : 2 ≤ entry.cluster
  · have chain := chain large
    have chain' := chain.congr fun cluster member => (agree cluster member).1
    have same : st.contents vol' old = st.contents vol old := by
      refine flatMap_congr fun place member => ?_
      unfold sectorAt
      rw [(agree place.1 (mem_sectorsOf.mp member).1).2]
    rw [stores.readFile chain, stores'.readFile chain', same]
  · unfold readFile
    rw [if_pos (Nat.lt_of_not_le large), if_pos (Nat.lt_of_not_le large)]

/-! ## Writing -/

theorem writeSectors_cons (disk : Disk) (lba : Nat) (rest : List Nat) (data : List UInt8)
    (written : disk.writeBlock lba (overlay zeroSector 0 (data.take 512)) = (true, after)) :
    writeSectors disk (lba :: rest) data = writeSectors after rest (data.drop 512) := by
  cases data with
  | nil =>
    have same : overlay zeroSector 0 ([] : List UInt8) = zeroSector := by
      funext i
      exact overlay_of_not_mem (Or.inr (Nat.zero_le i))
    rw [take_nil, same] at written
    rw [writeSectors, written, drop_nil]
  | cons byte bytes =>
    rw [writeSectors]
    simp only [written]

section

variable (stores : st.Stores disk vol)
include stores

theorem writeSectors_spec (places : List (Nat × Nat)) (valid : ∀ place ∈ places, st.IsSector place)
    (distinct : places.Nodup) (data : List UInt8) :
    ∃ after vol', writeSectors disk (places.map st.lba) data = (true, after) ∧
      st.Stores after vol' ∧ vol.Filled vol' places data ∧ st.KeepsCopies disk after := by
  induction places generalizing disk vol data with
  | nil =>
    refine ⟨disk, vol, rfl, stores, ⟨rfl, fun _ _ => rfl, fun _ _ => rfl, ?_⟩, .refl ..⟩
    rw [length_nil, zeroFilled_zero, flatMap_nil]
  | cons place rest ih =>
    obtain ⟨here, later⟩ := forall_mem_cons.mp valid
    obtain ⟨apart, others⟩ := nodup_cons.mp distinct
    obtain ⟨middle, written, holds, keeps⟩ := stores.writeBlock here.1 here.2
      (overlay zeroSector 0 (data.take 512))
    rw [window_overlay_zero] at holds
    obtain ⟨after, vol', finished, stored, filled, keepsToo⟩ :=
      ih holds later others (data.drop 512)
    refine ⟨after, vol', ?_, stored, ?_, keeps.trans keepsToo⟩
    · exact (writeSectors_cons _ _ _ _ written).trans finished
    · refine ⟨filled.fat, ?_, ?_, ?_⟩
      · intro cluster outside
        obtain ⟨differ, elsewhere⟩ := forall_mem_cons.mp outside
        rw [filled.others cluster elsewhere]
        exact patch_of_ne _ _ (Ne.symm differ) _ _
      · intro other outside
        obtain ⟨differ, elsewhere⟩ := not_or.mp (mt mem_cons.mpr outside)
        rw [filled.sectors other elsewhere]
        exact sectorAt_patch_of_ne _ differ (length_zeroFilled _ _)
      · rw [flatMap_cons, filled.written, filled.sectors place apart,
          sectorAt_patch_self _ _ (length_zeroFilled _ _), length_cons,
          Nat.succ_mul, add_comm, zeroFilled_add]

theorem Stores.data_eq_zero {offset : Nat} (behind : st.clusterSize ≤ offset) :
    vol.data cluster offset = 0 := by
  rw [← stores.volume_eq]
  exact if_neg fun inside => Nat.not_lt_of_le behind inside.2

/-- Zeroing the first sectors of a cluster one by one. -/
theorem zeroSectors_spec (valid : st.IsCluster cluster) {count : Nat}
    (few : count ≤ st.sectorsPerCluster) :
    ∃ vol', st.Stores ((List.range' (st.clusterToSector cluster) count).foldl
        (fun disk lba => (disk.writeBlock lba zeroSector).2) disk) vol' ∧
      vol'.fat = vol.fat ∧ (∀ other, other ≠ cluster → vol'.data other = vol.data other) ∧
      ∀ offset, vol'.data cluster offset =
        if offset < count * 512 then 0 else vol.data cluster offset := by
  induction count with
  | zero => exact ⟨vol, stores, rfl, fun _ _ => rfl, fun offset => by simp⟩
  | succ count ih =>
    obtain ⟨vol', holds, fat, others, zeros⟩ := ih (Nat.le_of_succ_le few)
    obtain ⟨after, written, stored, _⟩ := holds.writeBlock valid few zeroSector
    rw [range'_concat, foldl_append, one_mul]
    simp only [foldl_cons, written]
    refine ⟨_, stored, fat, ?_, ?_⟩
    · intro other differ
      rw [patch_of_ne _ _ differ, others other differ]
    · intro offset
      rw [patch_self]
      by_cases inside : count * 512 ≤ offset ∧ offset < count * 512 + 512
      · obtain ⟨i, rfl⟩ := Nat.exists_eq_add_of_le inside.1
        have small : i < 512 := by omega
        rw [overlay_of_mem (by simpa using small), getD_window small, if_pos (by omega)]
        rfl
      · rw [overlay_of_not_mem (by rw [length_window]; omega), zeros]
        exact if_congr (by omega) rfl rfl

theorem Stores.zeroCluster (valid : st.IsCluster cluster) :
    st.Stores (st.zeroCluster disk cluster) (vol.blank cluster) := by
  obtain ⟨vol', holds, fat, others, zeros⟩ :=
    zeroSectors_spec stores valid (le_refl st.sectorsPerCluster)
  have data : vol'.data = (vol.blank cluster).data := by
    funext other offset
    by_cases same : other = cluster
    · subst same
      rw [zeros, blank_self]
      split
      next => rfl
      next behind => exact stores.data_eq_zero (not_lt.mp behind)
    · rw [others other same, blank_of_ne _ same]
  have whole : vol' = vol.blank cluster := congrArg₂ Volume.mk fat data
  rw [← whole]
  exact holds

end

def needed (st : Fat32State) (data : List UInt8) : Nat :=
  (data.length + st.clusterSize - 1) / st.clusterSize

theorem length_le_needed (geometry : st.Geometry) (data : List UInt8) :
    data.length ≤ st.needed data * st.clusterSize := by
  have positive : 0 < st.clusterSize := mul_pos geometry.cluster_pos (by decide)
  have division := Nat.div_add_mod (data.length + st.clusterSize - 1) st.clusterSize
  have remainder := Nat.mod_lt (data.length + st.clusterSize - 1) positive
  unfold needed
  rw [mul_comm] at division
  omega

theorem needed_pos (geometry : st.Geometry) (nonempty : data ≠ []) : 0 < st.needed data := by
  have positive : 0 < st.clusterSize := mul_pos geometry.cluster_pos (by decide)
  have length := length_pos_iff.mpr nonempty
  exact Nat.div_pos (by omega) positive

/-- The clusters that the data gets when there are enough of them. -/
def granted (st : Fat32State) (vol : Volume) (data : List UInt8) : List Nat :=
  (st.freeClusters vol).take (st.needed data)

/-- The volume after data was written to the granted clusters, which now are a chain. -/
structure Chained (st : Fat32State) (vol : Volume) (data : List UInt8) (start : Nat)
    (after : Volume) : Prop where
  chain : st.Chain after start (st.granted vol data)
  fat : ∀ cluster, cluster ∉ st.granted vol data → after.fat cluster = vol.fat cluster
  elsewhere : ∀ cluster, cluster ∉ st.granted vol data → after.data cluster = vol.data cluster
  contents : st.contents after (st.granted vol data) =
    zeroFilled (st.needed data * st.clusterSize) data

/--
The outcome of writing data to new clusters: nothing for empty data, nothing
when there are too few free clusters, and otherwise a chain of the first free
clusters that holds the data.
-/
inductive Stored (st : Fat32State) (vol : Volume) (data : List UInt8) :
    Option Nat → Volume → Prop
  | empty (nothing : data = []) : Stored st vol data (some 0) vol
  | full (something : data ≠ []) (few : (st.freeClusters vol).length < st.needed data) :
      Stored st vol data none vol
  | chained {after : Volume} {start : Nat} (something : data ≠ [])
      (enough : st.needed data ≤ (st.freeClusters vol).length)
      (chained : st.Chained vol data start after) :
      Stored st vol data (some start) after

theorem mem_granted (member : cluster ∈ st.granted vol data) :
    st.IsCluster cluster ∧ vol.fat cluster = fatFree :=
  mem_freeClusters.mp (mem_of_mem_take member)

theorem Stores.writeDataClusters (stores : st.Stores disk vol) (data : List UInt8) :
    ∃ start after vol', st.writeDataClusters disk data = (start, after) ∧
      st.Stores after vol' ∧ st.Stored vol data start vol' ∧ st.KeepsCopies disk after := by
  unfold Fat32State.writeDataClusters
  by_cases nothing : data = []
  · exact ⟨some 0, disk, vol, if_pos nothing, stores, .empty nothing, .refl ..⟩
  obtain ⟨claimed, allocated, holds, keeps⟩ := stores.allocClusters (st.needed data) []
  have valid : ∀ cluster ∈ st.granted vol data, st.IsCluster cluster :=
    fun cluster member => (mem_granted member).1
  have free : ∀ cluster ∈ st.granted vol data, vol.fat cluster = fatFree :=
    fun cluster member => (mem_granted member).2
  change st.allocClusters disk ((data.length + st.sectorsPerCluster * 512 - 1) /
    (st.sectorsPerCluster * 512)) [] = (_, st.granted vol data, claimed) at allocated
  change st.Stores claimed (vol.mark 0x0FFFFFFF (st.granted vol data)) at holds
  rw [if_neg nothing]
  dsimp only
  rw [allocated]
  by_cases enough : st.needed data ≤ (st.freeClusters vol).length
  · have distinct : (st.granted vol data).Nodup := (st.nodup_freeClusters vol).take
    have length : (st.granted vol data).length = st.needed data := length_take_of_le enough
    obtain ⟨linked, linking⟩ := holds.linkClusters _ valid
    obtain ⟨after, vol', written, stored, filled, filling⟩ := writeSectors_spec linked
      (st.sectorsOf (st.granted vol data)) (sectors_valid valid) (nodup_sectorsOf distinct) data
    rw [decide_eq_true enough]
    dsimp only
    rw [flatMap_clusterSectors, written]
    have positive := needed_pos stores.geometry nothing
    cases shape : st.granted vol data with
    | nil =>
      rw [shape, length_nil] at length
      omega
    | cons first rest =>
      refine ⟨some first, after, vol', rfl, stored, .chained nothing enough ?_,
        (keeps.trans linking).trans filling⟩
      refine ⟨?_, fun cluster outside => ?_, fun cluster outside => ?_, ?_⟩
      · rw [shape] at valid distinct filled ⊢
        have marked : ∀ cluster ∈ first :: rest,
            fatEoc ≤ (vol.mark 0x0FFFFFFF (first :: rest)).fat cluster := by
          intro cluster member
          rw [mark_of_mem member]
          decide
        refine (chain_link distinct valid stores.geometry marked).congr fun cluster _ => ?_
        rw [filled.fat]
      · rw [filled.fat, link_fat_of_not_mem outside, mark_of_not_mem outside]
      · have apart : ∀ place ∈ st.sectorsOf (st.granted vol data), place.1 ≠ cluster := by
          rintro place member rfl
          exact outside (mem_sectorsOf.mp member).1
        rw [filled.others cluster apart, link_data, mark_data]
      · rw [contents, filled.written, length_sectorsOf, length, mul_assoc]
        rfl
  · rw [decide_eq_false enough]
    obtain ⟨released, releasing⟩ := holds.releaseClusters _ valid
    rw [free_mark free] at released
    exact ⟨none, _, vol, rfl, released, .full nothing (Nat.lt_of_not_le enough),
      keeps.trans releasing⟩

/-- Writing data only changes clusters that were free. -/
theorem Stored.spares {start : Option Nat} {after : Volume}
    (stored : st.Stored vol data start after) : vol.Spares after := by
  cases stored with
  | empty => exact fun _ _ => ⟨rfl, rfl⟩
  | full => exact fun _ _ => ⟨rfl, rfl⟩
  | chained _ _ chained =>
    intro cluster used
    have outside : cluster ∉ st.granted vol data := fun member => used (mem_granted member).2
    exact ⟨chained.fat cluster outside, chained.elsewhere cluster outside⟩

end Fat32State

end CantayaOS.Storage
