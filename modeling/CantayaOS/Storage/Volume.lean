import CantayaOS.Storage.Fat32

/-!
# The volume behind the sectors

On a device without errors a volume is a table entry and a block of bytes for
each cluster.  Each primitive of the driver acts on this volume: writing a
table entry changes one entry in every copy of the table and no data, and
writing a sector of a cluster changes the bytes of that cluster and no entry.
-/

namespace CantayaOS.Storage

open Lib Bytes Function Nat

structure Volume where
  fat : Nat → Nat
  data : Nat → Nat → UInt8

variable {other lba copy : Nat} {bytes : List UInt8}

namespace Volume

def setFat (vol : Volume) (cluster value : Nat) : Volume :=
  { vol with fat := Function.update vol.fat cluster value }

/-- The volume with bytes written at an offset of a cluster. -/
def patch (vol : Volume) (cluster offset : Nat) (bytes : List UInt8) : Volume :=
  { vol with data := Function.update vol.data cluster (Bytes.overlay (vol.data cluster) offset bytes) }

section

variable (vol : Volume) (cluster : Nat)

@[simp] theorem setFat_self (value : Nat) : (vol.setFat cluster value).fat cluster = value :=
  update_self ..

theorem setFat_of_ne (differ : other ≠ cluster) (value : Nat) :
    (vol.setFat cluster value).fat other = vol.fat other :=
  update_of_ne differ ..

@[simp] theorem patch_fat (offset : Nat) (bytes : List UInt8) :
    (vol.patch cluster offset bytes).fat = vol.fat := rfl

@[simp] theorem patch_self (offset : Nat) (bytes : List UInt8) :
    (vol.patch cluster offset bytes).data cluster =
      overlay (vol.data cluster) offset bytes :=
  update_self ..

theorem patch_of_ne (differ : other ≠ cluster) (offset : Nat) (bytes : List UInt8) :
    (vol.patch cluster offset bytes).data other = vol.data other :=
  update_of_ne differ ..

theorem patch_append (offset : Nat) (first second : List UInt8) :
    vol.patch cluster offset (first ++ second) =
      (vol.patch cluster offset first).patch cluster (offset + first.length) second := by
  unfold patch
  rw [overlay_append]
  simp

end

end Volume

namespace Fat32State

def IsCluster (st : Fat32State) (cluster : Nat) : Prop := 2 ≤ cluster ∧ cluster < st.totalClusters + 2

instance (st : Fat32State) (cluster : Nat) : Decidable (st.IsCluster cluster) :=
  inferInstanceAs (Decidable (_ ∧ _))

def clusterSize (st : Fat32State) : Nat := st.sectorsPerCluster * 512

/-- The parameters describe a volume: the table covers the clusters and lies before the data. -/
structure Geometry (st : Fat32State) : Prop where
  cluster_pos : 0 < st.sectorsPerCluster
  fats_pos : 0 < st.numFats
  fat_covers : (st.totalClusters + 2) * 4 ≤ st.sectorsPerFat * 512
  fat_before_data : st.reservedSectors + st.numFats * st.sectorsPerFat ≤ st.dataStartSector
  few_clusters : st.totalClusters + 2 ≤ fatBad

/-- Every sector of the volume can be read and written. -/
structure ErrorFree (st : Fat32State) (disk : Disk) : Prop where
  readable : ∀ lba < st.dataStartSector + st.totalClusters * st.sectorsPerCluster, disk.readable lba
  writable : ∀ lba < st.dataStartSector + st.totalClusters * st.sectorsPerCluster, disk.writable lba

def volume (st : Fat32State) (disk : Disk) : Volume where
  fat cluster := if st.IsCluster cluster then st.fatRead disk cluster else 0
  data cluster offset :=
    if st.IsCluster cluster ∧ offset < st.clusterSize then
      disk.bytes (st.clusterToSector cluster * 512 + offset)
    else 0

structure Stores (st : Fat32State) (disk : Disk) (vol : Volume) : Prop where
  geometry : st.Geometry
  errorFree : st.ErrorFree disk
  volume_eq : st.volume disk = vol

end Fat32State

variable {disk : Disk} {start : Nat}

namespace Disk

theorem writeBlock_eq (ok : disk.writable lba) (sector : Sector) :
    disk.writeBlock lba sector = (true, { disk with
      bytes := overlay disk.bytes (lba * 512) (window sector 0 512) }) := by
  unfold writeBlock
  rw [if_pos ok]
  congr 2
  funext addr
  by_cases inside : addr / 512 = lba
  · have shape : addr = lba * 512 + addr % 512 := by omega
    rw [if_pos inside]
    conv_rhs => rw [shape]
    have small : addr % 512 < 512 := mod_lt _ (by decide)
    rw [overlay_of_mem (by simpa using small), getD_window small, zero_add]
  · rw [if_neg inside, overlay_of_not_mem]
    rw [length_window]
    omega

/-- Writing back a sector with a stretch replaced overlays just that stretch. -/
theorem writeBlock_patch (ok : disk.writable lba) (fits : start + bytes.length ≤ 512) :
    disk.writeBlock lba (overlay (fun i => disk.bytes (lba * 512 + i)) start bytes) =
      (true, { disk with bytes := overlay disk.bytes (lba * 512 + start) bytes }) := by
  rw [writeBlock_eq ok, overlay_window_overlay disk.bytes fits]

end Disk

namespace Fat32State

variable {st : Fat32State} {disk : Disk} {vol : Volume} {cluster : Nat}

/-- The byte address of a cluster's entry in a copy of the table. -/
def fatAddr (st : Fat32State) (copy cluster : Nat) : Nat :=
  (st.reservedSectors + copy * st.sectorsPerFat) * 512 + cluster * 4

def dataAddr (st : Fat32State) (cluster : Nat) : Nat := st.clusterToSector cluster * 512

section

variable (geometry : st.Geometry) (valid : st.IsCluster cluster)
include geometry valid

theorem Geometry.fatSector_lt (known : copy < st.numFats) :
    st.reservedSectors + copy * st.sectorsPerFat + cluster * 4 / 512 < st.dataStartSector := by
  have covers := geometry.fat_covers
  have before := geometry.fat_before_data
  have copies : (copy + 1) * st.sectorsPerFat ≤ st.numFats * st.sectorsPerFat :=
    Nat.mul_le_mul_right _ known
  rw [succ_mul] at copies
  unfold IsCluster at valid
  omega

theorem Geometry.cluster_lt : cluster < 2 ^ 28 := by
  have few := geometry.few_clusters
  unfold IsCluster at valid
  unfold fatBad at few
  omega

theorem Geometry.entry_lt : cluster < st.sectorsPerFat * 128 := by
  have covers := geometry.fat_covers
  unfold IsCluster at valid
  omega

end

theorem dataStart_le_dataAddr (st : Fat32State) (cluster : Nat) :
    st.dataStartSector * 512 ≤ st.dataAddr cluster :=
  Nat.mul_le_mul_right _ (Nat.le_add_right _ _)

theorem dataAddr_apart (valid : st.IsCluster cluster)
    (otherValid : st.IsCluster other) (differ : cluster ≠ other) :
    st.dataAddr cluster + st.clusterSize ≤ st.dataAddr other ∨
      st.dataAddr other + st.clusterSize ≤ st.dataAddr cluster := by
  unfold IsCluster at valid otherValid
  unfold dataAddr clusterToSector clusterSize
  rcases lt_or_gt_of_ne differ with less | more
  · have step : (cluster - 2 + 1) * st.sectorsPerCluster ≤ (other - 2) * st.sectorsPerCluster :=
      Nat.mul_le_mul_right _ (by omega)
    rw [succ_mul] at step
    omega
  · have step : (other - 2 + 1) * st.sectorsPerCluster ≤ (cluster - 2) * st.sectorsPerCluster :=
      Nat.mul_le_mul_right _ (by omega)
    rw [succ_mul] at step
    omega

theorem clusterSector_lt (valid : st.IsCluster cluster) {i : Nat}
    (small : i < st.sectorsPerCluster) :
    st.clusterToSector cluster + i <
      st.dataStartSector + st.totalClusters * st.sectorsPerCluster := by
  unfold IsCluster at valid
  have step : (cluster - 2 + 1) * st.sectorsPerCluster ≤
      st.totalClusters * st.sectorsPerCluster := Nat.mul_le_mul_right _ (by omega)
  rw [succ_mul] at step
  unfold clusterToSector
  omega

/-! ## Table entries -/

/-- A word of the device: the number that four of its bytes hold. -/
def raw (disk : Disk) (i : Nat) : Nat := Bytes.fromLe (Bytes.window disk.bytes (i * 4) 4)

def setRaw (disk : Disk) (i value : Nat) : Disk :=
  { disk with bytes := Bytes.overlay disk.bytes (i * 4) (Bytes.toLe 4 value) }

def entryWord (st : Fat32State) (copy entry : Nat) : Nat :=
  (st.reservedSectors + copy * st.sectorsPerFat) * 128 + entry

/-- An entry with its lower 28 bits replaced. -/
def renewed (existing value : Nat) : Nat := (existing &&& 0xF0000000) ||| (value &&& fatMask)

theorem raw_setRaw (disk : Disk) (k value i : Nat) :
    raw (setRaw disk k value) i = if i = k then value % 256 ^ 4 else raw disk i := by
  unfold raw setRaw
  split
  next same =>
    have written := window_overlay_self disk.bytes (k * 4) (toLe 4 value)
    rw [length_toLe] at written
    rw [same, written, fromLe_toLe]
  next differ => rw [window_overlay_apart (by rw [length_toLe]; omega)]

theorem entryWord_inj {entry entry' copy' : Nat} (inside : entry < st.sectorsPerFat * 128)
    (inside' : entry' < st.sectorsPerFat * 128)
    (same : st.entryWord copy entry = st.entryWord copy' entry') : copy = copy' ∧ entry = entry' := by
  unfold entryWord at same
  rcases lt_trichotomy copy copy' with less | rfl | more
  · have step := Nat.mul_le_mul_right st.sectorsPerFat less
    rw [succ_mul] at step
    omega
  · exact ⟨rfl, by omega⟩
  · have step := Nat.mul_le_mul_right st.sectorsPerFat more
    rw [succ_mul] at step
    omega

theorem fatAddr_eq (st : Fat32State) (copy cluster : Nat) :
    st.fatAddr copy cluster = st.entryWord copy cluster * 4 := by
  unfold fatAddr entryWord
  omega

/-- The sector of a copy of the table that holds a cluster's entry. -/
abbrev fatSector (st : Fat32State) (copy cluster : Nat) : Nat :=
  st.reservedSectors + copy * st.sectorsPerFat + cluster * 4 % 2 ^ 32 / 512

/-- The entry at an offset of its sector is a word of the device. -/
theorem window_fatSector (st : Fat32State) (disk : Disk) (copy cluster : Nat) :
    window (fun i => disk.bytes (st.fatSector copy cluster * 512 + i))
        (cluster * 4 % 2 ^ 32 % 512) 4 = window disk.bytes (st.entryWord copy (cluster % 2 ^ 30) * 4) 4 := by
  refine window_congr fun i _ => congrArg disk.bytes ?_
  unfold fatSector entryWord
  omega

theorem fatRead_eq_raw
    (readable : disk.readable (st.reservedSectors + cluster * 4 % 2 ^ 32 / 512)) :
    st.fatRead disk cluster = raw disk (st.entryWord 0 (cluster % 2 ^ 30)) % 2 ^ 28 := by
  have read := window_fatSector st disk 0 cluster
  rw [fatSector, Nat.zero_mul, add_zero] at read
  unfold fatRead Disk.readBlock
  simp only [readable, if_true, read]
  exact and_two_pow_sub_one_eq_mod _ 28

/-- Writing an entry in a copy renews one word. -/
theorem fatWriteCopies_cons_eq (readable : disk.readable (st.fatSector copy cluster))
    (writable : disk.writable (st.fatSector copy cluster)) (value : Nat) (rest : List Nat) :
    st.fatWriteCopies disk cluster value (copy :: rest) =
      st.fatWriteCopies (setRaw disk (st.entryWord copy (cluster % 2 ^ 30))
        (renewed (raw disk (st.entryWord copy (cluster % 2 ^ 30))) value)) cluster value rest := by
  have address : st.fatSector copy cluster * 512 + cluster * 4 % 2 ^ 32 % 512 =
      st.entryWord copy (cluster % 2 ^ 30) * 4 := by
    unfold fatSector entryWord
    omega
  rw [fatWriteCopies]
  simp only [Disk.readBlock, readable, if_true, window_fatSector st disk copy cluster]
  rw [Disk.writeBlock_patch writable (by rw [length_toLe]; omega), address]
  rfl

theorem ErrorFree.readBlock (errorFree : st.ErrorFree disk)
    (inside : lba < st.dataStartSector + st.totalClusters * st.sectorsPerCluster) :
    disk.readBlock lba = some fun i => disk.bytes (lba * 512 + i) := by
  unfold Disk.readBlock
  rw [if_pos (errorFree.readable lba inside)]

theorem fatRead_eq (geometry : st.Geometry) (errorFree : st.ErrorFree disk)
    (valid : st.IsCluster cluster) :
    st.fatRead disk cluster = raw disk (st.entryWord 0 cluster) % 2 ^ 28 := by
  have sector := geometry.fatSector_lt valid geometry.fats_pos
  have small := geometry.cluster_lt valid
  rw [fatRead_eq_raw (errorFree.readable _ (by omega)),
    mod_eq_of_lt (show cluster < 2 ^ 30 by omega)]

/-- The masked bits of a combined entry are the new value, and the entry fits in 32 bits. -/
theorem combined_entry (existing value : Nat) :
    ((existing &&& 0xF0000000) ||| (value &&& fatMask)) % 256 ^ 4 % 2 ^ 28 = value % 2 ^ 28 := by
  have high : ∀ i < 28, Nat.testBit 0xF0000000 i = false := by decide
  have mask : ∀ i < 28, Nat.testBit fatMask i = true := by decide
  have low : ((existing &&& 0xF0000000) ||| (value &&& fatMask)) % 2 ^ 28 = value % 2 ^ 28 := by
    apply eq_of_testBit_eq
    intro i
    rw [testBit_mod_two_pow, testBit_mod_two_pow, testBit_or]
    by_cases small : i < 28
    · simp [high i small, mask i small]
    · simp [small]
  omega

theorem ErrorFree.withBytes (errorFree : st.ErrorFree disk) (bytes : Nat → UInt8) :
    st.ErrorFree { disk with bytes := bytes } :=
  ⟨errorFree.readable, errorFree.writable⟩

/-- Writing an entry renews one word in each of the copies. -/
theorem fatWriteCopies_words (inside : cluster < st.sectorsPerFat * 128) (small : cluster < 2 ^ 30)
    (value : Nat) (copies : List Nat) (distinct : copies.Nodup) (ok : ∀ copy ∈ copies,
      disk.readable (st.fatSector copy cluster) ∧ disk.writable (st.fatSector copy cluster)) :
    ∃ after, st.fatWriteCopies disk cluster value copies = (true, after) ∧
      after.readable = disk.readable ∧ after.writable = disk.writable ∧
      ∀ i, raw after i = if ∃ copy ∈ copies, i = st.entryWord copy cluster then
        renewed (raw disk i) value % 256 ^ 4 else raw disk i := by
  induction copies generalizing disk with
  | nil => exact ⟨disk, rfl, rfl, rfl, fun i => by simp⟩
  | cons copy rest ih =>
    obtain ⟨fresh, distinct⟩ := List.nodup_cons.mp distinct
    obtain ⟨⟨readable, writable⟩, later⟩ := List.forall_mem_cons.mp ok
    obtain ⟨after, written, sameRead, sameWrite, words⟩ := @ih (setRaw disk
      (st.entryWord copy cluster) (renewed (raw disk (st.entryWord copy cluster)) value))
      distinct later
    refine ⟨after, ?_, sameRead, sameWrite, fun i => ?_⟩
    · rw [fatWriteCopies_cons_eq readable writable, mod_eq_of_lt small]
      exact written
    · rw [words, raw_setRaw]
      by_cases first : i = st.entryWord copy cluster
      · have once : ¬ ∃ other ∈ rest, i = st.entryWord other cluster := by
          rintro ⟨other, member, same⟩
          exact fresh ((entryWord_inj inside inside (first.symm.trans same)).1 ▸ member)
        rw [if_neg once, if_pos first, if_pos ⟨copy, .head _, first⟩, first]
      · simp [first]

/-- The second device is the first one with an entry renewed in every copy of the table. -/
structure Renews (st : Fat32State) (disk : Disk) (cluster value : Nat) (after : Disk) : Prop where
  readable : after.readable = disk.readable
  writable : after.writable = disk.writable
  entries : ∀ copy < st.numFats, ∀ entry < st.sectorsPerFat * 128,
    raw after (st.entryWord copy entry) = if entry = cluster then
      renewed (raw disk (st.entryWord copy entry)) value % 256 ^ 4
    else raw disk (st.entryWord copy entry)
  others : ∀ i, (∀ copy < st.numFats, i ≠ st.entryWord copy cluster) → raw after i = raw disk i

theorem fatWrite_renews (inside : cluster < st.sectorsPerFat * 128) (small : cluster < 2 ^ 30)
    (value : Nat) (ok : ∀ copy < st.numFats,
      disk.readable (st.fatSector copy cluster) ∧ disk.writable (st.fatSector copy cluster)) :
    ∃ after, st.fatWrite disk cluster value = (true, after) ∧ st.Renews disk cluster value after := by
  obtain ⟨after, written, readable, writable, words⟩ := fatWriteCopies_words inside small value
    (List.range st.numFats) List.nodup_range fun copy member => ok copy (List.mem_range.mp member)
  refine ⟨after, written, readable, writable, fun copy known entry within => ?_, fun i apart => ?_⟩
  · rw [words]
    refine if_congr ⟨?_, ?_⟩ rfl rfl
    · rintro ⟨other, _, equal⟩
      exact (entryWord_inj within inside equal).2
    · rintro rfl
      exact ⟨copy, List.mem_range.mpr known, rfl⟩
  · rw [words, if_neg]
    rintro ⟨copy, member, equal⟩
    exact apart copy (List.mem_range.mp member) equal

theorem byte_eq_raw (disk : Disk) (addr : Nat) :
    disk.bytes addr = UInt8.ofNat (raw disk (addr / 4) / 256 ^ (addr % 4)) := by
  have small : addr % 4 < 4 := mod_lt _ (by decide)
  rw [raw, ofNat_fromLe_div (by rwa [length_window]), getD_window small, div_add_mod']

/-- A word of the table lies before the data. -/
theorem Geometry.entryWord_lt (geometry : st.Geometry) (known : copy < st.numFats) {entry : Nat}
    (inside : entry < st.sectorsPerFat * 128) :
    st.entryWord copy entry < st.dataStartSector * 128 := by
  have before := geometry.fat_before_data
  have copies := Nat.mul_le_mul_right st.sectorsPerFat known
  rw [succ_mul] at copies
  unfold entryWord
  omega

def SameCopies (st : Fat32State) (disk : Disk) : Prop :=
  ∀ copy < st.numFats, ∀ entry < st.sectorsPerFat * 128,
    raw disk (st.entryWord copy entry) = raw disk (st.entryWord 0 entry)

/--
Between the two devices no entry of a copy of the table has changed but in the
lower 28 bits of data clusters, and copies that were the same still are.
-/
structure KeepsCopies (st : Fat32State) (disk after : Disk) : Prop where
  upper : ∀ copy < st.numFats, ∀ entry < st.sectorsPerFat * 128,
    raw after (st.entryWord copy entry) / 2 ^ 28 = raw disk (st.entryWord copy entry) / 2 ^ 28
  fixed : ∀ copy < st.numFats, ∀ entry < st.sectorsPerFat * 128, ¬ st.IsCluster entry →
    raw after (st.entryWord copy entry) = raw disk (st.entryWord copy entry)
  same : st.SameCopies disk → st.SameCopies after

namespace KeepsCopies

theorem refl (st : Fat32State) (disk : Disk) : st.KeepsCopies disk disk :=
  ⟨fun _ _ _ _ => rfl, fun _ _ _ _ _ => rfl, id⟩

theorem trans {middle after : Disk} (first : st.KeepsCopies disk middle)
    (second : st.KeepsCopies middle after) : st.KeepsCopies disk after where
  upper copy known entry inside :=
    (second.upper copy known entry inside).trans (first.upper copy known entry inside)
  fixed copy known entry inside other :=
    (second.fixed copy known entry inside other).trans (first.fixed copy known entry inside other)
  same copies := second.same (first.same copies)

/-- The table is the same in all copies if the lower bits of its data clusters are. -/
theorem raw_eq {after : Disk} (keeps : st.KeepsCopies disk after) (copies : st.SameCopies disk)
    (known : copy < st.numFats) {entry : Nat} (inside : entry < st.sectorsPerFat * 128)
    (lower : st.IsCluster entry →
      raw after (st.entryWord 0 entry) % 2 ^ 28 = raw disk (st.entryWord 0 entry) % 2 ^ 28) :
    raw after (st.entryWord copy entry) = raw disk (st.entryWord copy entry) := by
  by_cases valid : st.IsCluster entry
  · have upper := keeps.upper copy known entry inside
    rw [keeps.same copies copy known entry inside, copies copy known entry inside] at upper ⊢
    have lower := lower valid
    omega
  · exact keeps.fixed copy known entry inside valid

end KeepsCopies

theorem raw_lt (disk : Disk) (i : Nat) : raw disk i < 2 ^ 32 := by
  have bound := fromLe_lt (window disk.bytes (i * 4) 4)
  rw [length_window] at bound
  exact lt_of_lt_of_eq bound (by decide)

theorem renewed_div {existing : Nat} (small : existing < 2 ^ 32) (value : Nat) :
    renewed existing value % 256 ^ 4 / 2 ^ 28 = existing / 2 ^ 28 := by
  have high : ∀ i < 4, Nat.testBit 0xF0000000 (28 + i) = true := by decide
  have mask : ∀ i < 4, Nat.testBit fatMask (28 + i) = false := by decide
  have width : 256 ^ 4 = 2 ^ 32 := by decide
  apply eq_of_testBit_eq
  intro i
  rw [width, testBit_div_two_pow, testBit_div_two_pow, testBit_mod_two_pow, renewed,
    testBit_or, add_comm i]
  by_cases inside : i < 4
  · simp [high i inside, mask i inside, show 28 + i < 32 by omega]
  · have beyond : existing < 2 ^ (28 + i) :=
      small.trans_le (Nat.pow_le_pow_right (by decide) (by omega))
    simp [testBit_lt_two_pow beyond, show ¬ 28 + i < 32 by omega]

theorem Renews.keepsCopies {value : Nat} {after : Disk} (renews : st.Renews disk cluster value after)
    (geometry : st.Geometry) (valid : st.IsCluster cluster) : st.KeepsCopies disk after := by
  refine ⟨fun copy known entry inside => ?_, fun copy known entry inside other => ?_,
    fun same copy known entry inside => ?_⟩
  · rw [renews.entries copy known entry inside]
    split
    · exact renewed_div (raw_lt ..) value
    · rfl
  · rw [renews.entries copy known entry inside, if_neg fun same : entry = cluster => other (same ▸ valid)]
  · rw [renews.entries copy known entry inside, renews.entries 0 geometry.fats_pos entry inside,
      same copy known entry inside]

theorem keepsCopies_of_data (geometry : st.Geometry) {after : Disk}
    (before : ∀ addr < st.dataStartSector * 512, after.bytes addr = disk.bytes addr) :
    st.KeepsCopies disk after := by
  have kept : ∀ copy < st.numFats, ∀ entry < st.sectorsPerFat * 128,
      raw after (st.entryWord copy entry) = raw disk (st.entryWord copy entry) := by
    intro copy known entry inside
    have word := geometry.entryWord_lt known inside
    exact congrArg fromLe (window_congr fun i small => before _ (by omega))
  refine ⟨fun copy known entry inside => ?_, fun copy known entry inside _ => ?_,
    fun same copy known entry inside => ?_⟩
  · rw [kept copy known entry inside]
  · exact kept copy known entry inside
  · rw [kept copy known entry inside, kept 0 geometry.fats_pos entry inside,
      same copy known entry inside]

theorem ErrorFree.fatWrite (errorFree : st.ErrorFree disk) (geometry : st.Geometry)
    (valid : st.IsCluster cluster) (value : Nat) :
    ∃ after, st.fatWrite disk cluster value = (true, after) ∧ st.Renews disk cluster value after := by
  have small := geometry.cluster_lt valid
  refine fatWrite_renews (geometry.entry_lt valid) (by omega) value fun copy known => ?_
  have sector := geometry.fatSector_lt valid known
  have inside : st.fatSector copy cluster <
      st.dataStartSector + st.totalClusters * st.sectorsPerCluster := by
    unfold fatSector
    omega
  exact ⟨errorFree.readable _ inside, errorFree.writable _ inside⟩

/-- Writing a table entry succeeds and changes that entry of the volume. -/
theorem Stores.fatWrite (stores : st.Stores disk vol) (valid : st.IsCluster cluster) {value : Nat}
    (small : value < 2 ^ 28) :
    ∃ after, st.fatWrite disk cluster value = (true, after) ∧
      st.Stores after (vol.setFat cluster value) ∧ st.KeepsCopies disk after := by
  obtain ⟨geometry, errorFree, rfl⟩ := stores
  obtain ⟨after, written, renews⟩ := errorFree.fatWrite geometry valid value
  have afterFree : st.ErrorFree after := by
    refine ⟨?_, ?_⟩
    · rw [renews.readable]
      exact errorFree.readable
    · rw [renews.writable]
      exact errorFree.writable
  refine ⟨after, written, ⟨geometry, afterFree, ?_⟩, renews.keepsCopies geometry valid⟩
  refine congrArg₂ Volume.mk (funext fun other => ?_) (funext₂ fun other offset => ?_)
  · rw [update_apply]
    by_cases otherValid : st.IsCluster other
    · rw [if_pos otherValid, fatRead_eq geometry afterFree otherValid,
        renews.entries 0 geometry.fats_pos other (geometry.entry_lt otherValid)]
      split
      · exact (combined_entry ..).trans (mod_eq_of_lt small)
      · rw [← fatRead_eq geometry errorFree otherValid]
        exact (if_pos otherValid).symm
    · rw [if_neg otherValid, if_neg fun same : other = cluster => otherValid (same ▸ valid)]
      exact (if_neg otherValid).symm
  · refine if_congr .rfl ?_ rfl
    rw [byte_eq_raw, byte_eq_raw disk, renews.others]
    intro copy known equal
    have below := geometry.entryWord_lt known (geometry.entry_lt valid)
    have above := st.dataStart_le_dataAddr other
    rw [← equal] at below
    unfold dataAddr at above
    omega

theorem Stores.fatRead (stores : st.Stores disk vol) (valid : st.IsCluster cluster) :
    st.fatRead disk cluster = vol.fat cluster := by
  rw [← stores.volume_eq]
  exact (if_pos valid).symm

theorem volume_dataPatch (geometry : st.Geometry) (errorFree : st.ErrorFree disk)
    (valid : st.IsCluster cluster) {offset : Nat} (fits : offset + bytes.length ≤ st.clusterSize) :
    st.volume { disk with bytes := overlay disk.bytes (st.dataAddr cluster + offset) bytes } =
      (st.volume disk).patch cluster offset bytes := by
  have above := st.dataStart_le_dataAddr cluster
  have fat : (st.volume { disk with
      bytes := overlay disk.bytes (st.dataAddr cluster + offset) bytes }).fat =
        (st.volume disk).fat := by
    funext other
    unfold volume
    dsimp only
    by_cases otherValid : st.IsCluster other
    · have below := geometry.entryWord_lt geometry.fats_pos (geometry.entry_lt otherValid)
      rw [if_pos otherValid, if_pos otherValid,
        fatRead_eq geometry (errorFree.withBytes _) otherValid,
        fatRead_eq geometry errorFree otherValid]
      refine congrArg (fromLe · % 2 ^ 28) (window_congr fun i small => ?_)
      exact overlay_of_not_mem (by omega)
    · rw [if_neg otherValid, if_neg otherValid]
  have data : (st.volume { disk with
      bytes := overlay disk.bytes (st.dataAddr cluster + offset) bytes }).data =
        Function.update (st.volume disk).data cluster
          (overlay ((st.volume disk).data cluster) offset bytes) := by
    funext other i
    by_cases same : other = cluster
    · subst same
      rw [update_self]
      by_cases inside : offset ≤ i ∧ i < offset + bytes.length
      · obtain ⟨j, rfl⟩ := Nat.exists_eq_add_of_le inside.1
        have short : j < bytes.length := by omega
        have within : offset + j < st.clusterSize := by omega
        rw [overlay_of_mem short]
        simp only [volume, valid, within, and_self, if_true]
        have address : st.clusterToSector other * 512 + (offset + j) =
            st.dataAddr other + offset + j := by
          unfold dataAddr
          omega
        rw [address, overlay_of_mem short]
      · rw [overlay_of_not_mem (by omega)]
        unfold volume
        refine if_congr .rfl (overlay_of_not_mem ?_) rfl
        unfold dataAddr
        omega
    · rw [update_of_ne same]
      by_cases otherValid : st.IsCluster other ∧ i < st.clusterSize
      · have apart := dataAddr_apart valid otherValid.1 (Ne.symm same)
        simp only [volume, otherValid]
        refine overlay_of_not_mem ?_
        unfold dataAddr at apart ⊢
        omega
      · simp [volume, otherValid]
  exact congrArg₂ Volume.mk fat data

variable {sec : Nat}

section

variable (stores : st.Stores disk vol) (valid : st.IsCluster cluster)
  (small : sec < st.sectorsPerCluster)
include stores valid small

theorem Stores.readBlock :
    ∃ sector, disk.readBlock (st.clusterToSector cluster + sec) = some sector ∧
      (sector = fun i => disk.bytes ((st.clusterToSector cluster + sec) * 512 + i)) ∧
      ∀ start len, start + len ≤ 512 →
        window sector start len = window (vol.data cluster) (sec * 512 + start) len := by
  refine ⟨_, stores.errorFree.readBlock (clusterSector_lt valid small), rfl, ?_⟩
  intro start len fits
  rw [← stores.volume_eq]
  refine window_congr fun i inside => ?_
  have within : sec * 512 + start + i < st.clusterSize := by
    unfold clusterSize
    omega
  simp only [volume, valid, within]
  exact congrArg disk.bytes (by omega)

theorem Stores.writeBlock (sector : Sector) :
    ∃ after, disk.writeBlock (st.clusterToSector cluster + sec) sector = (true, after) ∧
      st.Stores after (vol.patch cluster (sec * 512) (window sector 0 512)) ∧
      st.KeepsCopies disk after := by
  have address : (st.clusterToSector cluster + sec) * 512 = st.dataAddr cluster + sec * 512 := by
    unfold dataAddr
    omega
  refine ⟨_, Disk.writeBlock_eq (stores.errorFree.writable _ (clusterSector_lt valid small)) sector,
    ⟨stores.geometry, stores.errorFree.withBytes _, ?_⟩, ?_⟩
  · rw [address, volume_dataPatch stores.geometry stores.errorFree valid, stores.volume_eq]
    rw [length_window]
    unfold clusterSize
    omega
  · have above := st.dataStart_le_dataAddr cluster
    exact keepsCopies_of_data stores.geometry fun addr below => overlay_of_not_mem (by omega)

theorem Stores.patchBlock (fits : start + bytes.length ≤ 512) :
    ∃ after, disk.writeBlock (st.clusterToSector cluster + sec) (overlay
        (fun i => disk.bytes ((st.clusterToSector cluster + sec) * 512 + i)) start bytes) =
          (true, after) ∧
      st.Stores after (vol.patch cluster (sec * 512 + start) bytes) := by
  have address : (st.clusterToSector cluster + sec) * 512 + start =
      st.dataAddr cluster + (sec * 512 + start) := by
    unfold dataAddr
    omega
  refine ⟨_, Disk.writeBlock_patch (stores.errorFree.writable _ (clusterSector_lt valid small)) fits,
    stores.geometry, stores.errorFree.withBytes _, ?_⟩
  rw [address, volume_dataPatch stores.geometry stores.errorFree valid, stores.volume_eq]
  unfold clusterSize
  omega

end

end Fat32State

end CantayaOS.Storage
