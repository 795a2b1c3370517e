import CantayaOS.Storage.Contents

/-!
# Slots and scans of a directory

The slots of a directory are numbered through each of its clusters.  A scan is
split at a slot into what it lists before the slot, what it makes of the slot
with the long name parts pending there, and what it lists behind it.
-/

namespace CantayaOS.Storage

open Lib List Bytes Fat32State

/-- The place of a slot: its cluster and its number in the cluster. -/
abbrev Loc : Type := Nat × Nat

variable {other : Loc} {start : Nat} {bytes : List UInt8}

namespace Fat32State

/-- The places of the slots of a directory in the order of the scan. -/
def locs (st : Fat32State) (clusters : List Nat) : List Loc :=
  clusters.flatMap fun cluster =>
    (List.range (st.sectorsPerCluster * 16)).map fun index => (cluster, index)

def slotAt (st : Fat32State) (vol : Volume) (loc : Loc) : Slot where
  sector := st.clusterToSector loc.1 + loc.2 / 16
  offset := loc.2 % 16 * 32
  raw := Bytes.window (vol.data loc.1) (loc.2 * 32) 32

def slots (st : Fat32State) (vol : Volume) (clusters : List Nat) : List Slot :=
  (st.locs clusters).map (st.slotAt vol)

def IsLoc (st : Fat32State) (loc : Loc) : Prop :=
  st.IsCluster loc.1 ∧ loc.2 < st.sectorsPerCluster * 16

variable {st : Fat32State} {disk : Disk} {vol : Volume} {clusters : List Nat} {loc : Loc}

theorem mem_locs : loc ∈ st.locs clusters ↔ loc.1 ∈ clusters ∧ loc.2 < st.sectorsPerCluster * 16 :=
  mem_product.trans (and_congr_right' mem_range)

theorem nodup_locs (distinct : clusters.Nodup) : (st.locs clusters).Nodup :=
  distinct.product nodup_range

theorem locs_append (st : Fat32State) (first second : List Nat) :
    st.locs (first ++ second) = st.locs first ++ st.locs second :=
  flatMap_append

theorem isLoc_of_mem (valid : ∀ cluster ∈ clusters, st.IsCluster cluster)
    (member : loc ∈ st.locs clusters) : st.IsLoc loc := by
  obtain ⟨known, small⟩ := mem_locs.mp member
  exact ⟨valid _ known, small⟩

theorem range_mul_sixteen {α : Type} (count : Nat) (slot : Nat → α) :
    (List.range (count * 16)).map slot =
      (List.range count).flatMap fun sec => (List.range 16).map fun i => slot (sec * 16 + i) := by
  induction count with
  | zero => rfl
  | succ count ih =>
    have last : List.range (count + 1) = List.range count ++ [count] := range_succ
    rw [Nat.succ_mul, range_add, map_append, ih, last, flatMap_append]
    rfl

theorem Stores.dirSlots (stores : st.Stores disk vol)
    (valid : ∀ cluster ∈ clusters, st.IsCluster cluster) :
    st.dirSlots disk clusters = st.slots vol clusters := by
  unfold Fat32State.dirSlots slots locs
  rw [flatMap_assoc, map_flatMap]
  refine flatMap_congr fun cluster member => ?_
  rw [List.map_map, range_mul_sixteen, clusterSectors, range'_eq_map_range, flatMap_map]
  refine flatMap_congr fun sec inside => ?_
  obtain ⟨sector, read, _, windows⟩ :=
    stores.readBlock (valid cluster member) (mem_range.mp inside)
  unfold sectorSlots
  rw [read]
  refine map_congr_left fun i small => ?_
  have bound := mem_range.mp small
  have quotient : (sec * 16 + i) / 16 = sec := by omega
  have remainder : (sec * 16 + i) % 16 = i := by omega
  have start : sec * 512 + i * 32 = (sec * 16 + i) * 32 := by omega
  simp only [Function.comp_apply, slotAt, quotient, remainder, windows (i * 32) 32 (by omega), start]

theorem loc_injective (valid : st.IsLoc loc) (otherValid : st.IsLoc other)
    (sector : (st.slotAt vol loc).sector = (st.slotAt vol other).sector)
    (offset : (st.slotAt vol loc).offset = (st.slotAt vol other).offset) : loc = other := by
  obtain ⟨cluster, index⟩ := loc
  obtain ⟨cluster', index'⟩ := other
  obtain ⟨known, small⟩ := valid
  obtain ⟨known', small'⟩ := otherValid
  simp only [slotAt, clusterToSector] at sector offset
  unfold IsCluster at known known'
  have same : cluster = cluster' := by
    rcases lt_trichotomy cluster cluster' with less | equal | more
    · have step : (cluster - 2 + 1) * st.sectorsPerCluster ≤ (cluster' - 2) * st.sectorsPerCluster :=
        Nat.mul_le_mul_right _ (by omega)
      rw [Nat.succ_mul] at step
      omega
    · exact equal
    · have step : (cluster' - 2 + 1) * st.sectorsPerCluster ≤ (cluster - 2) * st.sectorsPerCluster :=
        Nat.mul_le_mul_right _ (by omega)
      rw [Nat.succ_mul] at step
      omega
  subst same
  exact Prod.ext rfl (by dsimp only; omega)

theorem slotAt_patch_of_ne (differ : other ≠ loc) (inside : start + bytes.length ≤ 32) :
    st.slotAt (vol.patch loc.1 (loc.2 * 32 + start) bytes) other = st.slotAt vol other := by
  have raw : window ((vol.patch loc.1 (loc.2 * 32 + start) bytes).data other.1)
      (other.2 * 32) 32 = window (vol.data other.1) (other.2 * 32) 32 := by
    by_cases same : other.1 = loc.1
    · have index : other.2 ≠ loc.2 := fun equal => differ (Prod.ext same equal)
      rw [same, Volume.patch_self]
      exact window_congr fun i small => overlay_of_not_mem (by omega)
    · rw [Volume.patch_of_ne _ _ same]
  exact congrArg (Slot.mk _ _) raw

theorem slotAt_patch_self (whole : bytes.length = 32) :
    st.slotAt (vol.patch loc.1 (loc.2 * 32) bytes) loc = { st.slotAt vol loc with raw := bytes } := by
  have written := window_overlay_self (vol.data loc.1) (loc.2 * 32) bytes
  rw [whole] at written
  unfold slotAt
  rw [Volume.patch_self, written]

theorem slotAt_patch_first (byte : UInt8) :
    st.slotAt (vol.patch loc.1 (loc.2 * 32) [byte]) loc =
      { st.slotAt vol loc with raw := byte :: (st.slotAt vol loc).raw.tail } := by
  have head : overlay (vol.data loc.1) (loc.2 * 32) [byte] (loc.2 * 32) = byte := by
    simp [overlay]
  have rest : ∀ i, overlay (vol.data loc.1) (loc.2 * 32) [byte] (loc.2 * 32 + (i + 1)) =
      vol.data loc.1 (loc.2 * 32 + (i + 1)) := by
    intro i
    refine overlay_of_not_mem (Or.inr ?_)
    rw [length_singleton]
    omega
  unfold slotAt window
  rw [Volume.patch_self, range_succ_eq_map]
  simp only [map_cons, List.map_map, Function.comp_def, add_zero, head, rest, tail_cons]

theorem slots_congr {other : Volume}
    (agree : ∀ cluster ∈ clusters, other.data cluster = vol.data cluster) :
    st.slots other clusters = st.slots vol clusters := by
  refine map_congr_left fun loc member => ?_
  unfold slotAt
  rw [agree loc.1 (mem_locs.mp member).1]

theorem Stores.patchSlot (stores : st.Stores disk vol) (valid : st.IsLoc loc)
    (inside : start + bytes.length ≤ 32) :
    ∃ sector after, disk.readBlock (st.slotAt vol loc).sector = some sector ∧
      window sector (st.slotAt vol loc).offset 32 = (st.slotAt vol loc).raw ∧
      disk.writeBlock (st.slotAt vol loc).sector
        (overlay sector ((st.slotAt vol loc).offset + start) bytes) = (true, after) ∧
      st.Stores after (vol.patch loc.1 (loc.2 * 32 + start) bytes) := by
  have small : loc.2 / 16 < st.sectorsPerCluster := by
    have bound := valid.2
    omega
  have fits : loc.2 % 16 * 32 + start + bytes.length ≤ 512 := by omega
  obtain ⟨sector, read, shape, windows⟩ := stores.readBlock valid.1 small
  obtain ⟨after, written, holds⟩ := stores.patchBlock valid.1 small fits
  have address : loc.2 / 16 * 512 + loc.2 % 16 * 32 = loc.2 * 32 := by omega
  rw [← add_assoc, address] at holds
  refine ⟨sector, after, read, ?_, ?_, holds⟩
  · have window := windows (loc.2 % 16 * 32) 32 (by omega)
    rw [address] at window
    exact window
  · rw [shape]
    exact written

end Fat32State

namespace Slot

variable {slot : Slot} {front middle short raw : List UInt8} {cluster size : Nat} {attr : UInt8}

/-- The fields of a slot whose bytes were put together by the driver. -/
theorem fields_of_raw (whole : front.length = 20) (gap : middle.length = 4)
    (shape : slot.raw = front ++ (toLe 4 cluster).drop 2 ++ middle ++
      (toLe 4 cluster).take 2 ++ toLe 4 size) :
    slot.cluster = cluster % 2 ^ 32 ∧ slot.size = size % 2 ^ 32 ∧
      ∀ i < 20, slot.raw.getD i 0 = front.getD i 0 := by
  have behind : ∀ i, slot.raw.getD (20 + i) 0 = ((toLe 4 cluster).drop 2 ++ (middle ++
      ((toLe 4 cluster).take 2 ++ toLe 4 size))).getD i 0 := by
    intro i
    rw [shape]
    simp only [List.append_assoc]
    rw [List.getD_append_right _ _ _ _ (by omega), whole, Nat.add_sub_cancel_left]
  have later : ∀ i, slot.raw.getD (26 + i) 0 =
      ((toLe 4 cluster).take 2 ++ toLe 4 size).getD i 0 := by
    intro i
    rw [show 26 + i = 20 + (2 + (4 + i)) by omega, behind, List.getD_append_right _ _ _ _ (by simp),
      List.getD_append_right _ _ _ _ (by simp [gap])]
    congr 1
    simp [gap]
  refine ⟨?_, ?_, fun i small => ?_⟩
  · have bytes := fromLe_toLe 4 cluster
    unfold Slot.cluster
    rw [later 0, later 1, behind 0, behind 1]
    exact bytes
  · have bytes := fromLe_toLe 4 size
    unfold Slot.size
    rw [later 2, later 3, later 4, later 5]
    exact bytes
  · rw [shape]
    simp only [List.append_assoc]
    exact List.getD_append _ _ _ _ (by omega)

theorem fields_of_rawEntry (whole : short.length = 11)
    (shape : slot.raw = rawEntry short attr cluster size) :
    slot.cluster = cluster % 2 ^ 32 ∧ slot.size = size % 2 ^ 32 ∧ slot.attr = attr ∧
      slot.first = short.getD 0 0 ∧ slot.raw.take 11 = short := by
  obtain ⟨cluster', size', front⟩ := fields_of_raw
    (show (short ++ [attr] ++ List.replicate 8 0).length = 20 by simp [whole])
    (show (List.replicate 4 0).length = 4 by simp) shape
  refine ⟨cluster', size', ?_, ?_, ?_⟩
  · refine (front 11 (by decide)).trans ?_
    rw [append_assoc, getD_append_right _ _ _ _ (by omega), whole]
    rfl
  · refine (front 0 (by decide)).trans ?_
    rw [append_assoc, getD_append _ _ _ _ (by omega)]
  · rw [shape, rawEntry]
    simp only [append_assoc]
    rw [← whole, take_left]

theorem fields_of_patch {other : Slot} (whole : other.raw.length = 32)
    (shape : slot.raw = patchClusterSize other.raw cluster size) :
    slot.cluster = cluster % 2 ^ 32 ∧ slot.size = size % 2 ^ 32 ∧ slot.attr = other.attr ∧
      slot.first = other.first ∧ slot.raw.take 11 = other.raw.take 11 := by
  have length : (other.raw.take 20).length = 20 := by simp [whole]
  obtain ⟨cluster', size', front⟩ := fields_of_raw length
    (show ((other.raw.drop 22).take 4).length = 4 by simp [whole]) shape
  have kept : ∀ i < 20, slot.raw.getD i 0 = other.raw.getD i 0 := by
    intro i small
    rw [front i small]
    simp [small]
  refine ⟨cluster', size', kept 11 (by decide), kept 0 (by decide), ?_⟩
  have taken : slot.raw.take 20 = other.raw.take 20 := by
    rw [shape, patchClusterSize]
    simp only [append_assoc]
    exact take_left' length
  have shorter := congrArg (List.take 11) taken
  rwa [take_take, take_take] at shorter

end Slot

/-! ## Scans -/

/-- The slot holds a short entry: it is in use, and neither a long name part nor a label. -/
structure Slot.IsShort (slot : Slot) : Prop where
  inUse : slot.first ≠ 0x00
  kept : slot.first ≠ 0xE5
  notLong : slot.attr ≠ attrLfn
  notLabel : slot.attr &&& attrVolumeId = 0

namespace Unicode

variable (unicode : Unicode)

/-- The name under which a short entry is listed, given the long name parts before it. -/
def nameOf (parts : List (UInt8 × List Char)) (slot : Slot) : List Char :=
  if parts ≠ [] then longName parts else unicode.decode83Name (slot.raw.take 11)

/-- The name is one of the two that the scan passes over. -/
def IsDots (name : List Char) : Prop := name = ['.'] ∨ name = ['.', '.']

instance (name : List Char) : Decidable (IsDots name) := inferInstanceAs (Decidable (_ ∨ _))

/-- The long name parts pending behind the slots; `none` when the scan has ended. -/
def pendingAfter : List (UInt8 × List Char) → List Slot → Option (List (UInt8 × List Char))
  | parts, [] => some parts
  | parts, slot :: rest =>
    match unicode.look parts slot with
    | .endOfDir => none
    | .passed parts => pendingAfter parts rest
    | .entry _ => pendingAfter [] rest

variable {unicode} {parts pending : List (UInt8 × List Char)} {first second before behind : List Slot}
  {slot : Slot} {found : DirEntry}

theorem scan_append : unicode.scan parts (first ++ second) =
    unicode.scan parts first ++
      ((unicode.pendingAfter parts first).map fun pending => unicode.scan pending second).getD [] := by
  induction first generalizing parts with
  | nil => rfl
  | cons slot rest ih =>
    simp only [cons_append, scan, pendingAfter]
    cases unicode.look parts slot with
    | endOfDir => rfl
    | passed pending => exact ih
    | entry found => exact congrArg (found :: ·) ih

theorem scan_append_of_pending (goesOn : unicode.pendingAfter parts first = some pending) :
    unicode.scan parts (first ++ second) = unicode.scan parts first ++ unicode.scan pending second := by
  rw [scan_append, goesOn]
  rfl

theorem look_of_end (ended : slot.first = 0x00) : unicode.look parts slot = .endOfDir :=
  if_pos ended

theorem look_of_deleted (deleted : slot.first = 0xE5) : unicode.look parts slot = .passed [] := by
  unfold look
  rw [if_neg (by rw [deleted]; decide), if_pos deleted]

theorem look_of_short (short : slot.IsShort) : unicode.look parts slot =
    if IsDots (unicode.nameOf parts slot) then .passed []
    else .entry (slot.entry (unicode.nameOf parts slot)) := by
  unfold look
  rw [if_neg short.inUse, if_neg short.kept, if_neg short.notLong, if_neg (not_not.mpr short.notLabel)]
  rfl

theorem look_of_not_short (unicode : Unicode) (parts : List (UInt8 × List Char))
    (inUse : slot.first ≠ 0x00) (other : ¬ slot.IsShort) :
    ∃ pending, unicode.look parts slot = .passed pending := by
  unfold look
  rw [if_neg inUse]
  by_cases deleted : slot.first = 0xE5
  · exact ⟨_, if_pos deleted⟩
  rw [if_neg deleted]
  by_cases long : slot.attr = attrLfn
  · exact ⟨_, if_pos long⟩
  · rw [if_neg long]
    by_cases label : slot.attr &&& attrVolumeId ≠ 0
    · exact ⟨_, if_pos label⟩
    · exact absurd ⟨inUse, deleted, long, not_not.mp label⟩ other

theorem look_eq_endOfDir_iff : unicode.look parts slot = .endOfDir ↔ slot.first = 0x00 := by
  refine ⟨fun sight => ?_, look_of_end⟩
  by_contra inUse
  by_cases short : slot.IsShort
  · rw [look_of_short short] at sight
    split_ifs at sight
  · obtain ⟨pending, passed⟩ := unicode.look_of_not_short parts inUse short
    rw [passed] at sight
    cases sight

theorem look_eq_entry (sight : unicode.look parts slot = .entry found) :
    slot.IsShort ∧ ¬ IsDots (unicode.nameOf parts slot) ∧
      found = slot.entry (unicode.nameOf parts slot) := by
  have inUse : slot.first ≠ 0x00 := by
    intro ended
    rw [look_of_end ended] at sight
    cases sight
  by_cases short : slot.IsShort
  · rw [look_of_short short] at sight
    split_ifs at sight with dots
    cases sight
    exact ⟨short, dots, rfl⟩
  · obtain ⟨pending, passed⟩ := unicode.look_of_not_short parts inUse short
    rw [passed] at sight
    cases sight

theorem exists_pendingAfter (noEnd : ∀ slot ∈ first, slot.first ≠ 0x00) :
    ∃ pending, unicode.pendingAfter parts first = some pending := by
  induction first generalizing parts with
  | nil => exact ⟨parts, rfl⟩
  | cons slot rest ih =>
    obtain ⟨here, later⟩ := forall_mem_cons.mp noEnd
    rw [pendingAfter]
    cases sight : unicode.look parts slot with
    | endOfDir => exact absurd (look_eq_endOfDir_iff.mp sight) here
    | passed pending => exact ih later
    | entry found => exact ih later

/-- The scan only goes on behind slots that do not end the directory. -/
theorem noEnd_of_pendingAfter (goesOn : unicode.pendingAfter parts first = some pending) :
    ∀ slot ∈ first, slot.first ≠ 0x00 := by
  induction first generalizing parts with
  | nil => nofun
  | cons slot rest ih =>
    rw [pendingAfter] at goesOn
    have inUse : slot.first ≠ 0x00 := by
      intro ended
      rw [look_of_end ended] at goesOn
      cases goesOn
    refine forall_mem_cons.mpr ⟨inUse, ?_⟩
    cases sight : unicode.look parts slot with
    | endOfDir => exact absurd (look_eq_endOfDir_iff.mp sight) inUse
    | passed parts' =>
      rw [sight] at goesOn
      exact ih goesOn
    | entry found =>
      rw [sight] at goesOn
      exact ih goesOn

theorem scan_of_zeros (zeros : ∀ slot ∈ first, slot.first = 0x00) : unicode.scan parts first = [] := by
  cases first with
  | nil => rfl
  | cons slot rest =>
    rw [scan, look_of_end (zeros slot (.head _))]

/-- Every listed entry comes from one slot, and the listing splits there. -/
theorem scan_split {slots : List Slot} {listed later : List DirEntry}
    (listing : unicode.scan parts slots = listed ++ found :: later) :
    ∃ before slot behind pending, slots = before ++ slot :: behind ∧
      unicode.scan parts before = listed ∧ unicode.pendingAfter parts before = some pending ∧
      unicode.look pending slot = .entry found ∧ unicode.scan [] behind = later := by
  induction slots generalizing parts listed with
  | nil => simp [scan] at listing
  | cons slot rest ih =>
    rw [scan] at listing
    cases sight : unicode.look parts slot with
    | endOfDir =>
      rw [sight] at listing
      simp at listing
    | passed pending =>
      rw [sight] at listing
      obtain ⟨before, slot', behind, pending', shape, listed', goesOn, look, later'⟩ := ih listing
      refine ⟨slot :: before, slot', behind, pending', congrArg (slot :: ·) shape, ?_, ?_, look,
        later'⟩
      · rw [scan, sight]
        exact listed'
      · rw [pendingAfter, sight]
        exact goesOn
    | entry first =>
      rw [sight] at listing
      cases listed with
      | nil =>
        rw [nil_append, List.cons.injEq] at listing
        obtain ⟨rfl, same⟩ := listing
        exact ⟨[], slot, rest, parts, rfl, rfl, rfl, sight, same⟩
      | cons other listed =>
        rw [cons_append, List.cons.injEq] at listing
        obtain ⟨rfl, same⟩ := listing
        obtain ⟨before, slot', behind, pending', shape, listed', goesOn, look, later'⟩ := ih same
        refine ⟨slot :: before, slot', behind, pending', congrArg (slot :: ·) shape, ?_, ?_,
          look, later'⟩
        · rw [scan, sight]
          exact congrArg (first :: ·) listed'
        · rw [pendingAfter, sight]
          exact goesOn

end Unicode

end CantayaOS.Storage
