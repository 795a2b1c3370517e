import CantayaOS.Lib.Checked
import CantayaOS.Storage.Fat32

/-!
# Mounting the volume

The geometry is computed from fields of the boot sector that are not checked.
It describes a volume whose table covers its clusters exactly if the fields are
consistent.
-/

namespace CantayaOS.Storage

open Lib

namespace Sector

variable (sector : Sector)

/-- The little-endian number in some bytes of the sector. -/
def field (offset count : Nat) : Nat := Bytes.fromLe (Bytes.window sector offset count)

def sectorsPerFat : Nat := if field sector 22 2 ≠ 0 then field sector 22 2 else field sector 36 4

def totalSectors : Nat := if field sector 19 2 ≠ 0 then field sector 19 2 else field sector 32 4

def dataStart : Nat := field sector 14 2 + field sector 16 1 * sectorsPerFat sector

end Sector

open Sector Bytes

/-- Read the boot sector and compute the geometry, in a build with overflow checks (the dev
profile): there the subtraction panics where it would wrap in the release profile.  A division by
zero panics in both. -/
def init (disk : Disk) : Except Fault (Except String Fat32State) :=
  match disk.readBlock 0 with
  | none => .ok (.error "failed to read boot sector")
  | some sector =>
    if sector 510 ≠ 0x55 ∨ sector 511 ≠ 0xAA then .ok (.error "invalid boot signature")
    else if totalSectors sector < dataStart sector then .error .panic
    else if field sector 13 1 = 0 then .error .panic
    else .ok (.ok {
      sectorsPerCluster := field sector 13 1
      reservedSectors := field sector 14 2
      numFats := field sector 16 1
      sectorsPerFat := sectorsPerFat sector
      rootCluster := field sector 44 4
      dataStartSector := dataStart sector
      totalClusters := (totalSectors sector - dataStart sector) /
        field sector 13 1 % 2 ^ 32 })

/-- The table has an entry for every cluster, and the clusters end within the volume. -/
structure Fat32State.Consistent (st : Fat32State) (totalSectors : Nat) : Prop where
  entries : ∀ cluster < st.totalClusters + 2, cluster * 4 + 4 ≤ st.sectorsPerFat * 512
  data : ∀ cluster, 2 ≤ cluster → cluster < st.totalClusters + 2 →
    st.clusterToSector cluster + st.sectorsPerCluster ≤ totalSectors

theorem Sector.totalSectors_lt (sector : Sector) : totalSectors sector < 2 ^ 32 := by
  have short := fromLe_lt (window sector 19 2)
  have long := fromLe_lt (window sector 32 4)
  rw [length_window] at short long
  unfold totalSectors field
  split <;> omega

/-- Data clusters that are counted by dividing the data area always lie in it. -/
theorem fits_iff {st : Fat32State} {totalSectors : Nat} (ordered : st.dataStartSector ≤ totalSectors)
    (counted : st.totalClusters = (totalSectors - st.dataStartSector) / st.sectorsPerCluster) :
    st.Consistent totalSectors ↔ (st.totalClusters + 2) * 4 ≤ st.sectorsPerFat * 512 := by
  constructor
  · intro fits
    have last := fits.entries (st.totalClusters + 1) (by omega)
    omega
  · intro covered
    refine ⟨fun cluster inside => by omega, fun cluster least inside => ?_⟩
    have whole := Nat.div_mul_le_self (totalSectors - st.dataStartSector) st.sectorsPerCluster
    have before : (cluster - 2 + 1) * st.sectorsPerCluster ≤
        st.totalClusters * st.sectorsPerCluster := Nat.mul_le_mul_right _ (by omega)
    rw [← counted] at whole
    rw [add_mul] at before
    rw [Fat32State.clusterToSector]
    omega

/-- Mounting completes with a sound geometry exactly if the boot sector is refused, or has clusters
of at least one sector, a data area that starts within the volume and a table that covers it. -/
theorem init_fits_iff (disk : Disk) :
    (∃ outcome, init disk = .ok outcome ∧
        ∀ st, outcome = .ok st → st.Consistent (totalSectors disk.bytes)) ↔
      disk.readable 0 = false ∨ disk.bytes 510 ≠ 0x55 ∨ disk.bytes 511 ≠ 0xAA ∨
      field disk.bytes 13 1 ≠ 0 ∧
        dataStart disk.bytes ≤ totalSectors disk.bytes ∧
        ((totalSectors disk.bytes - dataStart disk.bytes) /
          field disk.bytes 13 1 + 2) * 4 ≤ sectorsPerFat disk.bytes * 512 := by
  unfold init Disk.readBlock
  by_cases unread : disk.readable 0 = false
  · rw [unread]
    exact iff_of_true ⟨_, rfl, nofun⟩ (.inl rfl)
  have same : (fun i => disk.bytes (0 * 512 + i)) = disk.bytes := by simp
  rw [if_pos (Bool.eq_true_of_not_eq_false unread), same]
  dsimp only
  by_cases unsigned : disk.bytes 510 ≠ 0x55 ∨ disk.bytes 511 ≠ 0xAA
  · rw [if_pos unsigned]
    exact iff_of_true ⟨_, rfl, nofun⟩ (.inr (by tauto))
  rw [if_neg unsigned]
  by_cases ordered : dataStart disk.bytes ≤ totalSectors disk.bytes
  case neg =>
    rw [if_pos (not_le.mp ordered)]
    exact iff_of_false nofun (by tauto)
  rw [if_neg (not_lt.mpr ordered)]
  by_cases empty : field disk.bytes 13 1 = 0
  · rw [if_pos empty]
    exact iff_of_false nofun (by tauto)
  rw [if_neg empty]
  have few := lt_of_le_of_lt (Nat.div_le_self
    (totalSectors disk.bytes - dataStart disk.bytes) (field disk.bytes 13 1))
    (lt_of_le_of_lt (Nat.sub_le _ _) (Sector.totalSectors_lt disk.bytes))
  rw [Nat.mod_eq_of_lt few]
  constructor
  · rintro ⟨_, ⟨⟩, fits⟩
    exact .inr (.inr (.inr ⟨empty, ordered, (fits_iff ordered rfl).mp (fits _ rfl)⟩))
  · intro consistent
    refine ⟨_, rfl, ?_⟩
    rintro _ ⟨⟩
    exact (fits_iff ordered rfl).mpr (by tauto)

/-- A boot sector of zeros with a signature divides by zero. -/
theorem init_zeroSector :
    init ⟨fun i => if i = 510 then 0x55 else if i = 511 then 0xAA else 0, fun _ => true,
      fun _ => true⟩ = .error .panic := by
  rfl

end CantayaOS.Storage
