import CantayaOS.Storage.Reach

/-!
# How listings change

A directory is listed slot by slot, so changing one slot changes the listing
there and, when the slot becomes the end of the directory, behind it.  The
operations change one slot: they rewrite or delete the one that holds the
name, or they fill the first vacant one.
-/

namespace CantayaOS.Storage

open Lib Unicode List

/-- What is listed from a slot on, given what is listed behind it. -/
def Sight.reveal : Sight → List DirEntry → List DirEntry
  | endOfDir, _ => []
  | passed _, behind => behind
  | entry found, behind => found :: behind

/-- Behind the end of a directory there are no further entries. -/
def EndsClean (slots : List Slot) : Prop :=
  slots.Pairwise fun slot later => slot.first = 0x00 → later.first = 0x00

instance (slots : List Slot) : Decidable (EndsClean slots) :=
  inferInstanceAs (Decidable (slots.Pairwise _))

def usedSlots (slots : List Slot) : List Slot := slots.takeWhile fun slot => !slot.isVacant

def slotsBehind (slots : List Slot) : List Slot :=
  (slots.dropWhile fun slot => !slot.isVacant).drop 1

/-- The long name parts that the scan has collected at the first vacant slot. -/
def Unicode.partsBefore (unicode : Unicode) (slots : List Slot) : List (UInt8 × List Char) :=
  (unicode.pendingAfter [] (usedSlots slots)).getD []

/-- The slot is vacant or holds a short entry, so it leaves no long name parts pending. -/
def Slot.Plain (slot : Slot) : Prop := slot.isVacant = true ∨ slot.IsShort

namespace Slot

variable {slot : Slot} {unicode : Unicode} {pending : List (UInt8 × List Char)}

theorem isVacant_iff : slot.isVacant = true ↔ slot.first = 0x00 ∨ slot.first = 0xE5 :=
  decide_eq_true_iff

theorem first_ne_zero (used : slot.isVacant = false) : slot.first ≠ 0x00 := by
  intro ended
  cases used.symm.trans (isVacant_iff.mpr (.inl ended))

theorem Plain.scan_cons (plain : slot.Plain) (behind : List Slot) :
    unicode.scan pending (slot :: behind) =
      (unicode.look pending slot).reveal (unicode.scan [] behind) := by
  rw [Unicode.scan]
  rcases plain with vacant | short
  · rcases isVacant_iff.mp vacant with ended | deleted
    · rw [look_of_end ended]
      rfl
    · rw [look_of_deleted deleted]
      rfl
  · rw [look_of_short short]
    split_ifs <;> rfl

theorem plain_of_attr {isDir : Bool} (attr : slot.attr = Fat32State.entryAttr isDir) : slot.Plain := by
  by_cases vacant : slot.isVacant = true
  · exact .inl vacant
  · obtain ⟨inUse, kept⟩ := not_or.mp (mt isVacant_iff.mpr vacant)
    refine .inr ⟨inUse, kept, ?_, ?_⟩
    · rw [attr]; cases isDir <;> decide
    · rw [attr]; cases isDir <;> decide

end Slot

section FirstVacant

variable {unicode : Unicode} {slots front : List Slot} {slot : Slot}

theorem usedSlots_of_vacant (used : ∀ other ∈ front, other.isVacant = false)
    (vacant : slot.isVacant = true) (back : List Slot) :
    usedSlots (front ++ slot :: back) = front ∧ slotsBehind (front ++ slot :: back) = back := by
  have passed : ∀ other ∈ front, (!other.isVacant) = true := fun other member => by
    rw [used other member]
    rfl
  unfold usedSlots slotsBehind
  rw [takeWhile_append_of_pos passed, dropWhile_append_of_pos passed,
    takeWhile_cons_of_neg (by simp [vacant]), dropWhile_cons_of_neg (by simp [vacant])]
  exact ⟨append_nil front, rfl⟩

theorem usedSlots_of_full (used : ∀ other ∈ slots, other.isVacant = false) :
    usedSlots slots = slots ∧ slotsBehind slots = [] := by
  have passed : ∀ other ∈ slots, (!other.isVacant) = true := fun other member => by
    rw [used other member]
    rfl
  unfold usedSlots slotsBehind
  rw [takeWhile_eq_self_iff.mpr passed, dropWhile_eq_nil_iff.mpr passed]
  exact ⟨rfl, rfl⟩

theorem pendingAfter_usedSlots (unicode : Unicode) (slots : List Slot) :
    unicode.pendingAfter [] (usedSlots slots) = some (unicode.partsBefore slots) := by
  have noEnd : ∀ slot ∈ usedSlots slots, slot.first ≠ 0x00 := by
    intro slot member
    have used := mem_takeWhile_imp member
    exact Slot.first_ne_zero (Bool.eq_false_of_not_eq_true' used)
  obtain ⟨pending, pends⟩ : ∃ pending, unicode.pendingAfter [] (usedSlots slots) = some pending :=
    exists_pendingAfter noEnd
  unfold partsBefore
  rw [pends]
  rfl

/-- A directory lists what is before its first vacant slot and what is behind it. -/
theorem scan_around_vacant (clean : EndsClean slots) (parts : List (UInt8 × List Char)) :
    unicode.scan parts slots =
      unicode.scan parts (usedSlots slots) ++ unicode.scan [] (slotsBehind slots) := by
  induction slots generalizing parts with
  | nil => rfl
  | cons slot rest ih =>
    obtain ⟨later, clean'⟩ := pairwise_cons.mp clean
    by_cases vacant : slot.isVacant = true
    · obtain ⟨used, behind⟩ := usedSlots_of_vacant
        (show ∀ other ∈ ([] : List Slot), other.isVacant = false from nofun) vacant rest
      rw [nil_append] at used behind
      rw [used, behind, Slot.Plain.scan_cons (.inl vacant)]
      rcases Slot.isVacant_iff.mp vacant with ended | deleted
      · rw [look_of_end ended, scan_of_zeros fun other member =>
          later other member ended]
        rfl
      · rw [look_of_deleted deleted]
        rfl
    · have used : usedSlots (slot :: rest) = slot :: usedSlots rest :=
        takeWhile_cons_of_pos (by simp [vacant])
      have behind : slotsBehind (slot :: rest) = slotsBehind rest :=
        congrArg (List.drop 1) (dropWhile_cons_of_pos (by simp [vacant]))
      rw [used, behind, Unicode.scan, Unicode.scan]
      cases sight : unicode.look parts slot with
      | endOfDir =>
        rw [look_eq_endOfDir_iff] at sight
        exact absurd (Slot.isVacant_iff.mpr (.inl sight)) vacant
      | passed pending => exact ih clean' pending
      | entry found => exact congrArg (found :: ·) (ih clean' [])

end FirstVacant

namespace Fat32State

variable {st : Fat32State} {unicode : Unicode} {vol vol' : Volume}
  {clusters : List Nat} {start : Nat} {before behind : List Loc} {loc : Loc}
  {pending : List (UInt8 × List Char)} {entry : DirEntry}

section

variable (split : st.SplitAt unicode vol clusters before loc behind pending)
include split

theorem SplitAt.revised (distinct : clusters.Nodup)
    (agree : ∀ other ∈ st.locs clusters, other ≠ loc → st.slotAt vol' other = st.slotAt vol other) :
    st.SplitAt unicode vol' clusters before loc behind pending ∧
      before.map (st.slotAt vol') = before.map (st.slotAt vol) ∧
      behind.map (st.slotAt vol') = behind.map (st.slotAt vol) := by
  have places : (st.locs clusters).Nodup := nodup_locs distinct
  rw [split.shape] at places agree
  have apart := disjoint_of_nodup_append places
  have front : before.map (st.slotAt vol') = before.map (st.slotAt vol) := by
    refine map_congr_left fun other member => agree other (mem_append_left _ member) ?_
    rintro rfl
    exact apart member (.head _)
  have back : behind.map (st.slotAt vol') = behind.map (st.slotAt vol) := by
    refine map_congr_left fun other member => agree other
      (mem_append_right _ (mem_cons_of_mem _ member)) ?_
    rintro rfl
    exact (nodup_cons.mp (places.sublist (sublist_append_right _ _))).1 member
  exact ⟨⟨split.shape, by rw [front, split.pends]⟩, front, back⟩

theorem SplitAt.listing_plain (plain : (st.slotAt vol loc).Plain) :
    st.listing unicode vol clusters = unicode.scan [] (before.map (st.slotAt vol)) ++
      (unicode.look pending (st.slotAt vol loc)).reveal
        (unicode.scan [] (behind.map (st.slotAt vol))) := by
  rw [split.listing_eq, plain.scan_cons]

theorem SplitAt.clean_revised (distinct : clusters.Nodup)
    (agree : ∀ other ∈ st.locs clusters, other ≠ loc → st.slotAt vol' other = st.slotAt vol other)
    (clean : EndsClean (st.slots vol clusters)) (inUse : (st.slotAt vol' loc).first ≠ 0x00)
    (goesOn : ∀ slot ∈ before.map (st.slotAt vol), slot.first ≠ 0x00) :
    EndsClean (st.slots vol' clusters) := by
  obtain ⟨split', front, back⟩ := split.revised distinct agree
  unfold EndsClean slots at clean ⊢
  rw [split.shape, map_append, map_cons, pairwise_append, pairwise_cons] at clean ⊢
  rw [front, back]
  obtain ⟨first, ⟨_, second⟩, _⟩ := clean
  refine ⟨first, ⟨fun slot _ ended => absurd ended inUse, second⟩, fun slot member _ _ ended => ?_⟩
  exact absurd ended (goesOn slot member)

end

/-! ## Entering a slot -/

/-- An entry was written to a slot that listed nothing before. -/
structure EntersAt (st : Fat32State) (unicode : Unicode) (vol : Volume) (start : Nat)
    (clusters : List Nat) (raw : List UInt8) (vol' : Volume) (loc : Loc) (clusters' : List Nat) :
    Prop where
  chain : st.Chain vol' start clusters'
  member : loc ∈ st.locs clusters'
  located : st.IsLoc loc ∧ (loc.1 ∈ clusters ∨ vol.fat loc.1 = fatFree)
  raw_eq : (st.slotAt vol' loc).raw = raw
  fresh : ∀ entry ∈ st.listing unicode vol clusters,
    entry.place ≠ ((st.slotAt vol' loc).sector, (st.slotAt vol' loc).offset)
  listing : st.listing unicode vol' clusters' =
    unicode.scan [] (usedSlots (st.slots vol clusters)) ++
      (unicode.look (unicode.partsBefore (st.slots vol clusters)) (st.slotAt vol' loc)).reveal
        (unicode.scan [] (slotsBehind (st.slots vol clusters)))
  clean : EndsClean (st.slots vol clusters) → (st.slotAt vol' loc).first ≠ 0x00 →
    EndsClean (st.slots vol' clusters')

theorem place_ne_of_not_short (listed : entry ∈ st.listing unicode vol clusters)
    (valid : ∀ cluster ∈ clusters, st.IsCluster cluster) (isLoc : st.IsLoc loc)
    (unlisted : loc ∈ st.locs clusters → ¬ (st.slotAt vol loc).IsShort) :
    entry.place ≠ ((st.slotAt vol loc).sector, (st.slotAt vol loc).offset) := by
  obtain ⟨other, found⟩ := exists_at listed
  intro same
  rw [found.place_eq] at same
  obtain ⟨sector, offset⟩ := Prod.mk.inj same
  cases loc_injective (isLoc_of_mem valid found.mem) isLoc sector offset
  obtain ⟨_, _, _, _, look⟩ := found.split
  exact unlisted found.mem (look_eq_entry look).1

theorem not_isShort_of_vacant {slot : Slot} (vacant : slot.isVacant = true) : ¬ slot.IsShort :=
  fun short => (Slot.isVacant_iff.mp vacant).elim short.inUse short.kept

section

variable {raw : List UInt8} (chain : st.Chain vol start clusters) (whole : raw.length = 32)
  (plain : ∀ slot : Slot, slot.raw = raw → slot.Plain)
include chain whole plain

/-- The first vacant slot is filled. -/
theorem entersAt_slot (shape : st.locs clusters = before ++ loc :: behind)
    (used : ∀ other ∈ before, (st.slotAt vol other).isVacant = false)
    (vacant : (st.slotAt vol loc).isVacant = true) :
    st.EntersAt unicode vol start clusters raw (vol.patch loc.1 (loc.2 * 32) raw) loc clusters := by
  have member : loc ∈ st.locs clusters := by
    rw [shape]
    exact mem_append_right _ (.head _)
  have isLoc := isLoc_of_mem chain.valid member
  have put : st.slotAt (vol.patch loc.1 (loc.2 * 32) raw) loc =
      { st.slotAt vol loc with raw := raw } := slotAt_patch_self whole
  have agree : ∀ other ∈ st.locs clusters, other ≠ loc →
      st.slotAt (vol.patch loc.1 (loc.2 * 32) raw) other = st.slotAt vol other :=
    fun other _ differ => slotAt_patch_of_ne differ (show 0 + raw.length ≤ 32 by omega)
  have used' : ∀ slot ∈ before.map (st.slotAt vol), slot.isVacant = false :=
    forall_mem_map.mpr used
  obtain ⟨front, back⟩ := usedSlots_of_vacant used' vacant (behind.map (st.slotAt vol))
  rw [← map_cons, ← map_append, ← shape] at front back
  have split : st.SplitAt unicode vol clusters before loc behind
      (unicode.partsBefore (st.slots vol clusters)) :=
    ⟨shape, by rw [← front]; exact pendingAfter_usedSlots unicode _⟩
  refine ⟨chain.congr fun _ _ => rfl, member,
    ⟨isLoc, .inl (mem_locs.mp member).1⟩, by rw [put], ?_, ?_, ?_⟩
  · intro entry listed
    rw [put]
    exact place_ne_of_not_short listed chain.valid isLoc fun _ => not_isShort_of_vacant vacant
  · obtain ⟨split', before_eq, behind_eq⟩ := split.revised chain.nodup agree
    rw [split'.listing_plain (plain _ (by rw [put])), before_eq, behind_eq, slots, front, back]
  · intro clean inUse
    exact split.clean_revised chain.nodup agree clean inUse fun slot inFront =>
      Slot.first_ne_zero (used' slot inFront)

omit chain plain in
/-- The slots of a directory that a blank cluster with one entry is appended to. -/
theorem slots_extended {cluster : Nat} (geometry : st.Geometry) (outside : cluster ∉ clusters)
    (zeros : vol'.data cluster = fun _ => 0)
    (kept : ∀ other, other ≠ cluster → vol'.data other = vol.data other) :
    ∃ others : List Slot, (∀ slot ∈ others, slot.first = 0x00) ∧
      st.slots (vol'.patch cluster 0 raw) (clusters ++ [cluster]) =
        st.slots vol clusters ++ st.slotAt (vol'.patch cluster 0 raw) (cluster, 0) :: others := by
  obtain ⟨rest, places, -⟩ := locs_singleton geometry cluster
  have distinct : (st.locs [cluster]).Nodup := nodup_locs (nodup_singleton cluster)
  have same : (st.locs clusters).map (st.slotAt (vol'.patch cluster 0 raw)) =
      st.slots vol clusters := by
    refine map_congr_left fun other member => slotAt_congr ?_
    have differ : other.1 ≠ cluster := fun equal => outside (equal ▸ (mem_locs.mp member).1)
    rw [Volume.patch_of_ne _ _ differ, kept _ differ]
  refine ⟨((cluster, 1) :: rest).map (st.slotAt (vol'.patch cluster 0 raw)),
    forall_mem_map.mpr fun other member => ?_, ?_⟩
  · have inside : other ∈ st.locs [cluster] := places ▸ mem_cons_of_mem _ member
    have differ : other ≠ (cluster, 0) := by
      rintro rfl
      exact (nodup_cons.mp (places ▸ distinct)).1 member
    refine (congrArg Slot.first (slotAt_patch_of_ne differ
      (show 0 + raw.length ≤ 32 by omega))).trans (first_of_zeros ?_)
    rw [mem_singleton.mp (mem_locs.mp inside).1, zeros]
  · rw [slots, locs_append, map_append, same, places, map_cons]

/-- All slots are in use, and the directory gets a further cluster. -/
theorem entersAt_extended {cluster : Nat} (geometry : st.Geometry)
    (used : ∀ other ∈ st.locs clusters, (st.slotAt vol other).isVacant = false)
    (valid : st.IsCluster cluster) (unused : vol.fat cluster = fatFree)
    (longer : st.Chain vol' start (clusters ++ [cluster]))
    (zeros : vol'.data cluster = fun _ => 0)
    (kept : ∀ other, other ≠ cluster → vol'.data other = vol.data other) :
    st.EntersAt unicode vol start clusters raw (vol'.patch cluster 0 raw) (cluster, 0)
      (clusters ++ [cluster]) := by
  have outside : cluster ∉ clusters := fun member => chain.fat_ne_free member unused
  obtain ⟨others, blank, slots_eq⟩ := slots_extended whole geometry outside zeros kept
  have isRaw : (st.slotAt (vol'.patch cluster 0 raw) (cluster, 0)).raw = raw :=
    congrArg Slot.raw (slotAt_patch_self whole)
  have used' : ∀ slot ∈ st.slots vol clusters, slot.isVacant = false := forall_mem_map.mpr used
  have goesOn (slot : Slot) (member : slot ∈ st.slots vol clusters) : slot.first ≠ 0x00 :=
    Slot.first_ne_zero (used' slot member)
  obtain ⟨all, noGap⟩ := usedSlots_of_full used'
  have pends := pendingAfter_usedSlots unicode (st.slots vol clusters)
  rw [all] at pends
  have isLoc : st.IsLoc (cluster, 0) := ⟨valid, mul_pos geometry.cluster_pos (by decide)⟩
  refine ⟨longer.congr fun _ _ => rfl, mem_locs.mpr ⟨by simp, isLoc.2⟩, ⟨isLoc, .inr unused⟩,
    isRaw, ?_, ?_, ?_⟩
  · intro entry listed
    have differ := place_ne_of_not_short listed chain.valid isLoc fun member =>
      absurd (mem_locs.mp member).1 outside
    exact differ
  · unfold listing
    rw [slots_eq, scan_append_of_pending pends, all, noGap, (plain _ isRaw).scan_cons,
      scan_of_zeros blank]
    rfl
  · intro _ inUse
    unfold EndsClean
    rw [slots_eq, pairwise_append, pairwise_cons]
    refine ⟨pairwise_of_forall_mem_list ?_, ⟨?_, pairwise_of_forall_mem_list ?_⟩, ?_⟩
    · exact fun slot member _ _ ended => absurd ended (goesOn slot member)
    · exact fun slot _ ended => absurd ended inUse
    · exact fun _ _ later member _ => blank later member
    · exact fun slot member _ _ ended => absurd ended (goesOn slot member)

theorem Entered.exists_entersAt (entered : st.Entered vol clusters raw true vol')
    (geometry : st.Geometry) :
    ∃ loc clusters', st.EntersAt unicode vol start clusters raw vol' loc clusters' := by
  cases entered with
  | slot shape used vacant => exact ⟨_, _, entersAt_slot chain whole plain shape used vacant⟩
  | extended shape used free =>
    obtain ⟨valid, unused⟩ := mem_freeClusters.mp (free ▸ mem_cons_self)
    have longer := (shape ▸ chain).extend geometry valid unused
    rw [← shape] at longer
    exact ⟨_, _, entersAt_extended chain whole plain geometry used valid unused longer
      (Volume.blank_self ..) fun _ differ => Volume.blank_of_ne _ differ⟩

end

end Fat32State

end CantayaOS.Storage
