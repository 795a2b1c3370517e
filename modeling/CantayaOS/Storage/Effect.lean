import CantayaOS.Storage.Listing

/-!
# What a call does to the listings

A call on a directory that ends clean either fails and leaves every cluster in
use alone, or it revises one slot of that directory: the slot of the named
entry, or one that listed nothing before.
-/

namespace CantayaOS.Storage

open Lib Slot Unicode Volume List

/-- Whether a call creates a directory or a file, if it creates something. -/
def FileCall.makes : FileCall → Option Bool
  | writeFile _ _ _ => some false
  | mkdir _ _ => some true
  | delete _ _ => none

/-- The name under which an entry is listed behind the long name parts. -/
def Unicode.listedAs (unicode : Unicode) (parts : List (UInt8 × List Char)) (short : List UInt8) :
    List Char :=
  if parts ≠ [] then longName parts else unicode.decode83Name short

namespace Fat32State

def placeOf (st : Fat32State) (loc : Loc) : Nat × Nat :=
  (st.clusterToSector loc.1 + loc.2 / 16, loc.2 % 16 * 32)

/-- One slot of a directory was revised, and nothing else that is in use. -/
structure Revision (st : Fat32State) (unicode : Unicode) (vol : Volume) (table : Table)
    (start : Nat) (clusters : List Nat) (vol' : Volume) (loc : Loc) (front : List DirEntry)
    (former : Option DirEntry) (sight : Sight) (behind : List DirEntry) : Prop where
  located : st.IsLoc loc ∧ (loc.1 ∈ clusters ∨ vol.fat loc.1 = fatFree)
  before : st.listing unicode vol clusters = front ++ former.toList ++ behind
  after : ∃ clusters', st.Chain vol' start clusters' ∧
    st.listing unicode vol' clusters' = front ++ sight.reveal behind ∧
    (EndsClean (st.slots vol clusters) → sight ≠ .endOfDir → EndsClean (st.slots vol' clusters'))
  former_place : ∀ entry ∈ former, entry.place = st.placeOf loc
  sight_place : ∀ entry, sight = .entry entry → entry.place = st.placeOf loc
  others : ∀ entry ∈ front ++ behind, entry.place ≠ st.placeOf loc
  confined : ∃ old, (old = [] ∨ ∃ isDir, table (.slot loc) = some ⟨old, isDir⟩) ∧
    ∀ cluster, vol.fat cluster ≠ fatFree → cluster ∉ clusters → cluster ∉ old →
      vol'.fat cluster = vol.fat cluster ∧ vol'.data cluster = vol.data cluster

inductive Effect (st : Fat32State) (unicode : Unicode) (vol : Volume) (table : Table) (start : Nat)
    (clusters : List Nat) : FileCall → Bool → Volume → Prop
  | failed {call : FileCall} {vol' : Volume} (spares : vol.Spares vol') :
      Effect st unicode vol table start clusters call false vol'
  | overwritten {dir : Nat} {name : List Char} {data : List UInt8} {vol' : Volume} {loc : Loc}
      {front behind : List DirEntry} {entry entry' : DirEntry}
      (found : (st.listing unicode vol clusters).find?
        (fun entry => unicode.sameName entry.name name) = some entry)
      (revision : st.Revision unicode vol table start clusters vol' loc front (some entry)
        (.entry entry') behind)
      (kept : entry'.name = entry.name ∧ entry'.isDir = entry.isDir) :
      Effect st unicode vol table start clusters (.writeFile dir name data) true vol'
  | created {call : FileCall} {isDir : Bool} {short : List UInt8} {slot : Slot} {cluster size : Nat}
      {vol' : Volume} {loc : Loc} (makes : call.makes = some isDir)
      (absent : st.Absent unicode vol clusters call.name)
      (encoded : unicode.encode83Name call.name = some short)
      (raw : slot.raw = rawEntry short (entryAttr isDir) cluster size)
      (inside : isDir = true → ∃ own, st.Chain vol' slot.cluster own ∧
        st.listing unicode vol' own = [] ∧ EndsClean (st.slots vol' own))
      (revision : st.Revision unicode vol table start clusters vol' loc
        (unicode.scan [] (usedSlots (st.slots vol clusters))) none
        (unicode.look (unicode.partsBefore (st.slots vol clusters)) slot)
        (unicode.scan [] (slotsBehind (st.slots vol clusters)))) :
      Effect st unicode vol table start clusters call true vol'
  | deleted {dir : Nat} {name : List Char} {vol' : Volume} {loc : Loc}
      {front behind : List DirEntry} {entry : DirEntry}
      (found : (st.listing unicode vol clusters).find?
        (fun entry => unicode.sameName entry.name name) = some entry)
      (empty : entry.isDir = true → ∃ old, st.Chain vol entry.cluster old ∧
        st.listing unicode vol old = [])
      (revision : st.Revision unicode vol table start clusters vol' loc front (some entry)
        (.passed []) behind) :
      Effect st unicode vol table start clusters (.delete dir name) true vol'

variable {st : Fat32State} {unicode : Unicode} {vol vol' : Volume} {table : Table}
  {owner : Owner} {clusters : List Nat} {start : Nat} {before behind : List Loc} {loc : Loc}
  {pending : List (UInt8 × List Char)} {entry : DirEntry} {slot : Slot} {short : List UInt8}
  {isDir : Bool} {cluster size : Nat}

section

variable (whole : short.length = 11)
  (raw : slot.raw = rawEntry short (entryAttr isDir) cluster size)
include whole raw

/-- What the scan makes of a slot that holds a fresh entry. -/
theorem look_of_rawEntry :
    unicode.look pending slot =
      if short.getD 0 0 = 0x00 then .endOfDir
      else if short.getD 0 0 = 0xE5 ∨ Unicode.IsDots (unicode.listedAs pending short) then .passed []
      else .entry (slot.entry (unicode.listedAs pending short)) := by
  obtain ⟨_, _, attr, first, taken⟩ := fields_of_rawEntry whole raw
  have name : unicode.nameOf pending slot = unicode.listedAs pending short := by
    unfold nameOf listedAs
    rw [taken]
  rw [← first]
  by_cases ended : slot.first = 0x00
  · rw [if_pos ended, look_of_end ended]
  rw [if_neg ended]
  by_cases deleted : slot.first = 0xE5
  · rw [if_pos (.inl deleted), look_of_deleted deleted]
  have isShort := (plain_of_attr attr).resolve_left
    fun vacant => (isVacant_iff.mp vacant).elim ended deleted
  rw [look_of_short isShort, name]
  by_cases dots : Unicode.IsDots (unicode.listedAs pending short)
  · rw [if_pos dots, if_pos (.inr dots)]
  · rw [if_neg dots, if_neg (not_or.mpr ⟨deleted, dots⟩)]

theorem look_rawEntry_eq_end : unicode.look pending slot = .endOfDir ↔ short.getD 0 0 = 0x00 := by
  rw [look_eq_endOfDir_iff, (fields_of_rawEntry whole raw).2.2.2.1]

end

/-- An entry whose cluster and size fields are patched is listed under the same name. -/
theorem look_of_patch {other : Slot} (whole : other.raw.length = 32)
    (raw : slot.raw = patchClusterSize other.raw cluster size)
    (place : slot.sector = other.sector ∧ slot.offset = other.offset)
    (look : unicode.look pending other = .entry entry) :
    unicode.look pending slot =
      .entry { entry with cluster := cluster % 2 ^ 32, size := size % 2 ^ 32 } := by
  obtain ⟨cluster', size', attr, first, taken⟩ := fields_of_patch whole raw
  obtain ⟨isShort, notDots, rfl⟩ := look_eq_entry look
  have name : unicode.nameOf pending slot = unicode.nameOf pending other := by
    unfold nameOf
    rw [taken]
  have short : slot.IsShort :=
    ⟨first ▸ isShort.inUse, first ▸ isShort.kept, attr ▸ isShort.notLong, attr ▸ isShort.notLabel⟩
  rw [look_of_short short, name, if_neg notDots]
  unfold Slot.entry Slot.isDir
  rw [cluster', size', attr, place.1, place.2]

theorem placeOf_injective {other : Loc} (valid : st.IsLoc loc) (otherValid : st.IsLoc other)
    (same : st.placeOf loc = st.placeOf other) : loc = other := by
  obtain ⟨sector, offset⟩ := Prod.mk.inj same
  let nothing : Volume := ⟨fun _ => 0, fun _ _ => 0⟩
  exact loc_injective valid otherValid
    (show (st.slotAt nothing loc).sector = (st.slotAt nothing other).sector from sector) offset

theorem mem_scan_place {places : List Loc}
    (listed : entry ∈ unicode.scan pending (places.map (st.slotAt vol))) :
    ∃ loc ∈ places, entry.place = st.placeOf loc := by
  obtain ⟨listed, later, shape⟩ := append_of_mem listed
  obtain ⟨front, slot, back, parts, slots, _, _, look, _⟩ := scan_split shape
  have member : slot ∈ places.map (st.slotAt vol) := by
    rw [slots]
    exact mem_append_right _ (.head _)
  obtain ⟨loc, inside, rfl⟩ := List.mem_map.mp member
  obtain ⟨_, _, rfl⟩ := look_eq_entry look
  exact ⟨loc, inside, rfl⟩

/-- What is listed around a slot comes from other places. -/
theorem SplitAt.place_ne (split : st.SplitAt unicode vol clusters before loc behind pending)
    (chain : st.Chain vol start clusters)
    (listed : entry ∈ unicode.scan [] (before.map (st.slotAt vol)) ++
      unicode.scan [] (behind.map (st.slotAt vol))) : entry.place ≠ st.placeOf loc := by
  have places : (st.locs clusters).Nodup := nodup_locs chain.nodup
  have valid : ∀ other ∈ st.locs clusters, st.IsLoc other :=
    fun other member => isLoc_of_mem chain.valid member
  rw [split.shape] at places valid
  rw [nodup_middle, nodup_cons] at places
  obtain ⟨other, around, place⟩ : ∃ other ∈ before ++ behind, entry.place = st.placeOf other := by
    rcases mem_append.mp listed with front | back
    · obtain ⟨other, inside, place⟩ := mem_scan_place front
      exact ⟨other, mem_append_left _ inside, place⟩
    · obtain ⟨other, inside, place⟩ := mem_scan_place back
      exact ⟨other, mem_append_right _ inside, place⟩
  rw [place]
  intro same
  have isLoc : st.IsLoc other := by
    refine valid other ?_
    rw [mem_append, mem_cons]
    exact (mem_append.mp around).imp_right Or.inr
  have isLoc' : st.IsLoc loc := valid loc (mem_append_right _ (.head _))
  exact places.1 (placeOf_injective isLoc isLoc' same ▸ around)

/-! ## Effects of the outcomes -/

/-- Entering an entry changes no cluster in use outside the directory. -/
theorem Entered.confined {raw : List UInt8} {ok : Bool}
    (entered : st.Entered vol clusters raw ok vol') {cluster : Nat}
    (used : vol.fat cluster ≠ fatFree) (outside : cluster ∉ clusters) :
    vol'.fat cluster = vol.fat cluster ∧ vol'.data cluster = vol.data cluster := by
  cases entered with
  | slot shape full vacant =>
    rename_i before behind loc
    have member : loc ∈ st.locs clusters := by
      rw [shape]
      exact mem_append_right _ (.head _)
    have differ : cluster ≠ loc.1 := fun same => outside (same ▸ (mem_locs.mp member).1)
    exact ⟨rfl, patch_of_ne _ _ differ _ _⟩
  | extended shape full free =>
    rename_i front rest last fresh
    have unused := (mem_freeClusters.mp (free ▸ mem_cons_self)).2
    have differ : cluster ≠ fresh := fun same => used (same ▸ unused)
    have differ' : cluster ≠ last := fun same => outside (by simp [shape, same])
    constructor
    · rw [patch_fat, blank_fat, setFat_of_ne _ _ differ', setFat_of_ne _ _ differ]
    · rw [patch_of_ne _ _ differ, blank_of_ne _ differ]
      rfl
  | exhausted => exact ⟨rfl, rfl⟩

namespace InDir

variable {old : List Nat} {data : List UInt8} {mid : Volume} {raw : List UInt8}

section

variable (inDir : st.InDir vol table owner clusters start)
  (split : st.SplitAt unicode vol clusters before loc behind pending)
  (look : unicode.look pending (st.slotAt vol loc) = .entry entry)
include inDir split look

theorem old_apart (chain : st.OldChain vol entry.cluster old) : old.Disjoint clusters := by
  rcases inDir.old_owned split look chain with rfl | ⟨isDir, owned⟩
  · exact disjoint_nil_left _
  · exact inDir.layout.apart _ _ _ _ (inDir.owner_ne_slot split.mem).symm owned inDir.owned

/-- An entry that is changed in place. -/
theorem revision_of_found {sight : Sight} (chain : st.OldChain vol entry.cluster old)
    (agree : ∀ other ∈ st.locs clusters, other ≠ loc → st.slotAt vol' other = st.slotAt vol other)
    (confined : ∀ cluster, vol.fat cluster ≠ fatFree → cluster ∉ old →
      vol'.fat cluster = vol.fat cluster ∧
        (cluster ≠ loc.1 → vol'.data cluster = vol.data cluster))
    (plain : (st.slotAt vol' loc).Plain) (inUse : (st.slotAt vol' loc).first ≠ 0x00)
    (sees : unicode.look pending (st.slotAt vol' loc) = sight) :
    st.Revision unicode vol table start clusters vol' loc
      (unicode.scan [] (before.map (st.slotAt vol))) (some entry) sight
      (unicode.scan [] (behind.map (st.slotAt vol))) := by
  have apart := inDir.old_apart split look chain
  obtain ⟨isShort, _, same⟩ := look_eq_entry look
  obtain ⟨split', front, back⟩ := split.revised inDir.chain.nodup agree
  have inside := (mem_locs.mp split.mem).1
  refine ⟨⟨isLoc_of_mem inDir.chain.valid split.mem, .inl inside⟩, ?_,
    ⟨clusters, ?_, ?_, fun clean _ => ?_⟩, ?_, ?_, ?_, old,
    inDir.old_owned split look chain, fun cluster used outside kept => ?_⟩
  · rw [split.listing_plain (.inr isShort), look, append_assoc]
    rfl
  · exact inDir.chain.congr fun cluster member => (confined cluster
      (inDir.chain.fat_ne_free member) fun given => apart given member).1
  · rw [split'.listing_plain plain, front, back, sees]
  · exact split.clean_revised inDir.chain.nodup agree clean inUse
      (noEnd_of_pendingAfter split.pends)
  · rintro _ ⟨⟩
    rw [same]
    rfl
  · rintro found rfl
    obtain ⟨_, _, rfl⟩ := look_eq_entry sees
    rfl
  · exact fun found listed => split.place_ne inDir.chain listed
  · obtain ⟨fat, data⟩ := confined cluster used kept
    exact ⟨fat, data fun here => outside (here ▸ inside)⟩

end

/-- An entry that is entered into a slot which listed nothing. -/
theorem revision_of_entered (inDir : st.InDir vol table owner clusters start)
    (geometry : st.Geometry) (clean : EndsClean (st.slots vol clusters)) (spares : vol.Spares mid)
    (whole : raw.length = 32) (plain : ∀ slot : Slot, slot.raw = raw → slot.Plain)
    (entered : st.Entered mid clusters raw true vol') :
    ∃ loc, (st.slotAt vol' loc).raw = raw ∧
      st.Revision unicode vol table start clusters vol' loc
        (unicode.scan [] (usedSlots (st.slots vol clusters))) none
        (unicode.look (unicode.partsBefore (st.slots vol clusters)) (st.slotAt vol' loc))
        (unicode.scan [] (slotsBehind (st.slots vol clusters))) := by
  have same : st.slots mid clusters = st.slots vol clusters := slots_congr fun cluster member =>
    (spares cluster (inDir.chain.fat_ne_free member)).2
  obtain ⟨loc, clusters', enters⟩ : ∃ loc clusters',
      st.EntersAt unicode mid start clusters raw vol' loc clusters' :=
    entered.exists_entersAt (inDir.chain.spared spares) whole plain geometry
  have listing : st.listing unicode vol clusters =
      unicode.scan [] (usedSlots (st.slots vol clusters)) ++
        unicode.scan [] (slotsBehind (st.slots vol clusters)) := scan_around_vacant clean []
  have fresh := enters.fresh
  have after := enters.listing
  have clean' := enters.clean
  unfold Fat32State.listing at fresh
  rw [same] at fresh after clean'
  have located : loc.1 ∈ clusters ∨ vol.fat loc.1 = fatFree := by
    refine enters.located.2.imp_right fun free => ?_
    by_contra used
    exact used ((spares loc.1 used).1.symm.trans free)
  refine ⟨loc, enters.raw_eq, ⟨enters.located.1, located⟩, ?_,
    ⟨clusters', enters.chain, after, fun _ notEnd => ?_⟩, nofun, ?_, ?_,
    [], .inl rfl, fun cluster used outside _ => ?_⟩
  · rw [listing, Option.toList_none, append_nil]
  · exact clean' clean fun ended => notEnd (look_of_end ended)
  · intro found sees
    obtain ⟨_, _, rfl⟩ := look_eq_entry sees
    rfl
  · intro found listed
    rw [← listing] at listed
    exact fresh found listed
  · obtain ⟨fat, data⟩ := spares cluster used
    obtain ⟨fat', data'⟩ := entered.confined (fat ▸ used) outside
    exact ⟨fat'.trans fat, data'.trans data⟩

end InDir

theorem listing_freshDir (geometry : st.Geometry) (vol : Volume) (cluster parent : Nat) :
    st.listing unicode (freshDir vol cluster parent) [cluster] = [] ∧
      EndsClean (st.slots (freshDir vol cluster parent) [cluster]) := by
  obtain ⟨one, two, blank⟩ := slotAt_freshDir st vol cluster parent
  obtain ⟨others, shape, later⟩ := locs_singleton geometry cluster
  obtain ⟨short, name⟩ := isShort_dot (.inl rfl) one
  obtain ⟨short', name'⟩ := isShort_dot (.inr rfl) two
  have zeros : ∀ slot ∈ others.map (st.slotAt (freshDir vol cluster parent)), slot.first = 0x00 := by
    intro slot member
    obtain ⟨other, inside, rfl⟩ := List.mem_map.mp member
    obtain ⟨index, rfl, large⟩ := later other inside
    exact blank index large
  unfold listing slots EndsClean
  rw [shape, map_cons, Unicode.scan, unicode.look_dot short (.inl name)]
  constructor
  · change unicode.scan [] (_ :: _) = []
    rw [Unicode.scan, unicode.look_dot short' (.inr name')]
    exact scan_of_zeros zeros
  · refine pairwise_cons.mpr ⟨fun _ _ ended => absurd ended short.inUse, ?_⟩
    refine pairwise_cons.mpr ⟨fun _ _ ended => absurd ended short'.inUse, ?_⟩
    exact pairwise_of_forall_mem_list fun _ _ slot member _ => zeros slot member

/-- A file that is overwritten keeps its slot and its name. -/
theorem InDir.revision_of_overwritten {name : List Char} {data : List UInt8} {old : List Nat}
    {first : Option Nat} {mid : Volume} (inDir : st.InDir vol table owner clusters start)
    (found : st.Found unicode vol clusters name before loc behind pending entry)
    (chain : st.OldChain vol entry.cluster old)
    (stored : st.Stored (vol.mark fatFree old) data first mid) :
    st.Revision unicode vol table start clusters
      (mid.patch loc.1 (loc.2 * 32) (patchClusterSize (st.slotAt vol loc).raw (first.getD 0)
        (data.length % 2 ^ 32))) loc
      (unicode.scan [] (before.map (st.slotAt vol))) (some entry)
      (.entry { entry with
        cluster := first.getD 0 % 2 ^ 32, size := data.length % 2 ^ 32 % 2 ^ 32 })
      (unicode.scan [] (behind.map (st.slotAt vol))) := by
  have apart := inDir.old_apart found.split found.look chain
  have whole := length_patchClusterSize (length_slotAt st vol loc) (first.getD 0)
    (data.length % 2 ^ 32)
  have put : st.slotAt (mid.patch loc.1 (loc.2 * 32) (patchClusterSize (st.slotAt vol loc).raw
      (first.getD 0) (data.length % 2 ^ 32))) loc = { st.slotAt mid loc with
        raw := patchClusterSize (st.slotAt vol loc).raw (first.getD 0) (data.length % 2 ^ 32) } :=
    slotAt_patch_self whole
  have sees := look_of_patch (length_slotAt st vol loc) (congrArg Slot.raw put) ⟨rfl, rfl⟩ found.look
  obtain ⟨isShort, _⟩ := look_eq_entry sees
  refine inDir.revision_of_found found.split found.look chain (fun other member differ => ?_)
    (fun cluster used kept => ⟨?_, fun differ => ?_⟩) (.inr isShort) isShort.inUse sees
  · refine (slotAt_patch_of_ne differ (le_of_eq (by rw [zero_add, whole]))).trans ?_
    have inside := (mem_locs.mp member).1
    exact slotAt_congr (stored.spares_marked (inDir.chain.fat_ne_free inside)
      fun given => apart given inside).2
  · exact (stored.spares_marked used kept).1
  · exact (patch_of_ne _ _ differ _ _).trans (stored.spares_marked used kept).2

namespace CallOutcome

variable {call : FileCall} {ok : Bool} {name : List Char} {data : List UInt8}

section

variable (inDir : st.InDir vol table owner clusters start) (geometry : st.Geometry)
  (clean : EndsClean (st.slots vol clusters))
include inDir geometry clean

theorem writeFile_effect {dir : Nat}
    (outcome : st.WriteOutcome unicode vol clusters name data ok vol') :
    st.Effect unicode vol table start clusters (.writeFile dir name data) ok vol' := by
  cases outcome with
  | overwritten found chain stored =>
    exact .overwritten found.find?_eq (inDir.revision_of_overwritten found chain stored) ⟨rfl, rfl⟩
  | created absent encoded stored entered =>
    cases ok with
    | false => exact .failed (entered.eq_of_false ▸ stored.spares)
    | true =>
      have length := length_encode83Name encoded
      obtain ⟨loc, raw, revision⟩ := inDir.revision_of_entered geometry clean stored.spares
        (length_rawEntry length ..) (fun slot raw =>
          plain_of_attr (fields_of_rawEntry length raw).2.2.1) entered
      exact .created rfl absent encoded raw nofun revision
  | refused _ _ stored => exact .failed stored.spares

theorem mkdir_effect (outcome : st.MkdirOutcome unicode vol start clusters name ok vol') :
    st.Effect unicode vol table start clusters (.mkdir start name) ok vol' := by
  cases outcome with
  | present => exact .failed fun _ _ => ⟨rfl, rfl⟩
  | exhausted => exact .failed fun _ _ => ⟨rfl, rfl⟩
  | refused _ _ free =>
    exact .failed (freshDir_spares (mem_freeClusters.mp (free ▸ mem_cons_self)).2 start)
  | created absent encoded free entered =>
    rename_i short cluster rest
    obtain ⟨valid, unused⟩ := mem_freeClusters.mp (free ▸ mem_cons_self)
    have spares := freshDir_spares unused start
    cases ok with
    | false => exact .failed (entered.eq_of_false ▸ spares)
    | true =>
      have length := length_encode83Name encoded
      obtain ⟨loc, raw, revision⟩ := inDir.revision_of_entered geometry clean spares
        (length_rawEntry length ..) (fun slot raw =>
          plain_of_attr (fields_of_rawEntry length raw).2.2.1) entered
      refine .created rfl absent encoded raw (fun _ => ⟨[cluster], ?_⟩) revision
      have outside : cluster ∉ clusters := fun member => inDir.chain.fat_ne_free member unused
      have small := lt_trans (geometry.cluster_lt valid) (by decide : 2 ^ 28 < 2 ^ 32)
      have kept : ∀ other ∈ [cluster], vol'.fat other = (freshDir vol cluster start).fat other ∧
          vol'.data other = (freshDir vol cluster start).data other := by
        intro other member
        cases mem_singleton.mp member
        exact entered.confined (freshDir_used _ _ _) outside
      have same : st.slots vol' [cluster] = st.slots (freshDir vol cluster start) [cluster] :=
        slots_congr fun other member => (kept other member).2
      rw [(fields_of_rawEntry length raw).1, Nat.mod_eq_of_lt small]
      unfold listing
      rw [same]
      exact ⟨(chain_freshDir valid vol start).congr fun other member => (kept other member).1,
        listing_freshDir geometry vol cluster start⟩

end

theorem delete_effect {dir : Nat} (inDir : st.InDir vol table owner clusters start)
    (outcome : st.DeleteOutcome unicode vol clusters name ok vol') :
    st.Effect unicode vol table start clusters (.delete dir name) ok vol' := by
  cases outcome with
  | absent => exact .failed fun _ _ => ⟨rfl, rfl⟩
  | occupied => exact .failed fun _ _ => ⟨rfl, rfl⟩
  | deleted found chain empty =>
    rename_i before behind loc pending entry old
    have first : (st.slotAt ((vol.mark fatFree old).patch loc.1 (loc.2 * 32) [0xE5]) loc).first =
        0xE5 := by
      rw [slotAt_patch_first]
      rfl
    refine .deleted found.find?_eq (fun isDir => ⟨old, ?_, empty isDir⟩)
      (inDir.revision_of_found found.split found.look chain (fun other member differ => ?_)
        (fun cluster used kept => ⟨?_, fun differ => ?_⟩)
        (.inl (isVacant_iff.mpr (.inr first))) ?_ (look_of_deleted first))
    · obtain ⟨large, _⟩ := inDir.layout.owned inDir.owned rfl found.split found.look
      obtain ⟨_, _, rfl⟩ := look_eq_entry found.look
      unfold OldChain at chain
      rwa [if_pos (show 2 ≤ (Slot.entry _ _).cluster from large isDir)] at chain
    · exact slotAt_patch_of_ne differ (show 0 + [(0xE5 : UInt8)].length ≤ 32 by decide)
    · exact mark_of_not_mem kept _
    · exact patch_of_ne _ _ differ _ _
    · rw [first]
      decide

/-- Every outcome of a call has one of the effects. -/
theorem effect (outcome : st.CallOutcome unicode vol clusters call ok vol')
    (inDir : st.InDir vol table owner clusters call.dir) (geometry : st.Geometry)
    (clean : EndsClean (st.slots vol clusters)) :
    st.Effect unicode vol table call.dir clusters call ok vol' := by
  cases outcome with
  | wrote outcome => exact writeFile_effect inDir geometry clean outcome
  | made outcome => exact mkdir_effect inDir geometry clean outcome
  | deleted outcome => exact delete_effect inDir outcome

end CallOutcome

end Fat32State

end CantayaOS.Storage
