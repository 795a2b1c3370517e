import CantayaOS.Storage.Effect
import CantayaOS.Storage.Rollback

/-!
# What a call leaves alone

A call should change the named entry and what is below it, and nothing else.
The one way in which it changes more is a name whose short form starts with a
zero byte: entered into a slot before other entries, it ends the directory
there, and the entries behind it are gone.
-/

namespace CantayaOS.Storage

open Lib List Option

namespace Fat32State

/--
The device looks the same except for one slot and what is below it: the slot
of the named entry, or one that held no entry if there is none of that name.
-/
structure Undisturbed (st : Fat32State) (unicode : Unicode) (before after : Disk) (dir : Nat)
    (name : List Char) (named : Option (Nat × Nat)) : Prop where
  found : ∀ entry ∈ st.findEntry unicode before dir name, named = some entry.place
  fresh : st.findEntry unicode before dir name = none →
    ∀ entry, st.Listed unicode before entry → some entry.place ≠ named
  listings : ∀ other, st.Reaches unicode before named other →
    (st.readDir unicode after other).filter (fun entry => some entry.place ≠ named) =
      (st.readDir unicode before other).filter fun entry => some entry.place ≠ named
  contents : ∀ other, st.Reaches unicode before named other →
    ∀ entry ∈ st.readDir unicode before other, some entry.place ≠ named → entry.isDir = false →
      st.readFile after entry = st.readFile before entry

/-- Behind the end of every live directory there are no further entries. -/
def CleanEnds (st : Fat32State) (unicode : Unicode) (disk : Disk) : Prop :=
  ∀ dir, st.LiveDir unicode disk dir →
    EndsClean (st.dirSlots disk (st.clusterChain disk dir))

variable {st : Fat32State} {unicode : Unicode} {disk after : Disk} {vol vol' : Volume}
  {table : Table} {owner owner' : Owner} {clusters clusters' : List Nat} {start dir other : Nat}
  {loc : Loc} {front behind : List DirEntry} {former : Option DirEntry} {sight : Sight}
  {entry : DirEntry} {name : List Char}

/-! ## Directories and files away from the change -/

/-- The slots and the listing of a directory are the same on both devices. -/
structure SameDir (st : Fat32State) (unicode : Unicode) (disk after : Disk) (dir : Nat) : Prop where
  slots : st.dirSlots after (st.clusterChain after dir) = st.dirSlots disk (st.clusterChain disk dir)
  listing : st.readDir unicode after dir = st.readDir unicode disk dir

section

variable (inDir : st.InDir vol table owner clusters dir) (stores : st.Stores disk vol)
  (stores' : st.Stores after vol')
include inDir stores stores'

theorem InDir.sameDir
    (agree : ∀ cluster ∈ clusters,
      vol'.fat cluster = vol.fat cluster ∧ vol'.data cluster = vol.data cluster) :
    st.SameDir unicode disk after dir := by
  have chain := inDir.chain.congr fun cluster member => (agree cluster member).1
  have slots : st.dirSlots after (st.clusterChain after dir) =
      st.dirSlots disk (st.clusterChain disk dir) := by
    rw [stores'.slots_eq chain, stores.slots_eq inDir.chain,
      slots_congr fun cluster member => (agree cluster member).2]
  refine ⟨slots, ?_⟩
  unfold readDir
  rw [slots]

/-- A change that leaves the clusters in use alone changes no directory. -/
theorem InDir.sameDir_of_spares (spares : vol.Spares vol') (live : st.LiveDir unicode disk other) :
    st.SameDir unicode disk after other := by
  obtain ⟨owner', clusters', inOther, _⟩ := inDir.layout.exists_inDir inDir.idle stores live
  exact inOther.sameDir stores stores' fun cluster member =>
    spares cluster (inOther.chain.fat_ne_free member)

theorem InDir.readFile_congr (found : st.At unicode vol clusters entry loc)
    (agree : ∀ node, table (.slot loc) = some node → node.isDir = entry.isDir →
      ∀ cluster ∈ node.clusters,
        vol'.fat cluster = vol.fat cluster ∧ vol'.data cluster = vol.data cluster) :
    st.readFile after entry = st.readFile disk entry := by
  by_cases large : 2 ≤ entry.cluster
  · obtain ⟨old, chain, owned, _⟩ := inDir.exists_chain found (.inr large)
    exact Fat32State.readFile_congr stores stores' (fun _ => chain) (agree _ owned rfl)
  · have noChain : 2 ≤ entry.cluster → st.Chain vol entry.cluster [] :=
      fun large' => absurd large' large
    exact Fat32State.readFile_congr stores stores' noChain nofun

end

namespace Revision

variable (revision : st.Revision unicode vol table start clusters vol' loc front former sight behind)
include revision

section

variable (inDir : st.InDir vol table owner clusters start)
include inDir

theorem readDir_self (stores : st.Stores disk vol) (stores' : st.Stores after vol') :
    st.readDir unicode disk start = front ++ former.toList ++ behind ∧
      st.readDir unicode after start = front ++ sight.reveal behind := by
  obtain ⟨clusters', chain, listing, _⟩ := revision.after
  exact ⟨(stores.readDir inDir.chain).trans revision.before, (stores'.readDir chain).trans listing⟩

theorem agree {key : Owner} {node : Node}
    (owned : table key = some node) (notDir : key ≠ owner) (notSlot : key ≠ .slot loc) :
    ∀ cluster ∈ node.clusters, vol'.fat cluster = vol.fat cluster ∧
      vol'.data cluster = vol.data cluster := by
  intro cluster member
  obtain ⟨old, owns, confined⟩ := revision.confined
  refine confined cluster (inDir.layout.fat_ne_free owned member) ?_ ?_
  · exact fun inside => inDir.layout.apart _ _ _ _ notDir owned inDir.owned member inside
  · rcases owns with rfl | ⟨isDir, owns⟩
    · exact not_mem_nil
    · exact fun given => inDir.layout.apart _ _ _ _ notSlot owned owns member given

section

variable (stores : st.Stores disk vol)
include stores

section

variable (stores' : st.Stores after vol')
  (reached : st.Reaches unicode disk (some (st.placeOf loc)) other)
include stores' reached

theorem sameDir (differ : other ≠ start) : st.SameDir unicode disk after other := by
  obtain ⟨owner', clusters', inOther, avoided⟩ :=
    inDir.layout.exists_inDir inDir.idle stores reached
  refine inOther.sameDir stores stores' (revision.agree inDir inOther.owned ?_ ?_)
  · rintro rfl
    have same := inOther.owned.symm.trans inDir.owned
    cases same
    exact differ (Option.some.inj (inOther.head.symm.trans inDir.head))
  · exact fun same => avoided loc same rfl

/-- Files that are reached without passing the slot keep their contents. -/
theorem readFile_eq (listed : entry ∈ st.readDir unicode disk other)
    (differ : entry.place ≠ st.placeOf loc) (isFile : entry.isDir = false) :
    st.readFile after entry = st.readFile disk entry := by
  obtain ⟨owner', clusters', inOther, _⟩ := inDir.layout.exists_inDir inDir.idle stores reached
  rw [stores.readDir inOther.chain] at listed
  obtain ⟨place, found⟩ := exists_at listed
  refine inOther.readFile_congr stores stores' found fun node owned kind =>
    revision.agree inDir owned ?_ ?_
  · rintro rfl
    have same := owned.symm.trans inDir.owned
    cases same
    rw [isFile] at kind
    cases kind
  · rintro ⟨⟩
    exact differ found.place_eq

end

theorem place_ne_of_ne (live : st.LiveDir unicode disk other) (differ : other ≠ start)
    (listed : entry ∈ st.readDir unicode disk other) : entry.place ≠ st.placeOf loc := by
  obtain ⟨owner', clusters', inOther, _⟩ := inDir.layout.exists_inDir inDir.idle stores live
  rw [stores.readDir inOther.chain] at listed
  obtain ⟨isLoc, located⟩ := revision.located
  have apart : owner' ≠ owner := by
    rintro rfl
    have same := inOther.owned.symm.trans inDir.owned
    cases same
    exact differ (Option.some.inj (inOther.head.symm.trans inDir.head))
  obtain ⟨place, found⟩ := exists_at listed
  have inside := (mem_locs.mp found.mem).1
  intro same
  have equal : place = loc :=
    placeOf_injective (isLoc_of_mem inOther.chain.valid found.mem) isLoc
      (found.place_eq.symm.trans same)
  rw [equal] at inside
  rcases located with shared | free
  · exact inDir.layout.apart _ _ _ _ apart inOther.owned inDir.owned inside shared
  · exact inOther.chain.fat_ne_free inside free

theorem place_ne (vacant : former = none) (listed : st.Listed unicode disk entry) :
    entry.place ≠ st.placeOf loc := by
  obtain ⟨dir, live, listed⟩ := listed
  by_cases here : dir = start
  · rw [here, stores.readDir inDir.chain, revision.before, vacant, toList_none,
      append_nil] at listed
    exact revision.others entry listed
  · exact revision.place_ne_of_ne inDir stores live here listed

/-- After a revision, a live directory was reached before, or it is the new entry. -/
theorem reached_before (stores' : st.Stores after vol')
    (empty : ∀ entry, sight = .entry entry → entry.isDir = true →
      st.readDir unicode after entry.cluster = []) (live : st.LiveDir unicode after other) :
    st.Reaches unicode disk (some (st.placeOf loc)) other ∨
      ∃ entry, sight = .entry entry ∧ entry.isDir = true ∧ other = entry.cluster := by
  induction live with
  | root => exact .inl .root
  | child parent listed isDir passed ih =>
    rename_i dir found
    obtain reached | ⟨entry, sees, isDir', rfl⟩ := ih
    · by_cases here : dir = start
      · obtain ⟨before, after⟩ := revision.readDir_self inDir stores stores'
        rw [here, after] at listed
        have kept : found ∈ front ++ behind →
            st.Reaches unicode disk (some (st.placeOf loc)) found.cluster := by
          intro around
          refine .child reached ?_ isDir fun same =>
            revision.others found around (Option.some.inj same)
          rw [here, before, append_assoc]
          exact (mem_append.mp around).elim (mem_append_left _)
            fun later => mem_append_right _ (mem_append_right _ later)
        rcases mem_append.mp listed with early | late
        · exact .inl (kept (mem_append_left _ early))
        cases sees : sight with
        | endOfDir =>
          rw [sees] at late
          cases late
        | passed parts =>
          rw [sees] at late
          exact .inl (kept (mem_append_right _ late))
        | entry fresh =>
          rw [sees] at late
          rcases mem_cons.mp late with rfl | later
          · exact .inr ⟨_, rfl, isDir, rfl⟩
          · exact .inl (kept (mem_append_right _ later))
      · rw [(revision.sameDir inDir stores stores' reached here).listing] at listed
        refine .inl (.child reached listed isDir fun same => ?_)
        exact revision.place_ne_of_ne inDir stores reached.live here listed (Option.some.inj same)
    · rw [empty entry sees isDir'] at listed
      cases listed

end

end

end Revision

/-! ## The calls -/

/-- A call that leaves the clusters in use alone disturbs nothing. -/
theorem undisturbed_of_spares (inDir : st.InDir vol table owner clusters dir)
    (stores : st.Stores disk vol) (stores' : st.Stores after vol') (spares : vol.Spares vol')
    (name : List Char) : ∃ named, st.Undisturbed unicode disk after dir name named := by
  refine ⟨(st.findEntry unicode disk dir name).map DirEntry.place, ?_, ?_, ?_, ?_⟩
  · intro entry found
    rw [mem_def.mp found]
    rfl
  · intro missing entry _
    rw [missing]
    nofun
  · intro other reached
    rw [(inDir.sameDir_of_spares stores stores' spares reached.live).listing]
  · intro other reached entry listed _ _
    obtain ⟨owner', clusters', inOther, _⟩ := inDir.layout.exists_inDir inDir.idle stores reached
    rw [stores.readDir inOther.chain] at listed
    obtain ⟨loc, found⟩ := exists_at listed
    exact inOther.readFile_congr stores stores' found fun node owned _ cluster member =>
      spares cluster (inDir.layout.fat_ne_free owned member)

/-- Without the entry of the slot the listings before and after a revision agree. -/
theorem Revision.filter_eq
    (revision : st.Revision unicode vol table start clusters vol' loc front former sight behind)
    (whole : sight = .endOfDir → behind = []) :
    (front ++ sight.reveal behind).filter (fun entry => some entry.place ≠ some (st.placeOf loc)) =
      (front ++ former.toList ++ behind).filter
        fun entry => some entry.place ≠ some (st.placeOf loc) := by
  have dropped : former.toList.filter
      (fun entry => decide (some entry.place ≠ some (st.placeOf loc))) = [] := by
    refine filter_eq_nil_iff.mpr fun entry member kept => ?_
    rw [decide_eq_true_eq] at kept
    exact kept (congrArg some (revision.former_place entry (mem_toList.mp member)))
  have revealed : (sight.reveal behind).filter
      (fun entry => decide (some entry.place ≠ some (st.placeOf loc))) =
        behind.filter fun entry => decide (some entry.place ≠ some (st.placeOf loc)) := by
    cases sees : sight with
    | endOfDir => rw [whole sees, Sight.reveal]
    | passed parts => rfl
    | entry found =>
      rw [Sight.reveal, filter_cons_of_neg]
      rw [decide_eq_true_eq]
      exact fun kept => kept (congrArg some (revision.sight_place found sees))
  rw [filter_append, filter_append, filter_append, dropped, revealed, append_nil]

theorem undisturbed_of_revision
    (revision : st.Revision unicode vol table dir clusters vol' loc front former sight behind)
    (inDir : st.InDir vol table owner clusters dir) (stores : st.Stores disk vol)
    (stores' : st.Stores after vol') (named : st.findEntry unicode disk dir name = former)
    (whole : sight = .endOfDir → behind = []) :
    st.Undisturbed unicode disk after dir name (some (st.placeOf loc)) := by
  refine ⟨?_, ?_, ?_, ?_⟩
  · intro entry found
    rw [named] at found
    rw [revision.former_place entry found]
  · intro missing entry listed same
    exact revision.place_ne inDir stores (named.symm.trans missing) listed (Option.some.inj same)
  · intro other reached
    by_cases here : other = dir
    · obtain ⟨before, after⟩ := revision.readDir_self inDir stores stores'
      rw [here, before, after, revision.filter_eq whole]
    · rw [(revision.sameDir inDir stores stores' reached here).listing]
  · intro other reached entry listed differ isFile
    exact revision.readFile_eq inDir stores stores' reached listed
      (fun same => differ (congrArg some same)) isFile

end Fat32State

/--
The call ends its directory before other entries: the name is new, its short
form starts with a zero byte, and entries are listed behind the first vacant
slot, which will take it.
-/
def FileCall.Truncates (st : Fat32State) (unicode : Unicode) (disk : Disk) (call : FileCall) :
    Prop :=
  call.makes.isSome = true ∧ st.findEntry unicode disk call.dir call.name = none ∧
    (∃ short ∈ unicode.encode83Name call.name, short.getD 0 0 = 0x00) ∧
    unicode.scan [] (slotsBehind (st.dirSlots disk (st.clusterChain disk call.dir))) ≠ [] ∧
    (call.makes = some true → st.freeCount disk ≠ 0)

namespace Fat32State

variable {st : Fat32State} {unicode : Unicode} {disk after : Disk} {vol vol' : Volume}
  {table : Table} {owner : Owner} {clusters : List Nat} {call : FileCall} {ok : Bool} {fuel : Nat}

theorem Entered.slotsBehind_eq_nil {raw : List UInt8} (full : st.Entered vol clusters raw false vol') :
    slotsBehind (st.slots vol clusters) = [] := by
  cases full with
  | exhausted used _ =>
    refine (usedSlots_of_full fun slot member => ?_).2
    obtain ⟨loc, inside, rfl⟩ := List.mem_map.mp member
    exact used loc inside

/-- A call that ends its directory succeeds. -/
theorem CallOutcome.ok_of_truncates (inDir : st.InDir vol table owner clusters call.dir)
    (stores : st.Stores disk vol) (outcome : st.CallOutcome unicode vol clusters call ok vol')
    (truncates : call.Truncates st unicode disk) : ok = true := by
  obtain ⟨makes, missing, ⟨short, encoded, _⟩, entries, free⟩ := truncates
  rw [stores.slots_eq inDir.chain] at entries
  have room : ∀ {mid : Volume} {raw : List UInt8}, vol.Spares mid →
      ¬ st.Entered mid clusters raw false vol' := by
    intro mid raw spares full
    have same : st.slots mid clusters = st.slots vol clusters := slots_congr fun cluster member =>
      (spares cluster (inDir.chain.fat_ne_free member)).2
    rw [← same, full.slotsBehind_eq_nil] at entries
    exact entries rfl
  rw [Bool.eq_iff_iff]
  refine iff_of_true ?_ rfl
  by_contra failed
  rw [Bool.not_eq_true] at failed
  cases outcome with
  | wrote outcome =>
    cases outcome with
    | overwritten => cases failed
    | created _ _ stored entered => exact room stored.spares (failed ▸ entered)
    | refused _ invalid _ =>
      rw [FileCall.name, invalid] at encoded
      cases encoded
  | made outcome =>
    cases outcome with
    | present present =>
      rw [stores.findEntry inDir.chain] at missing
      exact present (absent_iff.mpr missing)
    | exhausted _ none =>
      rw [freeCount, stores.volume_eq, none] at free
      exact free rfl rfl
    | created _ _ unused entered =>
      exact room (freshDir_spares (mem_freeClusters.mp (unused ▸ mem_cons_self)).2 _)
        (failed ▸ entered)
    | refused _ invalid _ =>
      rw [FileCall.name, invalid] at encoded
      cases encoded
  | deleted outcome => cases makes

theorem CallOutcome.free_of_made (outcome : st.CallOutcome unicode vol clusters call true vol')
    (makes : call.makes = some true) : st.freeClusters vol ≠ [] := by
  cases outcome with
  | wrote => cases makes
  | deleted => cases makes
  | made outcome =>
    cases outcome with
    | created _ _ free _ =>
      rw [free]
      exact cons_ne_nil _ _

/-- A live directory is reached without passing a slot that no entry has. -/
theorem Reaches.avoiding {dir : Nat} {named : Option (Nat × Nat)}
    (fresh : ∀ entry, st.Listed unicode disk entry → some entry.place ≠ named)
    (live : st.LiveDir unicode disk dir) : st.Reaches unicode disk named dir := by
  induction live with
  | root => exact .root
  | child parent listed isDir _ ih =>
    exact .child ih listed isDir (fresh _ ⟨_, parent, listed⟩)

/-- A call disturbs nothing but the named entry exactly when it does not end its directory early. -/
theorem call_leaves_others_iff (formed : st.WellFormed disk) (clean : st.CleanEnds unicode disk)
    (live : st.LiveDir unicode disk call.dir) (enough : st.totalClusters ≤ fuel) :
    (∃ ok after named, call.apply st unicode fuel disk = some (ok, after) ∧
      st.Undisturbed unicode disk after call.dir call.name named) ↔
        ¬ call.Truncates st unicode disk := by
  obtain ⟨table, owner, clusters, ok, after, vol', inDir, ended, stores', outcome⟩ :=
    formed.call_outcome live enough
  have stores := formed.stores
  have slots := stores.slots_eq inDir.chain
  have clean := clean call.dir live
  rw [slots] at clean
  constructor
  · rintro ⟨ok', after', named, ended', undisturbed⟩ truncates
    cases ended.symm.trans ended'
    cases outcome.ok_of_truncates inDir stores truncates
    obtain ⟨makes, missing, ⟨short, encoded, zero⟩, entries, _⟩ := truncates
    rw [slots] at entries
    have fresh := undisturbed.fresh missing
    have listings := undisturbed.listings call.dir (live.avoiding fresh)
    cases outcome.effect inDir stores.geometry clean with
    | overwritten found _ _ =>
      rw [stores.findEntry inDir.chain] at missing
      cases missing.symm.trans found
    | deleted => cases makes
    | created _ _ encoded' raw _ revision =>
      cases encoded.symm.trans encoded'
      rw [(look_rawEntry_eq_end (length_encode83Name encoded) raw).mpr zero] at revision
      obtain ⟨before, after⟩ := revision.readDir_self inDir stores stores'
      have kept : ∀ entry ∈ st.readDir unicode disk call.dir,
          decide (some entry.place ≠ named) = true := by
        intro entry listed
        exact decide_eq_true (fresh entry ⟨call.dir, live, listed⟩)
      rw [filter_eq_self.mpr kept, before, after, toList_none, Sight.reveal, append_nil] at listings
      have length := congrArg List.length listings
      have shorter := length_filter_le (fun entry : DirEntry => decide
        (some entry.place ≠ named)) (unicode.scan [] (usedSlots (st.slots (st.volume disk) clusters)))
      have positive := length_pos_iff.mpr entries
      rw [length_append] at length
      omega
  · intro safe
    have search : st.findEntry unicode disk call.dir call.name =
        (st.listing unicode (st.volume disk) clusters).find?
          fun entry => unicode.sameName entry.name call.name := stores.findEntry inDir.chain
    cases outcome.effect inDir stores.geometry clean with
    | failed spares =>
      obtain ⟨named, undisturbed⟩ :=
        undisturbed_of_spares inDir stores stores' spares call.name
      exact ⟨_, after, named, ended, undisturbed⟩
    | overwritten found revision _ =>
      exact ⟨_, after, _, ended, undisturbed_of_revision revision inDir stores stores'
        (search.trans found) nofun⟩
    | deleted found _ revision =>
      exact ⟨_, after, _, ended, undisturbed_of_revision revision inDir stores stores'
        (search.trans found) nofun⟩
    | created makes absent encoded raw _ revision =>
      have missing := search.trans (absent_iff.mp absent)
      refine ⟨_, after, _, ended, undisturbed_of_revision revision inDir stores stores' missing
        fun ended => ?_⟩
      by_contra entries
      have zero := (look_rawEntry_eq_end (length_encode83Name encoded) raw).mp ended
      refine safe ⟨by rw [makes]; rfl, missing, ⟨_, encoded, zero⟩, by rwa [slots], fun isDir => ?_⟩
      exact fun isEmpty => outcome.free_of_made isDir (length_eq_zero_iff.mp isEmpty)

section

variable (flat : ∀ entry ∈ st.readDir unicode disk st.rootCluster, entry.isDir = false)
include flat

theorem LiveDir.eq_root {dir : Nat} (live : st.LiveDir unicode disk dir) :
    dir = st.rootCluster := by
  induction live with
  | root => rfl
  | child _ listed isDir _ ih =>
    rw [ih] at listed
    rw [flat _ listed] at isDir
    cases isDir

theorem cleanEnds_of_flat
    (clean : EndsClean (st.dirSlots disk (st.clusterChain disk st.rootCluster))) :
    st.CleanEnds unicode disk := by
  intro dir live
  rw [LiveDir.eq_root flat live]
  exact clean

end

/-- Two files are created and the first one is deleted, so that the first slot is vacant. -/
def vacatedFirst : List FileCall := [.writeFile 2 ['A'] [], .writeFile 2 ['B'] [], .delete 2 ['A']]

theorem vacatedFirst_reached : ∃ disk,
    Transition.run (FileCall.step (oneSector 1) .ascii 1) (oneSector 1).formatted vacatedFirst =
      some disk ∧
    (oneSector 1).WellFormed disk ∧ (oneSector 1).CleanEnds .ascii disk ∧
    (oneSector 1).readDir .ascii disk 2 = [⟨['b'], false, 0, 0, 2, 32⟩] := by
  have spares : Transition.Meets (FileCall.step (oneSector 1) .ascii 1)
      (fun disk call => call.SparesDirs (oneSector 1) .ascii disk) (oneSector 1).formatted
        vacatedFirst := by decide +kernel
  obtain ⟨disk, reached, formed⟩ := Transition.run_total
    (fun disk call formed met => WellFormed.step formed (le_refl 1) met.1 met.2)
    (oneSector_wellFormed (by decide) (by decide)) ((meets_live (by decide) _).and spares)
  have seen : ∀ disk ∈ Transition.run (FileCall.step (oneSector 1) .ascii 1)
      (oneSector 1).formatted vacatedFirst,
        (oneSector 1).readDir .ascii disk 2 = [⟨['b'], false, 0, 0, 2, 32⟩] ∧
        EndsClean ((oneSector 1).dirSlots disk ((oneSector 1).clusterChain disk 2)) := by
    decide +kernel
  obtain ⟨root, clean⟩ := seen disk reached
  refine ⟨disk, reached, formed, cleanEnds_of_flat (fun entry listed => ?_) clean, root⟩
  rw [show (oneSector 1).rootCluster = 2 from rfl, root, mem_singleton] at listed
  rw [listed]

/-- A third file takes the first slot, and the second one stays. -/
theorem call_leaves_others_iff_vacated : ∃ disk after named,
    Transition.run (FileCall.step (oneSector 1) .ascii 1) (oneSector 1).formatted vacatedFirst =
      some disk ∧
    (oneSector 1).writeFile .ascii 1 disk 2 ['C'] [] = some (true, after) ∧
    (oneSector 1).Undisturbed .ascii disk after 2 ['C'] named := by
  obtain ⟨disk, reached, formed, clean, _⟩ := vacatedFirst_reached
  have nonzero : ∀ short ∈ Unicode.ascii.encode83Name ['C'], short.getD 0 0 ≠ 0x00 := by
    decide +kernel
  have safe : ¬ (FileCall.writeFile 2 ['C'] []).Truncates (oneSector 1) .ascii disk := by
    rintro ⟨_, _, ⟨short, encoded, zero⟩, _⟩
    exact nonzero short encoded zero
  obtain ⟨ok, after, named, ended, undisturbed⟩ :=
    (call_leaves_others_iff formed clean .root (le_refl 1)).mpr safe
  have succeeds : ∀ disk ∈ Transition.run (FileCall.step (oneSector 1) .ascii 1)
      (oneSector 1).formatted vacatedFirst,
        ∀ result ∈ (oneSector 1).writeFile .ascii 1 disk 2 ['C'] [], result.1 = true := by
    decide +kernel
  obtain rfl := succeeds disk reached _ ended
  exact ⟨disk, after, named, reached, ended, undisturbed⟩

/-- A file whose name starts with a zero byte takes the first slot, and the other file is gone. -/
theorem zero_byte_name_hides_others : ∃ disk after,
    Transition.run (FileCall.step (oneSector 1) .ascii 1) (oneSector 1).formatted vacatedFirst =
      some disk ∧
    (oneSector 1).WellFormed disk ∧ (oneSector 1).CleanEnds .ascii disk ∧
    (oneSector 1).writeFile .ascii 1 disk 2 [Char.ofNat 0] [] = some (true, after) ∧
    ∀ named, ¬ (oneSector 1).Undisturbed .ascii disk after 2 [Char.ofNat 0] named := by
  obtain ⟨disk, reached, formed, clean, root⟩ := vacatedFirst_reached
  have seen : ∀ disk ∈ Transition.run (FileCall.step (oneSector 1) .ascii 1)
      (oneSector 1).formatted vacatedFirst,
        ∃ result ∈ (oneSector 1).writeFile .ascii 1 disk 2 [Char.ofNat 0] [],
          result.1 = true ∧ (oneSector 1).readDir .ascii result.2 2 = [] := by
    decide +kernel
  obtain ⟨⟨ok, after⟩, ended, rfl, hidden⟩ := seen disk reached
  refine ⟨disk, after, reached, formed, clean, ended, fun named undisturbed => ?_⟩
  have missing : (oneSector 1).findEntry .ascii disk 2 [Char.ofNat 0] = none := by
    rw [findEntry, root]
    decide +kernel
  have differ := undisturbed.fresh missing _ ⟨2, .root, by rw [root]; exact .head _⟩
  have same := undisturbed.listings 2 .root
  rw [root, hidden] at same
  exact filter_eq_nil_iff.mp same.symm _ mem_cons_self (decide_eq_true differ)

end Fat32State

end CantayaOS.Storage
