import CantayaOS.Storage.Frame

/-!
# Names stay distinct

Before an entry is created the driver looks for its name, but the entry is
listed under what the 8.3 form, or a leftover long name, makes of it.  Names
stay distinct along runs in which no new entry is listed under a name that is
there already, no short name starts with the end mark, and no file is written
over a directory.
-/

namespace CantayaOS.Storage

open Lib List

/-- No two entries have names that are equal ignoring case. -/
def Distinct (unicode : Unicode) (entries : List DirEntry) : Prop :=
  entries.Pairwise fun first second => unicode.sameName first.name second.name = false

instance (unicode : Unicode) (entries : List DirEntry) : Decidable (Distinct unicode entries) :=
  inferInstanceAs (Decidable (entries.Pairwise _))

/-- No live directory lists two entries whose names are equal ignoring case. -/
def Fat32State.DistinctNames (st : Fat32State) (unicode : Unicode) (disk : Disk) : Prop :=
  ∀ dir, st.LiveDir unicode disk dir → Distinct unicode (st.readDir unicode disk dir)

/--
If the call enters a new entry, its short name does not start with the end
mark, and it is not listed under a name that is there already.
-/
def FileCall.KeepsNames (st : Fat32State) (unicode : Unicode) (disk : Disk) (call : FileCall) :
    Prop :=
  call.makes.isSome = true → st.findEntry unicode disk call.dir call.name = none →
    ∀ short ∈ unicode.encode83Name call.name, short.getD 0 0 ≠ 0x00 ∧
      (short.getD 0 0 = 0xE5 ∨ ∀ entry ∈ st.readDir unicode disk call.dir,
        unicode.sameName entry.name (unicode.listedAs
          (unicode.partsBefore (st.dirSlots disk (st.clusterChain disk call.dir))) short) = false)

instance (st : Fat32State) (unicode : Unicode) (disk : Disk) (call : FileCall) :
    Decidable (call.KeepsNames st unicode disk) :=
  inferInstanceAs (Decidable (_ → _ → ∀ short ∈ unicode.encode83Name call.name, _))

namespace Fat32State

variable {st : Fat32State} {unicode : Unicode} {disk after : Disk} {vol vol' : Volume}
  {table : Table} {owner : Owner} {clusters : List Nat} {start dir other : Nat} {loc : Loc}
  {front behind : List DirEntry} {former : Option DirEntry} {sight : Sight} {entry : DirEntry}
  {call : FileCall} {ok : Bool} {fuel : Nat}

/-! ## Live directories after a call -/

theorem live_of_same (same : ∀ dir, st.LiveDir unicode disk dir →
      st.readDir unicode after dir = st.readDir unicode disk dir)
    (live : st.LiveDir unicode after dir) : st.LiveDir unicode disk dir := by
  induction live with
  | root => exact .root
  | child _ listed isDir _ ih =>
    rw [same _ ih] at listed
    exact .child ih listed isDir nofun

theorem sameName_symm {first second : List Char} (differ : unicode.sameName first second = false) :
    unicode.sameName second first = false := by
  unfold Unicode.sameName at differ ⊢
  rw [decide_eq_false_iff_not] at differ ⊢
  exact fun same => differ same.symm

/-- A revised listing has distinct names if the new entry does not clash. -/
theorem distinct_reveal (fresh : ∀ entry, sight = .entry entry → ∀ other ∈ front ++ behind,
      unicode.sameName other.name entry.name = false)
    (distinct : Distinct unicode (front ++ former.toList ++ behind)) :
    Distinct unicode (front ++ sight.reveal behind) := by
  have around : Distinct unicode (front ++ behind) := by
    refine distinct.sublist ?_
    rw [append_assoc]
    exact (sublist_append_right _ _).append_left front
  cases sees : sight with
  | endOfDir => exact around.sublist ((nil_sublist _).append_left front)
  | passed parts => exact around
  | entry found =>
    obtain ⟨early, late, cross⟩ := pairwise_append.mp around
    refine pairwise_append.mpr ⟨early, pairwise_cons.mpr ⟨fun other member => ?_, late⟩, ?_⟩
    · exact sameName_symm (fresh found sees other (mem_append_right _ member))
    · intro first inFront second member
      rcases mem_cons.mp member with rfl | later
      · exact fresh second sees first (mem_append_left _ inFront)
      · exact cross first inFront second later

def Tidy (st : Fat32State) (unicode : Unicode) (disk after : Disk) (dir : Nat) : Prop :=
  st.LiveDir unicode disk dir ∧
      (EndsClean (st.dirSlots disk (st.clusterChain disk dir)) →
        EndsClean (st.dirSlots after (st.clusterChain after dir))) ∧
      (Distinct unicode (st.readDir unicode disk dir) →
        Distinct unicode (st.readDir unicode after dir)) ∨
    st.readDir unicode after dir = [] ∧ EndsClean (st.dirSlots after (st.clusterChain after dir))

theorem SameDir.tidy (same : st.SameDir unicode disk after dir)
    (live : st.LiveDir unicode disk dir) : st.Tidy unicode disk after dir :=
  .inl ⟨live, same.slots ▸ id, same.listing ▸ id⟩

/-- The live directories after a revision, if the new entry brings nothing unwanted. -/
theorem Revision.tidy
    (revision : st.Revision unicode vol table start clusters vol' loc front former sight behind)
    (inDir : st.InDir vol table owner clusters start) (stores : st.Stores disk vol)
    (stores' : st.Stores after vol') (goesOn : sight ≠ .endOfDir)
    (fresh : ∀ entry, sight = .entry entry →
      Distinct unicode (front ++ former.toList ++ behind) →
      ∀ other ∈ front ++ behind, unicode.sameName other.name entry.name = false)
    (inside : ∀ entry, sight = .entry entry → entry.isDir = true →
      ∃ own, st.Chain vol' entry.cluster own ∧ st.listing unicode vol' own = [] ∧
        EndsClean (st.slots vol' own))
    (live : st.LiveDir unicode after other) : st.Tidy unicode disk after other := by
  have empty : ∀ entry, sight = .entry entry → entry.isDir = true →
      st.readDir unicode after entry.cluster = [] ∧
        EndsClean (st.dirSlots after (st.clusterChain after entry.cluster)) := by
    intro entry sees isDir
    obtain ⟨own, chain, listing, clean⟩ := inside entry sees isDir
    rw [stores'.readDir chain, stores'.slots_eq chain]
    exact ⟨listing, clean⟩
  obtain reached | ⟨entry, sees, isDir, rfl⟩ := revision.reached_before inDir stores stores'
    (fun entry sees isDir => (empty entry sees isDir).1) live
  · by_cases here : other = start
    · subst here
      obtain ⟨before, after'⟩ := revision.readDir_self inDir stores stores'
      obtain ⟨clusters', chain, _, clean⟩ := revision.after
      refine .inl ⟨reached.live, fun ends => ?_, fun distinct => ?_⟩
      · rw [stores'.slots_eq chain]
        rw [stores.slots_eq inDir.chain] at ends
        exact clean ends goesOn
      · rw [before] at distinct
        rw [after']
        exact distinct_reveal (fun entry sees => fresh entry sees distinct) distinct
    · exact (revision.sameDir inDir stores stores' reached here).tidy reached.live
  · exact .inr (empty entry sees isDir)

/-- Every live directory after a call is tidy, under the conditions on the call. -/
theorem Effect.tidy (effect : st.Effect unicode vol table call.dir clusters call ok vol')
    (inDir : st.InDir vol table owner clusters call.dir) (stores : st.Stores disk vol)
    (stores' : st.Stores after vol') (spares : call.SparesDirs st unicode disk)
    (keeps : call.KeepsNames st unicode disk) (live : st.LiveDir unicode after other) :
    st.Tidy unicode disk after other := by
  cases effect with
  | failed untouched =>
    have same {dir : Nat} (live : st.LiveDir unicode disk dir) :=
      inDir.sameDir_of_spares stores stores' untouched live
    have before := live_of_same (fun _ live => (same live).listing) live
    exact (same before).tidy before
  | overwritten found revision kept =>
    rename_i dir name data loc front behind entry entry'
    have isFile : entry'.isDir = false :=
      kept.2.trans (spares entry ((stores.findEntry inDir.chain).trans found))
    refine revision.tidy inDir stores stores' nofun (fun _ sees distinct other around => ?_)
      (fun _ sees isDir => ?_) live
    · cases sees
      rw [kept.1]
      rw [append_assoc] at distinct
      obtain ⟨_, late, cross⟩ := pairwise_append.mp distinct
      rcases mem_append.mp around with early | later
      · exact cross other early entry (.head _)
      · exact sameName_symm ((pairwise_cons.mp late).1 other later)
    · cases sees
      rw [isFile] at isDir
      cases isDir
  | created makes absent encoded raw inside revision =>
    have whole := length_encode83Name encoded
    obtain ⟨goesOn, clear⟩ := keeps (by rw [makes]; rfl)
      ((stores.findEntry inDir.chain).trans (absent_iff.mp absent)) _ encoded
    rw [stores.slots_eq inDir.chain, stores.readDir inDir.chain, revision.before,
      Option.toList_none, append_nil] at clear
    refine revision.tidy inDir stores stores'
      (fun ended => goesOn ((look_rawEntry_eq_end whole raw).mp ended))
      (fun entry sees _ other around => ?_) (fun entry sees isDir => ?_) live
    · rw [look_of_rawEntry whole raw, if_neg goesOn] at sees
      split_ifs at sees with hidden
      cases sees
      exact (clear.resolve_left fun deleted => hidden (.inl deleted)) other around
    · obtain ⟨_, _, rfl⟩ := Unicode.look_eq_entry sees
      refine inside ?_
      rw [← isDir_entryAttr (Slot.fields_of_rawEntry whole raw).2.2.1]
      exact isDir
  | deleted found empty revision =>
    exact revision.tidy inDir stores stores' nofun (fun _ sees => by cases sees)
      (fun _ sees => by cases sees) live

structure Orderly (st : Fat32State) (unicode : Unicode) (disk : Disk) : Prop where
  formed : st.WellFormed disk
  clean : st.CleanEnds unicode disk

/-- The step of a run: the conditions on the call keep the volume orderly and names distinct. -/
theorem Orderly.step (orderly : st.Orderly unicode disk) (enough : st.totalClusters ≤ fuel)
    (live : st.LiveDir unicode disk call.dir) (spares : call.SparesDirs st unicode disk)
    (keeps : call.KeepsNames st unicode disk) :
    ∃ next, call.step st unicode fuel disk = some next ∧ st.Orderly unicode next ∧
      (st.DistinctNames unicode disk → st.DistinctNames unicode next) := by
  obtain ⟨table, owner, clusters, ok, after, vol', inDir, ended, stores', outcome⟩ :=
    orderly.formed.call_outcome live enough
  have stores := orderly.formed.stores
  have clean := orderly.clean call.dir live
  rw [stores.slots_eq inDir.chain] at clean
  have tidy : ∀ dir, st.LiveDir unicode after dir → st.Tidy unicode disk after dir := fun dir =>
    (outcome.effect inDir stores.geometry clean).tidy inDir stores stores' spares keeps
  refine ⟨after, ?_, ⟨stores'.wellFormed (outcome.laidOut stores inDir spares), ?_⟩, ?_⟩
  · unfold FileCall.step
    rw [ended]
    rfl
  · intro dir live
    obtain ⟨before, ends, _⟩ | ⟨_, ends⟩ := tidy dir live
    · exact ends (orderly.clean dir before)
    · exact ends
  · intro distinct dir live
    obtain ⟨before, _, kept⟩ | ⟨empty, _⟩ := tidy dir live
    · exact kept (distinct dir before)
    · rw [empty]
      exact List.Pairwise.nil

/-- Names stay distinct along every run of calls on live directories that meets the conditions. -/
theorem names_distinct_along_runs (formed : st.WellFormed disk) (clean : st.CleanEnds unicode disk)
    (distinct : st.DistinctNames unicode disk) (enough : st.totalClusters ≤ fuel)
    (calls : List FileCall)
    (live : Transition.Meets (FileCall.step st unicode fuel)
      (fun disk call => st.LiveDir unicode disk call.dir) disk calls)
    (careful : Transition.Meets (FileCall.step st unicode fuel)
      (fun disk call => call.SparesDirs st unicode disk ∧ call.KeepsNames st unicode disk)
        disk calls) :
    ∃ last, Transition.run (FileCall.step st unicode fuel) disk calls = some last ∧
      st.DistinctNames unicode last := by
  obtain ⟨last, reached, _, distinct⟩ := Transition.run_total
    (fun disk call (kept : st.Orderly unicode disk ∧ st.DistinctNames unicode disk) met => by
      obtain ⟨next, stepped, orderly, keeps⟩ := kept.1.step enough met.1 met.2.1 met.2.2
      exact ⟨next, stepped, orderly, keeps kept.2⟩) ⟨⟨formed, clean⟩, distinct⟩ (live.and careful)
  exact ⟨last, reached, distinct⟩

theorem distinctNames_of_empty (empty : st.readDir unicode disk st.rootCluster = []) :
    st.DistinctNames unicode disk := by
  intro dir live
  rw [LiveDir.eq_root (by rw [empty]; nofun) live, empty]
  exact List.Pairwise.nil

theorem names_distinct_along_runs_created : ∃ last,
    Transition.run (FileCall.step (oneSector 3) .ascii 3) (oneSector 3).formatted
      [.mkdir 2 ['D'], .writeFile 2 ['A'] [1], .writeFile 2 ['a'] [], .delete 2 ['d']] =
        some last ∧
      (oneSector 3).DistinctNames .ascii last :=
  names_distinct_along_runs (oneSector_wellFormed (by decide) (by decide))
    (cleanEnds_of_flat (by decide +kernel) (by decide +kernel))
    (distinctNames_of_empty (by decide +kernel)) (le_refl 3) _ (meets_live (by decide) _)
    (by decide +kernel)

/-- The name with a trailing dot is looked for, but the entry is listed without it. -/
theorem trailing_dot_duplicates_name :
    (oneSector 1).WellFormed (oneSector 1).formatted ∧
    (oneSector 1).CleanEnds .ascii (oneSector 1).formatted ∧
    (oneSector 1).DistinctNames .ascii (oneSector 1).formatted ∧
    ∃ last, Transition.run (FileCall.step (oneSector 1) .ascii 1) (oneSector 1).formatted
        [.writeFile 2 ['a'] [], .writeFile 2 ['a', '.'] []] = some last ∧
      ¬ (oneSector 1).DistinctNames .ascii last := by
  refine ⟨oneSector_wellFormed (by decide) (by decide),
    cleanEnds_of_flat (by decide +kernel) (by decide +kernel),
    distinctNames_of_empty (by decide +kernel), ?_⟩
  refine ⟨_, (Option.some_get (by decide +kernel)).symm, fun distinct => ?_⟩
  exact absurd (distinct 2 .root) (by decide +kernel)

end Fat32State

end CantayaOS.Storage
