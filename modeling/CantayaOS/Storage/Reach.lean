import CantayaOS.Lib.Transition
import CantayaOS.Storage.Ownership

/-!
# Live directories and runs of file operations

A directory is live when the driver reaches it by reading directories from the
root on.  On a well-formed volume every live directory is one of the layout,
so an operation on it has one of the known outcomes and leaves a well-formed
volume, unless it writes a file over a directory.
-/

namespace CantayaOS.Storage

open Lib List

def DirEntry.place (entry : DirEntry) : Nat × Nat := (entry.entrySector, entry.entryOffset)

namespace Fat32State

/-- The directory can be reached from the root without passing the slot. -/
inductive Reaches (st : Fat32State) (unicode : Unicode) (disk : Disk) (avoid : Option (Nat × Nat)) :
    Nat → Prop
  | root : Reaches st unicode disk avoid st.rootCluster
  | child {dir : Nat} {entry : DirEntry} (parent : Reaches st unicode disk avoid dir)
      (listed : entry ∈ st.readDir unicode disk dir) (isDir : entry.isDir = true)
      (passed : some entry.place ≠ avoid) : Reaches st unicode disk avoid entry.cluster

/-- The cluster is where a directory starts that can be reached from the root. -/
abbrev LiveDir (st : Fat32State) (unicode : Unicode) (disk : Disk) (dir : Nat) : Prop :=
  st.Reaches unicode disk none dir

def Listed (st : Fat32State) (unicode : Unicode) (disk : Disk) (entry : DirEntry) : Prop :=
  ∃ dir, st.LiveDir unicode disk dir ∧ entry ∈ st.readDir unicode disk dir

/-- The device has no errors and every chain of the volume has one owner. -/
structure WellFormed (st : Fat32State) (disk : Disk) : Prop where
  geometry : st.Geometry
  errorFree : st.ErrorFree disk
  laidOut : st.LaidOut (st.volume disk)

variable {st : Fat32State} {unicode : Unicode} {disk : Disk} {vol : Volume} {table : Table}
  {owner : Owner} {clusters : List Nat} {dir start : Nat} {loc : Loc} {entry : DirEntry}
  {avoid : Option (Nat × Nat)}

theorem WellFormed.stores (formed : st.WellFormed disk) : st.Stores disk (st.volume disk) :=
  ⟨formed.geometry, formed.errorFree, rfl⟩

theorem Stores.wellFormed (stores : st.Stores disk vol) (laidOut : st.LaidOut vol) :
    st.WellFormed disk :=
  ⟨stores.geometry, stores.errorFree, stores.volume_eq ▸ laidOut⟩

theorem Reaches.live (reached : st.Reaches unicode disk avoid dir) : st.LiveDir unicode disk dir := by
  induction reached with
  | root => exact .root
  | child _ listed isDir _ live => exact .child live listed isDir nofun

/-- The slot that a listed entry of a directory comes from. -/
structure At (st : Fat32State) (unicode : Unicode) (vol : Volume) (clusters : List Nat)
    (entry : DirEntry) (loc : Loc) : Prop where
  split : ∃ before behind pending, st.SplitAt unicode vol clusters before loc behind pending ∧
    unicode.look pending (st.slotAt vol loc) = .entry entry

theorem exists_at (listed : entry ∈ st.listing unicode vol clusters) :
    ∃ loc, st.At unicode vol clusters entry loc := by
  obtain ⟨front, back, shape⟩ := append_of_mem listed
  obtain ⟨before, loc, behind, pending, split, look, _⟩ := exists_split shape
  exact ⟨loc, before, behind, pending, split, look⟩

namespace At

section

variable (found : st.At unicode vol clusters entry loc)
include found

theorem mem : loc ∈ st.locs clusters := by
  obtain ⟨_, _, _, split, _⟩ := found.split
  exact split.mem

theorem entry_eq : ∃ name, entry = (st.slotAt vol loc).entry name := by
  obtain ⟨_, _, _, _, look⟩ := found.split
  exact ⟨_, (Unicode.look_eq_entry look).2.2⟩

theorem place_eq : entry.place = ((st.slotAt vol loc).sector, (st.slotAt vol loc).offset) := by
  obtain ⟨name, rfl⟩ := found.entry_eq
  rfl

end

end At

theorem InDir.exists_chain (inDir : st.InDir vol table owner clusters start)
    (found : st.At unicode vol clusters entry loc)
    (chained : entry.isDir = true ∨ 2 ≤ entry.cluster) :
    ∃ old, st.Chain vol entry.cluster old ∧ table (.slot loc) = some ⟨old, entry.isDir⟩ ∧
      old.Disjoint clusters := by
  obtain ⟨_, _, _, split, look⟩ := found.split
  obtain ⟨large, _⟩ := inDir.layout.owned inDir.owned rfl split look
  obtain ⟨old, chain, apart, owns⟩ := inDir.exists_old split look
  have large : 2 ≤ entry.cluster := by
    obtain ⟨name, rfl⟩ := found.entry_eq
    exact chained.elim large id
  rw [OldChain, if_pos large] at chain
  exact ⟨old, chain, owns large, apart⟩

/-- Every live directory is one of the layout. -/
theorem Layout.exists_inDir (layout : st.Layout vol table none) (idle : table .held = none)
    (stores : st.Stores disk vol) (reached : st.Reaches unicode disk avoid dir) :
    ∃ owner clusters, st.InDir vol table owner clusters dir ∧ ∀ loc, owner = .slot loc →
      some ((st.slotAt vol loc).sector, (st.slotAt vol loc).offset) ≠ avoid := by
  induction reached with
  | root =>
    obtain ⟨⟨clusters, _⟩, owned, rfl, head⟩ := layout.root
    exact ⟨.root, clusters, ⟨layout, idle, owned, head, nofun⟩, nofun⟩
  | child parent listed isDir passed ih =>
    obtain ⟨owner, clusters, inDir, _⟩ := ih
    rw [stores.readDir inDir.chain] at listed
    obtain ⟨loc, found⟩ := exists_at listed
    obtain ⟨old, chain, owned, apart⟩ := inDir.exists_chain found (.inl isDir)
    rw [isDir] at owned
    refine ⟨.slot loc, old, ⟨layout, idle, owned, chain.head?, ?_⟩, ?_⟩
    · rintro _ ⟨⟩ member
      exact apart member (mem_locs.mp found.mem).1
    · rintro _ ⟨⟩
      rwa [← found.place_eq]

end Fat32State

/-! ## Runs -/

inductive FileCall where
  | writeFile (dir : Nat) (name : List Char) (data : List UInt8)
  | mkdir (dir : Nat) (name : List Char)
  | delete (dir : Nat) (name : List Char)

namespace FileCall

def dir : FileCall → Nat
  | writeFile dir _ _ => dir
  | mkdir dir _ => dir
  | delete dir _ => dir

def name : FileCall → List Char
  | writeFile _ name _ => name
  | mkdir _ name => name
  | delete _ name => name

def apply (st : Fat32State) (unicode : Unicode) (fuel : Nat) (disk : Disk) :
    FileCall → Option (Bool × Disk)
  | writeFile dir name data => st.writeFile unicode fuel disk dir name data
  | mkdir dir name => some (st.mkdir unicode disk dir name)
  | delete dir name => st.delete unicode fuel disk dir name

def step (st : Fat32State) (unicode : Unicode) (fuel : Nat) (disk : Disk) (call : FileCall) :
    Option Disk :=
  (call.apply st unicode fuel disk).map Prod.snd

/-- The call does not write a file over a directory. -/
def SparesDirs (st : Fat32State) (unicode : Unicode) (disk : Disk) : FileCall → Prop
  | writeFile dir name _ =>
    ∀ entry ∈ st.findEntry unicode disk dir name, entry.isDir = false
  | _ => True

instance (st : Fat32State) (unicode : Unicode) (disk : Disk) (call : FileCall) :
    Decidable (call.SparesDirs st unicode disk) :=
  match call with
  | writeFile dir name _ => inferInstanceAs (Decidable
      (∀ entry ∈ st.findEntry unicode disk dir name, entry.isDir = false))
  | mkdir _ _ => isTrue trivial
  | delete _ _ => isTrue trivial

end FileCall

namespace Fat32State

inductive CallOutcome (st : Fat32State) (unicode : Unicode) (vol : Volume) (clusters : List Nat) :
    FileCall → Bool → Volume → Prop
  | wrote {dir : Nat} {name : List Char} {data : List UInt8} {ok : Bool} {vol' : Volume}
      (outcome : st.WriteOutcome unicode vol clusters name data ok vol') :
      CallOutcome st unicode vol clusters (.writeFile dir name data) ok vol'
  | made {dir : Nat} {name : List Char} {ok : Bool} {vol' : Volume}
      (outcome : st.MkdirOutcome unicode vol dir clusters name ok vol') :
      CallOutcome st unicode vol clusters (.mkdir dir name) ok vol'
  | deleted {dir : Nat} {name : List Char} {ok : Bool} {vol' : Volume}
      (outcome : st.DeleteOutcome unicode vol clusters name ok vol') :
      CallOutcome st unicode vol clusters (.delete dir name) ok vol'

variable {st : Fat32State} {unicode : Unicode} {disk : Disk} {vol vol' : Volume} {table : Table}
  {owner : Owner} {clusters : List Nat} {call : FileCall} {fuel : Nat}

/-- A call on a directory of the layout returns, with one of the outcomes. -/
theorem Stores.call_outcome (stores : st.Stores disk vol)
    (inDir : st.InDir vol table owner clusters call.dir) (enough : st.totalClusters ≤ fuel) :
    ∃ ok after vol', call.apply st unicode fuel disk = some (ok, after) ∧ st.Stores after vol' ∧
      st.CallOutcome unicode vol clusters call ok vol' := by
  cases call with
  | writeFile dir name data =>
    obtain ⟨ok, after, vol', ended, stores', outcome⟩ :=
      writeFile_outcome stores inDir enough name data
    exact ⟨ok, after, vol', ended, stores', .wrote outcome⟩
  | mkdir dir name =>
    obtain ⟨ok, after, vol', ended, stores', outcome⟩ := mkdir_outcome stores inDir name
    exact ⟨ok, after, vol', congrArg some ended, stores', .made outcome⟩
  | delete dir name =>
    obtain ⟨ok, after, vol', ended, stores', outcome⟩ := delete_outcome stores inDir enough name
    exact ⟨ok, after, vol', ended, stores', .deleted outcome⟩

/-- A call that does not write a file over a directory keeps the layout. -/
theorem CallOutcome.laidOut {ok : Bool} (outcome : st.CallOutcome unicode vol clusters call ok vol')
    (stores : st.Stores disk vol) (inDir : st.InDir vol table owner clusters call.dir)
    (spares : call.SparesDirs st unicode disk) : st.LaidOut vol' := by
  cases outcome with
  | wrote outcome =>
    refine inDir.writeFile_laidOut stores.geometry (fun entry found => spares entry ?_) outcome
    exact (stores.findEntry inDir.chain).trans found
  | made outcome => exact inDir.mkdir_laidOut stores.geometry outcome
  | deleted outcome => exact inDir.delete_laidOut outcome

/-- A call on a live directory of a well-formed volume returns, with one of the outcomes. -/
theorem WellFormed.call_outcome (formed : st.WellFormed disk) (live : st.LiveDir unicode disk call.dir)
    (enough : st.totalClusters ≤ fuel) :
    ∃ table owner clusters ok after vol', st.InDir (st.volume disk) table owner clusters call.dir ∧
      call.apply st unicode fuel disk = some (ok, after) ∧ st.Stores after vol' ∧
      st.CallOutcome unicode (st.volume disk) clusters call ok vol' := by
  obtain ⟨table, idle, layout⟩ := formed.laidOut
  obtain ⟨owner, clusters, inDir, _⟩ := layout.exists_inDir idle formed.stores live
  obtain ⟨ok, after, vol', ended, stores, outcome⟩ := formed.stores.call_outcome inDir enough
  exact ⟨table, owner, clusters, ok, after, vol', inDir, ended, stores, outcome⟩

/-- The step of a run: a call that spares directories returns and keeps the volume well-formed. -/
theorem WellFormed.step (formed : st.WellFormed disk) (enough : st.totalClusters ≤ fuel)
    (live : st.LiveDir unicode disk call.dir) (spares : call.SparesDirs st unicode disk) :
    ∃ next, call.step st unicode fuel disk = some next ∧ st.WellFormed next := by
  obtain ⟨table, owner, clusters, ok, after, vol', inDir, ended, stores, outcome⟩ :=
    formed.call_outcome live enough
  refine ⟨after, ?_, stores.wellFormed (outcome.laidOut formed.stores inDir spares)⟩
  unfold FileCall.step
  rw [ended]
  rfl

/--
Every entry that can be reached owns a chain that stays in the data area and
ends, none of its clusters is free, and no cluster belongs to two entries.
-/
structure SoundChains (st : Fat32State) (unicode : Unicode) (disk : Disk) : Prop where
  chain : ∀ entry, st.Listed unicode disk entry → entry.isDir = true ∨ 2 ≤ entry.cluster →
    ∃ clusters, st.Chain (st.volume disk) entry.cluster clusters ∧
      ∀ cluster ∈ clusters, st.fatRead disk cluster ≠ fatFree
  apart : ∀ entry other clusters clusters', st.Listed unicode disk entry →
    st.Listed unicode disk other → entry.place ≠ other.place →
    st.Chain (st.volume disk) entry.cluster clusters →
    st.Chain (st.volume disk) other.cluster clusters' → clusters.Disjoint clusters'

theorem WellFormed.soundChains (formed : st.WellFormed disk) : st.SoundChains unicode disk := by
  obtain ⟨table, idle, layout⟩ := formed.laidOut
  have owned : ∀ {entry : DirEntry}, st.Listed unicode disk entry →
      entry.isDir = true ∨ 2 ≤ entry.cluster → ∃ loc clusters,
        entry.place = ((st.slotAt (st.volume disk) loc).sector,
          (st.slotAt (st.volume disk) loc).offset) ∧
        st.Chain (st.volume disk) entry.cluster clusters ∧
        table (.slot loc) = some ⟨clusters, entry.isDir⟩ := by
    rintro entry ⟨dir, live, listed⟩ chained
    obtain ⟨owner, clusters, inDir, _⟩ := layout.exists_inDir idle formed.stores live
    rw [formed.stores.readDir inDir.chain] at listed
    obtain ⟨loc, found⟩ := exists_at listed
    obtain ⟨old, chain, owns, _⟩ := inDir.exists_chain found chained
    exact ⟨loc, old, found.place_eq, chain, owns⟩
  constructor
  · intro entry listed chained
    obtain ⟨loc, clusters, _, chain, _⟩ := owned listed chained
    refine ⟨clusters, chain, fun cluster member => ?_⟩
    rw [formed.stores.fatRead (chain.valid cluster member)]
    exact chain.fat_ne_free member
  · intro entry other clusters clusters' listed listed' differ chain chain'
    obtain ⟨loc, known, place, same, owns⟩ := owned listed (.inr chain.start_valid.1)
    obtain ⟨loc', known', place', same', owns'⟩ := owned listed' (.inr chain'.start_valid.1)
    rw [chain.unique same, chain'.unique same']
    refine layout.apart _ _ _ _ (fun equal => differ ?_) owns owns'
    cases equal
    rw [place, place']

/-- The chains stay sound along every run of calls on live directories that spare directories. -/
theorem chains_sound_along_runs (formed : st.WellFormed disk) (enough : st.totalClusters ≤ fuel)
    (calls : List FileCall)
    (live : Transition.Meets (FileCall.step st unicode fuel)
      (fun disk call => st.LiveDir unicode disk call.dir) disk calls)
    (spares : Transition.Meets (FileCall.step st unicode fuel)
      (fun disk call => call.SparesDirs st unicode disk) disk calls) :
    ∃ last, Transition.run (FileCall.step st unicode fuel) disk calls = some last ∧
      st.SoundChains unicode last := by
  obtain ⟨last, reached, formed⟩ := Transition.run_total
    (fun disk call formed met => WellFormed.step formed enough met.1 met.2) formed (live.and spares)
  exact ⟨last, reached, formed.soundChains⟩

/-! ## Formatted volumes -/

/-- A device that holds nothing but an empty root directory of one cluster. -/
def formatted (st : Fat32State) : Disk where
  bytes := Bytes.overlay (fun _ => 0) (st.fatAddr 0 st.rootCluster) [0xFF, 0xFF, 0xFF, 0x0F]
  readable _ := true
  writable _ := true

/-- A volume with one copy of the table in one sector and clusters of one sector. -/
def oneSector (clusters : Nat) : Fat32State where
  sectorsPerCluster := 1
  reservedSectors := 1
  numFats := 1
  sectorsPerFat := 1
  rootCluster := 2
  dataStartSector := 2
  totalClusters := clusters

theorem laidOut_of_empty_root (valid : st.IsCluster st.rootCluster)
    (ended : fatEoc ≤ vol.fat st.rootCluster) (zeros : vol.data st.rootCluster = fun _ => 0) :
    st.LaidOut vol := by
  have chain : st.Chain vol st.rootCluster [st.rootCluster] := by
    refine ⟨⟨rfl, if_pos ended⟩, fun cluster member => ?_⟩
    exact mem_singleton.mp member ▸ valid
  have owned : ∀ {owner node}, (if owner = Owner.root then some (Node.mk [st.rootCluster] true)
      else none) = some node → owner = .root ∧ node = ⟨[st.rootCluster], true⟩ := by
    intro owner node known
    split_ifs at known with isRoot
    cases known
    exact ⟨isRoot, rfl⟩
  refine ⟨fun owner => if owner = .root then some ⟨[st.rootCluster], true⟩ else none, rfl,
    ⟨_, rfl, rfl, rfl⟩, ?_, ?_, ?_, ?_⟩
  · intro owner node known
    obtain ⟨_, rfl⟩ := owned known
    exact ⟨_, chain⟩
  · intro owner other node node' differ known known'
    exact absurd ((owned known).1.trans (owned known').1.symm) differ
  · intro owner node differ known
    exact absurd (owned known).1 differ
  · intro owner node known _ loc member _ short
    obtain ⟨_, rfl⟩ := owned known
    have inside := mem_singleton.mp (mem_locs.mp (mem_locs_of_entryLocs member)).1
    exact absurd (first_of_zeros (inside ▸ zeros)) short.inUse

theorem formatted_wellFormed (geometry : st.Geometry) (valid : st.IsCluster st.rootCluster) :
    st.WellFormed st.formatted := by
  have errorFree : st.ErrorFree st.formatted := ⟨fun _ _ => rfl, fun _ _ => rfl⟩
  refine ⟨geometry, errorFree, laidOut_of_empty_root valid ?_ ?_⟩
  · have word : raw st.formatted (st.entryWord 0 st.rootCluster) = 0x0FFFFFFF := by
      have written := Bytes.window_overlay_self (fun _ => 0) (st.fatAddr 0 st.rootCluster)
        [0xFF, 0xFF, 0xFF, 0x0F]
      rw [fatAddr_eq] at written
      rw [raw, formatted, fatAddr_eq]
      exact (congrArg Bytes.fromLe written).trans (by decide)
    unfold volume
    dsimp only
    rw [if_pos valid, fatRead_eq geometry errorFree valid, word]
    decide
  · funext offset
    have below := geometry.entryWord_lt geometry.fats_pos (geometry.entry_lt valid)
    have above := st.dataStart_le_dataAddr st.rootCluster
    unfold volume
    dsimp only
    split
    next =>
      change Bytes.overlay (fun _ => 0) _ _ _ = 0
      refine Bytes.overlay_of_not_mem (.inr ?_)
      change st.fatAddr 0 st.rootCluster + 4 ≤ st.dataAddr st.rootCluster + offset
      rw [fatAddr_eq]
      omega
    next => rfl

theorem oneSector_geometry {clusters : Nat} (few : clusters ≤ 126) : (oneSector clusters).Geometry := by
  refine ⟨one_pos, one_pos, ?_, le_refl 2, ?_⟩
  · change (clusters + 2) * 4 ≤ 1 * 512
    omega
  · change clusters + 2 ≤ fatBad
    unfold fatBad
    omega

theorem oneSector_wellFormed {clusters : Nat} (positive : 0 < clusters) (few : clusters ≤ 126) :
    (oneSector clusters).WellFormed (oneSector clusters).formatted := by
  refine formatted_wellFormed (oneSector_geometry few) ⟨le_refl 2, ?_⟩
  change 2 < clusters + 2
  omega

end Fat32State

theorem eq_dot_of_toLower {char : Char} (lower : char.toLower = '.') : char = '.' := by
  unfold Char.toLower at lower
  split at lower
  · rename_i upper
    have low : 65 ≤ char.toNat := UInt32.le_iff_toNat_le.mp upper.1
    have high : char.toNat ≤ 90 := UInt32.le_iff_toNat_le.mp upper.2
    have shifted : (char.toNat + 32) % 2 ^ 32 = 46 := congrArg Char.toNat lower
    omega
  · exact lower

/-- Case mapping and whitespace of ASCII characters. -/
def Unicode.ascii : Unicode where
  toLowercase := List.map Char.toLower
  toUppercase := List.map Char.toUpper
  isWhitespace := Char.isWhitespace
  lower_dot := by decide
  lower_dotdot := by decide
  lower_only := by
    rintro name (lower | lower)
    · obtain ⟨first, rfl, same⟩ := map_eq_singleton_iff.mp lower
      rw [lower, eq_dot_of_toLower same]
    · obtain ⟨first, rest, rfl, same, later⟩ := map_eq_cons_iff.mp lower
      obtain ⟨second, rfl, same'⟩ := map_eq_singleton_iff.mp later
      rw [lower, eq_dot_of_toLower same, eq_dot_of_toLower same']
  space := by decide
  dot := by decide

namespace Fat32State

/-- Calls in the root directory name a live directory wherever they are made. -/
theorem meets_live {st : Fat32State} {unicode : Unicode} {fuel : Nat} {calls : List FileCall}
    (inRoot : ∀ call ∈ calls, call.dir = st.rootCluster) (disk : Disk) :
    Transition.Meets (FileCall.step st unicode fuel)
      (fun disk call => st.LiveDir unicode disk call.dir) disk calls := by
  refine Transition.meets_of_forall (fun call member disk => ?_) disk
  rw [inRoot call member]
  exact .root

theorem chains_sound_along_runs_created : ∃ last,
    Transition.run (FileCall.step (oneSector 3) .ascii 3) (oneSector 3).formatted
      [.mkdir 2 ['D'], .writeFile 2 ['A'] [1, 2], .delete 2 ['D']] = some last ∧
      (oneSector 3).SoundChains .ascii last :=
  chains_sound_along_runs (oneSector_wellFormed (by decide) (by decide)) (le_refl 3) _
    (meets_live (by decide) _) (by decide +kernel)

/-- A directory whose only entry claims cluster 4. -/
def strayDirectory : List UInt8 := rawEntry (List.replicate 11 0x58) attrArchive 4 1

/-- Written over a directory, the data becomes the directory, and its entry claims a free cluster. -/
theorem overwritten_directory_claims_free_cluster :
    (oneSector 3).WellFormed (oneSector 3).formatted ∧
    ∃ last, Transition.run (FileCall.step (oneSector 3) .ascii 3) (oneSector 3).formatted
        [.mkdir 2 ['D'], .writeFile 2 ['D'] strayDirectory] = some last ∧
      ¬ (oneSector 3).SoundChains .ascii last := by
  refine ⟨oneSector_wellFormed (by decide) (by decide), ?_⟩
  have seen : ∃ last ∈ Transition.run (FileCall.step (oneSector 3) .ascii 3) (oneSector 3).formatted
      [.mkdir 2 ['D'], .writeFile 2 ['D'] strayDirectory],
      ⟨['d'], true, 32, 3, 2, 0⟩ ∈ (oneSector 3).readDir .ascii last 2 ∧
      ⟨"xxxxxxxx.xxx".toList, false, 1, 4, 3, 0⟩ ∈ (oneSector 3).readDir .ascii last 3 ∧
      (oneSector 3).fatRead last 4 = 0 := by
    decide +kernel
  obtain ⟨last, reached, root, inner, free⟩ := seen
  refine ⟨last, reached, fun sound => ?_⟩
  obtain ⟨clusters, chain, used⟩ := sound.chain _ ⟨3, .child .root root rfl nofun, inner⟩
    (.inr (by decide))
  exact used 4 chain.start_mem free

end Fat32State

end CantayaOS.Storage
