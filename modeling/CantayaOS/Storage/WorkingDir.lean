import CantayaOS.Storage.Names
import CantayaOS.Storage.Vfs

/-!
# The current directory along a session

The layer keeps the cluster and the path of the current directory, and the
path should lead to the cluster.  A walk along the path gives `..` its usual
meaning, while resolution jumps to the root; the two agree when every name
behind a `..` is looked up at the root.
-/

namespace CantayaOS.Storage

open Lib VfsState Fat32State Path List Option FileCall

inductive VfsCall where
  | cd (path : List Char)
  | writeFile (path : List Char) (data : List UInt8)
  | mkdir (path : List Char)
  | delete (path : List Char)

structure Session where
  vfs : VfsState
  disk : Disk

namespace VfsCall

def apply (st : Fat32State) (unicode : Unicode) (fuel : Nat) (session : Session) :
    VfsCall → Option (Bool × Session)
  | cd path =>
    let (ok, vfs) := session.vfs.cd st unicode session.disk path
    some (ok, ⟨vfs, session.disk⟩)
  | writeFile path data =>
    (session.vfs.writeFile st unicode session.disk fuel path data).map fun (ok, disk) =>
      (ok, ⟨session.vfs, disk⟩)
  | mkdir path =>
    let (ok, disk) := session.vfs.mkdir st unicode session.disk path
    some (ok, ⟨session.vfs, disk⟩)
  | delete path =>
    (session.vfs.delete st unicode session.disk fuel path).map fun (ok, disk) =>
      (ok, ⟨session.vfs, disk⟩)

def step (st : Fat32State) (unicode : Unicode) (fuel : Nat) (session : Session) (call : VfsCall) :
    Option Session :=
  (call.apply st unicode fuel session).map Prod.snd

def fileCall (st : Fat32State) (unicode : Unicode) (session : Session) : VfsCall → Option FileCall
  | cd _ => none
  | writeFile path data =>
    (session.vfs.resolveParent st unicode session.disk path).map fun (dir, name) =>
      .writeFile dir name data
  | mkdir path =>
    (session.vfs.resolveParent st unicode session.disk path).map fun (dir, name) =>
      .mkdir dir name
  | delete path =>
    (session.vfs.resolveParent st unicode session.disk path).map fun (dir, name) =>
      .delete dir name

end VfsCall

/-- The directories that the path of the current directory leads through. -/
def Session.way (st : Fat32State) (unicode : Unicode) (session : Session) : List Nat :=
  Path.visits (st.childDir unicode session.disk) st.rootCluster [] (movesOf session.vfs.cwdPath)

/-- The current directory exists, and the rooted path leads to it. -/
structure Session.Sound (st : Fat32State) (unicode : Unicode) (session : Session) : Prop where
  live : st.LiveDir unicode session.disk session.vfs.cwdCluster
  rooted : session.vfs.cwdPath.head? = some '/'
  walked : ∃ trail, Path.walk (st.childDir unicode session.disk) st.rootCluster []
      (movesOf session.vfs.cwdPath) = some trail ∧
    trail.headD st.rootCluster = session.vfs.cwdCluster

/-- The call does not delete one of the directories. -/
def FileCall.SparesWay (st : Fat32State) (unicode : Unicode) (disk : Disk) (way : List Nat) :
    FileCall → Prop
  | delete dir name => ∀ entry ∈ st.findEntry unicode disk dir name,
      entry.isDir = true → entry.cluster ∉ way
  | _ => True

instance (st : Fat32State) (unicode : Unicode) (disk : Disk) (way : List Nat) (call : FileCall) :
    Decidable (call.SparesWay st unicode disk way) :=
  match call with
  | .delete dir name => inferInstanceAs (Decidable (∀ entry ∈ st.findEntry unicode disk dir name,
      entry.isDir = true → entry.cluster ∉ way))
  | .writeFile _ _ _ => isTrue trivial
  | .mkdir _ _ => isTrue trivial

/--
The path has a component unless it is empty or one slash, and wherever a name
follows a `..` the usual walk is back at the root.
-/
def VfsState.Followable (vfs : VfsState) (path : List Char) : Prop :=
  (components path = [] → path = [] ∨ path = ['/']) ∧
    Path.climbsToRoot
      (if path.head? = some '/' then 0 else Path.depth 0 (movesOf vfs.cwdPath)) true
      (movesOf path) = true

instance (vfs : VfsState) (path : List Char) : Decidable (vfs.Followable path) :=
  inferInstanceAs (Decidable (_ ∧ _))

/-- The conditions under which a call keeps the current directory sound. -/
def VfsCall.Careful (st : Fat32State) (unicode : Unicode) (session : Session) (call : VfsCall) :
    Prop :=
  (match call with
    | cd path => session.vfs.Followable path
    | _ => True) ∧
  ∀ file ∈ call.fileCall st unicode session,
    file.SparesDirs st unicode session.disk ∧ file.KeepsNames st unicode session.disk ∧
      file.SparesWay st unicode session.disk (session.way st unicode)

instance (st : Fat32State) (unicode : Unicode) (session : Session) (call : VfsCall) :
    Decidable (call.Careful st unicode session) :=
  have : Decidable (match call with
      | .cd path => session.vfs.Followable path
      | _ => True) :=
    match call with
    | .cd path => inferInstanceAs (Decidable (session.vfs.Followable path))
    | .writeFile _ _ => isTrue trivial
    | .mkdir _ => isTrue trivial
    | .delete _ => isTrue trivial
  inferInstanceAs (Decidable (_ ∧ _))

namespace Fat32State

variable {st : Fat32State} {unicode : Unicode} {disk after : Disk} {vol vol' : Volume}
  {table : Table} {owner : Owner} {clusters : List Nat} {start node next : Nat} {loc : Loc}
  {front behind : List DirEntry} {former : Option DirEntry} {sight : Sight} {entry : DirEntry}
  {call : FileCall} {ok : Bool} {name : List Char} {way : List Nat}

/-! ## Lookups after a call -/

theorem LiveDir.childDir (live : st.LiveDir unicode disk node)
    (found : st.childDir unicode disk node name = some next) : st.LiveDir unicode disk next := by
  obtain ⟨entry, search, isDir, rfl⟩ := childDir_eq_some.mp found
  exact .child live (mem_of_find?_eq_some search) isDir nofun

theorem childDir_congr (same : st.readDir unicode after node = st.readDir unicode disk node) :
    st.childDir unicode after node name = st.childDir unicode disk node name := by
  unfold childDir findEntry
  rw [same]

/-- An entry is still found first when another slot is revised without taking its name. -/
theorem find?_revised
    (found : (front ++ former.toList ++ behind).find? (unicode.named name) = some entry)
    (other : ∀ old ∈ former, old ≠ entry) (goesOn : sight ≠ .endOfDir)
    (taken : ∀ seen, sight = .entry seen → unicode.sameName seen.name name = true →
      ∃ old ∈ former, unicode.sameName old.name name = true) :
    (front ++ sight.reveal behind).find? (unicode.named name) = some entry := by
  rw [append_assoc, find?_append] at found
  rw [find?_append]
  cases early : front.find? (unicode.named name) with
  | some first =>
    rw [early] at found
    exact found
  | none =>
    rw [early, find?_append] at found
    have unmatched : ∀ old ∈ former, unicode.sameName old.name name = false := by
      intro old member
      cases named : unicode.sameName old.name name with
      | false => rfl
      | true =>
        rw [mem_def.mp member, toList_some, find?_cons, Unicode.named, named] at found
        exact absurd (Option.some.inj found) (other old member)
    have skipped : former.toList.find? (unicode.named name) = none := by
      refine find?_eq_none.mpr fun old member => ?_
      rw [Unicode.named, unmatched old (mem_toList.mp member)]
      decide
    rw [skipped] at found
    cases sees : sight with
    | endOfDir => exact absurd sees goesOn
    | passed parts => exact found
    | entry seen =>
      rw [Sight.reveal, find?_cons, Unicode.named]
      cases named : unicode.sameName seen.name name with
      | false => exact found
      | true =>
        obtain ⟨old, member, matched⟩ := taken seen sees named
        rw [unmatched old member] at matched
        cases matched

/-- A directory other than the one in the revised slot is still found. -/
theorem Revision.childDir_kept
    (revision : st.Revision unicode vol table start clusters vol' loc front former sight behind)
    (inDir : st.InDir vol table owner clusters start) (stores : st.Stores disk vol)
    (stores' : st.Stores after vol') (goesOn : sight ≠ .endOfDir)
    (taken : ∀ seen, sight = .entry seen → (∃ old ∈ former, seen.name = old.name) ∨
      ∀ other ∈ front ++ behind, unicode.sameName other.name seen.name = false)
    (apart : ∀ old ∈ former, old.isDir = true → old.cluster ≠ next)
    (reached : st.Reaches unicode disk (some (st.placeOf loc)) node)
    (found : st.childDir unicode disk node name = some next) :
    st.childDir unicode after node name = some next ∧
      st.Reaches unicode disk (some (st.placeOf loc)) next := by
  obtain ⟨entry, search, isDir, rfl⟩ := childDir_eq_some.mp found
  have listed := mem_of_find?_eq_some search
  by_cases here : node = start
  · subst here
    obtain ⟨before, after'⟩ := revision.readDir_self inDir stores stores'
    have other : ∀ old ∈ former, old ≠ entry := by
      rintro old member rfl
      exact apart old member isDir rfl
    unfold findEntry at search
    rw [before] at search listed
    have around : entry ∈ front ++ behind := by
      simp only [mem_append, mem_toList] at listed ⊢
      exact listed.imp_left fun early => early.resolve_right fun old => other entry old rfl
    refine ⟨childDir_eq_some.mpr ⟨entry, ?_, isDir, rfl⟩, ?_⟩
    · unfold findEntry
      rw [after']
      refine find?_revised search other goesOn fun seen sees named => ?_
      rcases taken seen sees with ⟨old, member, same⟩ | clear
      · exact ⟨old, member, same ▸ named⟩
      have differ := clear entry around
      have matched := find?_some search
      unfold Unicode.sameName at differ matched named
      rw [decide_eq_false_iff_not] at differ
      rw [decide_eq_true_eq] at matched named
      exact absurd (matched.trans named.symm) differ
    · refine .child reached ?_ isDir fun same => revision.others entry around (Option.some.inj same)
      rw [before]
      exact listed
  · refine ⟨?_, .child reached listed isDir fun same =>
      revision.place_ne_of_ne inDir stores reached.live here listed (Option.some.inj same)⟩
    rw [childDir_congr (revision.sameDir inDir stores stores' reached here).listing]
    exact found

/-- Under the conditions on a call, the directories on the way are still found. -/
theorem Effect.way_kept (effect : st.Effect unicode vol table call.dir clusters call ok vol')
    (inDir : st.InDir vol table owner clusters call.dir) (stores : st.Stores disk vol)
    (stores' : st.Stores after vol') (spares : call.SparesDirs st unicode disk)
    (keeps : call.KeepsNames st unicode disk) (leaves : call.SparesWay st unicode disk way) :
    ∃ avoid, ∀ node name next, st.Reaches unicode disk avoid node →
      st.childDir unicode disk node name = some next → next ∈ way →
        st.childDir unicode after node name = some next ∧ st.Reaches unicode disk avoid next := by
  cases effect with
  | failed untouched =>
    refine ⟨none, fun node name next live found _ => ⟨?_, LiveDir.childDir live found⟩⟩
    rw [childDir_congr (inDir.sameDir_of_spares stores stores' untouched live).listing]
    exact found
  | overwritten found revision kept =>
    rename_i dir title data loc front behind entry entry'
    refine ⟨some (st.placeOf loc), fun node name next reached lookup _ =>
      revision.childDir_kept inDir stores stores' nofun ?_ ?_ reached lookup⟩
    · rintro _ ⟨⟩
      exact .inl ⟨entry, rfl, kept.1⟩
    · rintro _ ⟨⟩ isDir
      rw [spares entry ((stores.findEntry inDir.chain).trans found)] at isDir
      cases isDir
  | created makes absent encoded raw inside revision =>
    have whole := length_encode83Name encoded
    obtain ⟨goesOn, clear⟩ := keeps (by rw [makes]; rfl)
      ((stores.findEntry inDir.chain).trans (absent_iff.mp absent)) _ encoded
    rw [stores.slots_eq inDir.chain, stores.readDir inDir.chain, revision.before, toList_none,
      append_nil] at clear
    refine ⟨_, fun node name next reached lookup _ => revision.childDir_kept inDir stores stores'
      (fun ended => goesOn ((look_rawEntry_eq_end whole raw).mp ended)) ?_ nofun reached lookup⟩
    intro seen sees
    rw [look_of_rawEntry whole raw, if_neg goesOn] at sees
    split_ifs at sees with hidden
    cases sees
    exact .inr (clear.resolve_left fun deleted => hidden (.inl deleted))
  | deleted found empty revision =>
    rename_i dir title loc front behind entry
    refine ⟨_, fun node name next reached lookup member =>
      revision.childDir_kept inDir stores stores' nofun nofun ?_ reached lookup⟩
    rintro _ ⟨⟩ isDir same
    exact leaves entry ((stores.findEntry inDir.chain).trans found) isDir (same ▸ member)

end Fat32State

variable {name part : List Char} {dir next : Nat}

namespace Unicode

variable {unicode : Unicode}

theorem not_isDots_of_mem_scan {parts : List (UInt8 × List Char)} {slots : List Slot}
    {entry : DirEntry} (listed : entry ∈ unicode.scan parts slots) : ¬ IsDots entry.name := by
  induction slots generalizing parts with
  | nil => cases listed
  | cons slot rest ih =>
    rw [scan] at listed
    cases sees : unicode.look parts slot with
    | endOfDir =>
      rw [sees] at listed
      cases listed
    | passed later =>
      rw [sees] at listed
      exact ih listed
    | entry found =>
      rw [sees] at listed
      rcases mem_cons.mp listed with rfl | later
      · obtain ⟨_, notDots, rfl⟩ := look_eq_entry sees
        exact notDots
      · exact ih later

/-- No directory lists an entry that is found under a dot name. -/
theorem not_sameName_dots {dots : List Char} (plain : ¬ IsDots name) (isDots : IsDots dots) :
    unicode.sameName name dots = false := by
  have lower : unicode.toLowercase dots = dots := by
    rcases isDots with rfl | rfl
    · exact unicode.lower_dot
    · exact unicode.lower_dotdot
  unfold sameName
  rw [decide_eq_false_iff_not, lower]
  intro same
  have itself : unicode.toLowercase name = name := by
    refine unicode.lower_only name ?_
    rw [same]
    exact isDots
  exact plain (by rwa [← itself, same])

end Unicode

namespace VfsState

variable {vfs : VfsState} {st : Fat32State} {unicode : Unicode} {disk : Disk} {current : Nat}
  {trail : List Nat} {entry : DirEntry} {dir : Nat} {path : List Char}

theorem not_isDots_of_childDir
    (found : st.childDir unicode disk dir part = some next) : ¬ Unicode.IsDots part := by
  intro isDots
  obtain ⟨entry, search, _⟩ := childDir_eq_some.mp found
  have plain := Unicode.not_isDots_of_mem_scan (mem_of_find?_eq_some search)
  have matched := find?_some search
  rw [Unicode.not_sameName_dots plain isDots] at matched
  cases matched

theorem moveOf_of_childDir
    (found : st.childDir unicode disk dir part = some next) : moveOf part = .down part := by
  obtain ⟨notDot, notDots⟩ := not_or.mp (not_isDots_of_childDir found)
  exact moveOf_name notDot notDots

theorem movesOf_newPath : movesOf (vfs.newPath path) =
    if path.head? = some '/' then movesOf path else movesOf vfs.cwdPath ++ movesOf path := by
  unfold movesOf newPath
  split_ifs with absolute trailing atRoot
  · rw [components_rdropWhile]
  · rfl
  · rw [atRoot]
    rfl
  · rw [components_append, map_append]

theorem head?_newPath (rooted : vfs.cwdPath.head? = some '/')
    (named : path.head? = some '/' → components path ≠ []) :
    (vfs.newPath path).head? = some '/' := by
  unfold newPath
  split_ifs with absolute trailing atRoot
  · obtain ⟨rest, shape⟩ := path.rdropWhile_prefix fun char => decide (char = '/')
    have kept := components_rdropWhile path
    cases trimmed : path.rdropWhile fun char => decide (char = '/') with
    | nil =>
      rw [trimmed] at kept
      exact absurd kept.symm (named absolute)
    | cons first others =>
      rw [trimmed] at shape
      rw [← shape] at absolute
      exact absolute
  · exact absolute
  · rfl
  · rw [head?_append, rooted]
    rfl

/-- Navigation walks, since no directory is found under a dot name. -/
theorem walk_of_navigate {parts : List (List Char)} {target : Nat}
    (navigated : navigate st unicode disk (trail.headD st.rootCluster) parts = some target) :
    ∃ trail', Path.walk (st.childDir unicode disk) st.rootCluster trail (parts.map moveOf) =
      some trail' ∧ trail'.headD st.rootCluster = target := by
  induction parts generalizing trail with
  | nil =>
    cases navigated
    exact ⟨trail, rfl, rfl⟩
  | cons part rest ih =>
    rw [navigate] at navigated
    split at navigated
    · cases navigated
    rename_i entry search
    split_ifs at navigated with isDir
    have found := childDir_eq_some.mpr ⟨entry, search, isDir, rfl⟩
    rw [map_cons, moveOf_of_childDir found, Path.walk, found]
    have deeper := navigated
    exact ih deeper

/-- A resolved directory is where the usual walk leads, if every name behind a `..` is at the root. -/
theorem walk_of_resolve
    (resolved : resolveFrom st unicode disk (trail.headD st.rootCluster) (components path) =
      some (dir, entry)) (isDir : entry.isDir = true)
    (climbs : climbsToRoot trail.length true (movesOf path) = true) :
    ∃ trail', Path.walk (st.childDir unicode disk) st.rootCluster trail (movesOf path) =
      some trail' ∧ trail'.headD st.rootCluster = entry.cluster := by
  unfold movesOf at climbs ⊢
  rcases eq_nil_or_concat (components path) with empty | ⟨parts, last, shape⟩
  · rw [empty] at resolved
    cases resolved
  rw [concat_eq_append] at shape
  rw [shape, resolveFrom_concat] at resolved
  split_ifs at resolved with dots
  rw [traverse_eq_jump] at resolved
  obtain ⟨current, jumped, lookup⟩ := bind_eq_some_iff.mp resolved
  obtain ⟨_, search, same⟩ := map_eq_some_iff.mp lookup
  cases same
  have found := childDir_eq_some.mpr ⟨entry, search, isDir, rfl⟩
  rw [shape, map_append, map_singleton, moveOf_of_childDir found] at climbs ⊢
  obtain ⟨trail', walked, top⟩ := walk_of_jump jumped climbs fun _ => rfl
  refine ⟨entry.cluster :: trail', ?_, rfl⟩
  rw [walk_append, walked, bind_some, Path.walk, top, found]
  rfl

/-- The path that is stored for a resolved directory leads there. -/
theorem walk_newPath (followable : vfs.Followable path)
    (walked : Path.walk (st.childDir unicode disk) st.rootCluster [] (movesOf vfs.cwdPath) =
      some trail) (top : trail.headD st.rootCluster = vfs.cwdCluster)
    (resolved : vfs.resolvePath st unicode disk path = some (dir, entry))
    (isDir : entry.isDir = true) :
    ∃ trail', Path.walk (st.childDir unicode disk) st.rootCluster [] (movesOf (vfs.newPath path)) =
      some trail' ∧ trail'.headD st.rootCluster = entry.cluster := by
  have climbs := followable.2
  -- Without components the path leads to where resolution starts.
  have leads : ∀ trail : List Nat,
      climbsToRoot trail.length true (movesOf path) = true →
      (if components path = [] then some (trail.headD st.rootCluster,
          (⟨['/'], true, 0, trail.headD st.rootCluster, 0, 0⟩ : DirEntry))
        else resolveFrom st unicode disk (trail.headD st.rootCluster) (components path)) =
          some (dir, entry) →
      ∃ trail', Path.walk (st.childDir unicode disk) st.rootCluster trail (movesOf path) =
        some trail' ∧ trail'.headD st.rootCluster = entry.cluster := by
    intro trail climbs resolved
    split_ifs at resolved with empty
    · cases resolved
      refine ⟨trail, ?_, rfl⟩
      rw [movesOf, empty]
      rfl
    · exact walk_of_resolve resolved isDir climbs
  rw [movesOf_newPath]
  unfold resolvePath parsePath at resolved
  by_cases absolute : path.head? = some '/'
  · rw [if_pos absolute] at climbs resolved ⊢
    exact leads [] climbs resolved
  rw [if_neg absolute] at climbs resolved ⊢
  rw [walk_append, walked]
  rw [← top] at resolved
  refine leads trail ?_ resolved
  rw [length_walk walked]
  exact climbs

theorem live_of_walk {moves : List (Path.Move (List Char))}
    (walked : Path.walk (st.childDir unicode disk) st.rootCluster [] moves = some trail) :
    st.LiveDir unicode disk (trail.headD st.rootCluster) :=
  walk_holds walked .root nofun fun _ _ _ live found => Fat32State.LiveDir.childDir live found

end VfsState

namespace Session

variable {session : Session} {st : Fat32State} {unicode : Unicode} {disk : Disk} {fuel : Nat}
  {vfs : VfsState} {path : List Char} {call : VfsCall}

theorem Sound.of_walk {trail : List Nat} (rooted : vfs.cwdPath.head? = some '/')
    (walked : Path.walk (st.childDir unicode disk) st.rootCluster [] (movesOf vfs.cwdPath) =
      some trail) (top : trail.headD st.rootCluster = vfs.cwdCluster) :
    Sound st unicode ⟨vfs, disk⟩ :=
  ⟨top ▸ live_of_walk walked, rooted, trail, walked, top⟩

theorem Sound.cd_up (sound : session.Sound st unicode) :
    Sound st unicode ⟨(session.vfs.cd st unicode session.disk ['.', '.']).2, session.disk⟩ := by
  rw [cd, if_neg (by decide), if_pos rfl]
  split_ifs with atRoot
  · exact sound
  · cases navigated : navigate st unicode session.disk st.rootCluster
        (components session.vfs.cwdPath).dropLast with
    | none =>
      simp only [navigated]
      exact sound
    | some target =>
      simp only [navigated]
      have start : navigate st unicode session.disk (([] : List Nat).headD st.rootCluster)
        (components session.vfs.cwdPath).dropLast = some target := navigated
      obtain ⟨trail, walked, top⟩ := walk_of_navigate start
      split_ifs with empty
      · rw [empty] at walked
        exact .of_walk rfl walked top
      · have parts : components ('/' :: ['/'].intercalate
            (components session.vfs.cwdPath).dropLast) =
              (components session.vfs.cwdPath).dropLast := by
          refine components_intercalate (fun part member => ?_) (fun part member => ?_) empty
          · exact slash_not_mem_of_mem_components (dropLast_subset _ member)
          · exact ne_nil_of_mem_components (dropLast_subset _ member)
        refine .of_walk rfl ?_ top
        rw [movesOf, parts]
        exact walked

theorem Sound.cd (sound : session.Sound st unicode) (followable : session.vfs.Followable path) :
    Sound st unicode ⟨(session.vfs.cd st unicode session.disk path).2, session.disk⟩ := by
  by_cases up : path = ['.', '.']
  · rw [up]
    exact sound.cd_up
  obtain ⟨slashes, climbs⟩ := followable
  obtain ⟨trail, walked, top⟩ := sound.walked
  rw [VfsState.cd]
  split_ifs with atRoot
  · exact .of_walk rfl rfl rfl
  have named : path.head? = some '/' → components path ≠ [] := by
    intro absolute empty
    rcases slashes empty with rfl | rfl
    · cases absolute
    · exact atRoot rfl
  cases resolved : session.vfs.resolvePath st unicode session.disk path with
  | none => exact sound
  | some result =>
    obtain ⟨dir, entry⟩ := result
    simp only
    split_ifs with isDir
    · obtain ⟨trail', leads, there⟩ :=
        walk_newPath ⟨slashes, climbs⟩ walked top resolved isDir
      exact .of_walk (head?_newPath sound.rooted named) leads there
    · exact sound

theorem live_of_resolveParent (live : st.LiveDir unicode disk vfs.cwdCluster)
    (resolved : vfs.resolveParent st unicode disk path = some (dir, name)) :
    st.LiveDir unicode disk dir := by
  unfold resolveParent parsePath at resolved
  simp only at resolved
  split at resolved
  · cases resolved
  obtain ⟨target, traversed, same⟩ := map_eq_some_iff.mp resolved
  cases same
  rw [traverse_eq_jump] at traversed
  refine jump_holds traversed .root ?_
    fun _ _ _ live found => Fat32State.LiveDir.childDir live found
  split_ifs
  · exact .root
  · exact live

/-- The call comes to an operation on a live directory, or it leaves the volume alone. -/
theorem step_eq (fuel : Nat) (live : st.LiveDir unicode session.disk session.vfs.cwdCluster)
    (call : VfsCall) :
    (∃ path, call = .cd path) ∨ call.step st unicode fuel session = some session ∨
      ∃ file, call.fileCall st unicode session = some file ∧
        st.LiveDir unicode session.disk file.dir ∧
        call.step st unicode fuel session =
          (file.step st unicode fuel session.disk).map fun disk => ⟨session.vfs, disk⟩ := by
  cases call with
  | cd path => exact Or.inl ⟨path, rfl⟩
  | mkdir path =>
    refine Or.inr ?_
    simp only [VfsCall.step, VfsCall.apply, VfsCall.fileCall, VfsState.mkdir]
    cases resolved : session.vfs.resolveParent st unicode session.disk path with
    | none => exact Or.inl rfl
    | some target => exact Or.inr ⟨_, rfl, live_of_resolveParent live resolved, rfl⟩
  | writeFile path _ | delete path =>
    refine Or.inr ?_
    simp only [VfsCall.step, VfsCall.apply, VfsCall.fileCall, VfsState.writeFile, VfsState.delete, step]
    cases resolved : session.vfs.resolveParent st unicode session.disk path with
    | none => exact Or.inl rfl
    | some target =>
      refine Or.inr ⟨_, rfl, live_of_resolveParent live resolved, ?_⟩
      simp only [apply, Option.map_map, Function.comp_def]

section

variable (sound : session.Sound st unicode) (orderly : st.Orderly unicode session.disk)
  (enough : st.totalClusters ≤ fuel)
include sound orderly enough

/-- An operation on the volume leaves the current directory where it is. -/
theorem Sound.file {file : FileCall} (live : st.LiveDir unicode session.disk file.dir)
    (spares : file.SparesDirs st unicode session.disk)
    (keeps : file.KeepsNames st unicode session.disk)
    (leaves : file.SparesWay st unicode session.disk (session.way st unicode)) :
    ∃ after, file.step st unicode fuel session.disk = some after ∧ st.Orderly unicode after ∧
      Sound st unicode ⟨session.vfs, after⟩ := by
  obtain ⟨next, stepped, orderly', _⟩ := orderly.step enough live spares keeps
  obtain ⟨table, owner, clusters, ok, after, vol', inDir, ended, stores', outcome⟩ :=
    orderly.formed.call_outcome live enough
  have stores := orderly.formed.stores
  have clean := orderly.clean file.dir live
  rw [stores.slots_eq inDir.chain] at clean
  have same : next = after := by
    rw [step, ended] at stepped
    exact (Option.some.inj stepped).symm
  subst same
  obtain ⟨avoid, kept⟩ := (outcome.effect inDir stores.geometry clean).way_kept inDir stores stores'
    spares keeps leaves
  obtain ⟨trail, walked, top⟩ := sound.walked
  exact ⟨next, stepped, orderly', .of_walk sound.rooted
    (walk_stable walked .root nofun kept) top⟩

/-- The step of a session. -/
theorem Sound.step (careful : call.Careful st unicode session) :
    ∃ next, call.step st unicode fuel session = some next ∧ st.Orderly unicode next.disk ∧
      next.Sound st unicode := by
  obtain ⟨path, rfl⟩ | unchanged | ⟨file, comes, live, stepped⟩ := step_eq fuel sound.live call
  · exact ⟨_, rfl, orderly, sound.cd careful.1⟩
  · exact ⟨session, unchanged, orderly, sound⟩
  · obtain ⟨spares, keeps, leaves⟩ := careful.2 file comes
    obtain ⟨after, ended, orderly', sound'⟩ := sound.file orderly enough live spares keeps leaves
    rw [stepped, ended]
    exact ⟨_, rfl, orderly', sound'⟩

end

/-- The current directory stays sound along every session of careful calls. -/
theorem workingDir_sound_along_runs (formed : st.WellFormed disk)
    (clean : st.CleanEnds unicode disk) (enough : st.totalClusters ≤ fuel) (calls : List VfsCall)
    (careful : Transition.Meets (VfsCall.step st unicode fuel) (VfsCall.Careful st unicode)
      ⟨.init st, disk⟩ calls) :
    ∃ last, Transition.run (VfsCall.step st unicode fuel) ⟨.init st, disk⟩ calls = some last ∧
      last.Sound st unicode := by
  have initial : Sound st unicode ⟨.init st, disk⟩ := .of_walk rfl rfl rfl
  obtain ⟨last, reached, _, sound⟩ := Transition.run_total
    (fun session _ (kept : st.Orderly unicode session.disk ∧ session.Sound st unicode) =>
      kept.2.step kept.1 enough) ⟨⟨formed, clean⟩, initial⟩ careful
  exact ⟨last, reached, sound⟩

theorem workingDir_sound_along_runs_nested : ∃ last,
    Transition.run (VfsCall.step (.oneSector 4) .ascii 4)
      ⟨.init (.oneSector 4), (Fat32State.oneSector 4).formatted⟩
      [.mkdir "A".toList, .mkdir "A/B".toList, .cd "A/B".toList, .cd "..".toList,
        .delete "B".toList, .writeFile "/A/F".toList [1], .cd "../a/".toList, .cd "B".toList] =
        some last ∧
      last.Sound (.oneSector 4) .ascii :=
  workingDir_sound_along_runs (oneSector_wellFormed (by decide) (by decide))
    (cleanEnds_of_flat (by decide +kernel) (by decide +kernel)) (le_refl 4) _
    (by decide +kernel)

/-- Where the path of the current directory leads, and the directory itself. -/
def ends (st : Fat32State) (unicode : Unicode) (session : Session) : Option Nat × Nat :=
  ((Path.walk (st.childDir unicode session.disk) st.rootCluster []
    (movesOf session.vfs.cwdPath)).map fun trail => trail.headD st.rootCluster,
      session.vfs.cwdCluster)

theorem Sound.ends_eq (sound : session.Sound st unicode) :
    (session.ends st unicode).1 = some (session.ends st unicode).2 := by
  obtain ⟨trail, walked, top⟩ := sound.walked
  unfold ends
  rw [walked, map_some, top]

/--
The current directory is deleted; a `..` below another directory leads to the
root; two slashes leave an empty path.
-/
theorem current_directory_lost :
    (Fat32State.oneSector 4).WellFormed (Fat32State.oneSector 4).formatted ∧
    (Fat32State.oneSector 4).CleanEnds .ascii (Fat32State.oneSector 4).formatted ∧
    ∀ calls ∈ [[VfsCall.mkdir "A".toList, .cd "A".toList, .delete "/A".toList],
        [.mkdir "A".toList, .mkdir "A/B".toList, .mkdir "B".toList, .cd "A/B".toList,
          .cd "../B".toList],
        [.cd "//".toList]],
      ∃ last, Transition.run (VfsCall.step (.oneSector 4) .ascii 4)
          ⟨.init (.oneSector 4), (Fat32State.oneSector 4).formatted⟩ calls = some last ∧
        ¬ last.Sound (.oneSector 4) .ascii := by
  refine ⟨oneSector_wellFormed (by decide) (by decide),
    cleanEnds_of_flat (by decide +kernel) (by decide +kernel), ?_⟩
  have seen : ∀ calls ∈ [[VfsCall.mkdir "A".toList, .cd "A".toList, .delete "/A".toList],
        [.mkdir "A".toList, .mkdir "A/B".toList, .mkdir "B".toList, .cd "A/B".toList,
          .cd "../B".toList],
        [.cd "//".toList]],
      ∃ last ∈ Transition.run (VfsCall.step (.oneSector 4) .ascii 4)
          ⟨.init (.oneSector 4), (oneSector 4).formatted⟩ calls,
        (last.ends (.oneSector 4) .ascii).1 = some (last.ends (.oneSector 4) .ascii).2 →
          last.vfs.cwdPath.head? ≠ some '/' := by
    decide +kernel
  intro calls member
  obtain ⟨last, reached, lost⟩ := seen calls member
  exact ⟨last, reached, fun sound => lost sound.ends_eq sound.rooted⟩

end Session

end CantayaOS.Storage
