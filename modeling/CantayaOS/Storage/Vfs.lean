import CantayaOS.Lib.Path
import CantayaOS.Storage.Reach

/-!
# The virtual filesystem

Paths are resolved component by component from the root or from the current
directory, whose cluster and path the layer keeps side by side.  It does not
know the parent of a directory: inside a path `..` leads to the root, and only
`cd ".."` goes up, by walking along the path without its last component.  The
state before initialisation, in which every call fails, is left out.
-/

namespace CantayaOS.Storage

open Lib List Option

structure VfsState where
  cwdCluster : Nat
  cwdPath : List Char
  deriving DecidableEq, Repr

def components (path : List Char) : List (List Char) :=
  (path.splitOn '/').filter (· ≠ [])

namespace VfsState

def init (st : Fat32State) : VfsState where
  cwdCluster := st.rootCluster
  cwdPath := ['/']

section

variable (vfs : VfsState) (st : Fat32State) (unicode : Unicode) (disk : Disk)

def parsePath (path : List Char) : Nat × List (List Char) :=
  (if path.head? = some '/' then st.rootCluster else vfs.cwdCluster, components path)

/-- The loop over the components in `resolvePath`. -/
def resolveFrom (currentCluster : Nat) : List (List Char) → Option (Nat × DirEntry)
  | [] => none
  | component :: rest =>
    if component = ['.'] then
      resolveFrom currentCluster rest
    else if component = ['.', '.'] then
      resolveFrom st.rootCluster rest
    else
      match st.findEntry unicode disk currentCluster component with
      | none => none
      | some entry =>
        if rest = [] then
          some (currentCluster, entry)
        else if entry.isDir = false then
          none
        else
          resolveFrom entry.cluster rest

def resolvePath (path : List Char) : Option (Nat × DirEntry) :=
  let (startCluster, components) := vfs.parsePath st path
  if components = [] then
    some (startCluster, ⟨['/'], true, 0, startCluster, 0, 0⟩)
  else
    resolveFrom st unicode disk startCluster components

/-- The loop over all components but the last in `resolveParent`. -/
def traverse (currentCluster : Nat) : List (List Char) → Option Nat
  | [] => some currentCluster
  | component :: rest =>
    if component = ['.'] then
      traverse currentCluster rest
    else if component = ['.', '.'] then
      traverse st.rootCluster rest
    else
      match st.findEntry unicode disk currentCluster component with
      | none => none
      | some entry => if entry.isDir then traverse entry.cluster rest else none

/-- Resolve a path to the parent directory cluster and the final component name. -/
def resolveParent (path : List Char) : Option (Nat × List Char) :=
  let (startCluster, components) := vfs.parsePath st path
  match components.getLast? with
  | none => none
  | some finalName =>
    (traverse st unicode disk startCluster components.dropLast).map fun cluster =>
      (cluster, finalName)

def writeFile (fuel : Nat) (path : List Char) (data : List UInt8) : Option (Bool × Disk) :=
  match vfs.resolveParent st unicode disk path with
  | some (parentCluster, name) => st.writeFile unicode fuel disk parentCluster name data
  | none => some (false, disk)

def mkdir (path : List Char) : Bool × Disk :=
  match vfs.resolveParent st unicode disk path with
  | some (parentCluster, name) => st.mkdir unicode disk parentCluster name
  | none => (false, disk)

def delete (fuel : Nat) (path : List Char) : Option (Bool × Disk) :=
  match vfs.resolveParent st unicode disk path with
  | some (parentCluster, name) => st.delete unicode fuel disk parentCluster name
  | none => some (false, disk)

/-- The loop that navigates to the parent in `cd`; it gives no meaning to dots. -/
def navigate (cluster : Nat) : List (List Char) → Option Nat
  | [] => some cluster
  | part :: rest =>
    match st.findEntry unicode disk cluster part with
    | none => none
    | some entry => if entry.isDir then navigate entry.cluster rest else none

/-- The path that `cd` stores for a path it has resolved. -/
def newPath (path : List Char) : List Char :=
  if path.head? = some '/' then
    if path.getLast? = some '/' then path.rdropWhile (· = '/') else path
  else if vfs.cwdPath = ['/'] then
    '/' :: path
  else
    vfs.cwdPath ++ '/' :: path

def cd (path : List Char) : Bool × VfsState :=
  if path = ['/'] then
    (true, ⟨st.rootCluster, ['/']⟩)
  else if path = ['.', '.'] then
    if vfs.cwdPath = ['/'] then
      (true, vfs)
    else
      let parts := (components vfs.cwdPath).dropLast
      match navigate st unicode disk st.rootCluster parts with
      | none => (false, vfs)
      | some targetCluster =>
        (true, ⟨targetCluster, if parts = [] then ['/'] else '/' :: ['/'].intercalate parts⟩)
  else
    match vfs.resolvePath st unicode disk path with
    | none => (false, vfs)
    | some (_, entry) =>
      if entry.isDir then (true, ⟨entry.cluster, vfs.newPath path⟩) else (false, vfs)

end

end VfsState

variable {path part last : List Char} {parts : List (List Char)} {dir : Nat}

theorem components_append (path more : List Char) :
    components (path ++ '/' :: more) = components path ++ components more := by
  unfold components
  rw [splitOn_append_cons_self, filter_append]

@[simp] theorem components_slash (path : List Char) : components ('/' :: path) = components path :=
  components_append [] path

theorem ne_nil_of_mem_components (member : part ∈ components path) : part ≠ [] :=
  of_decide_eq_true (mem_filter.mp member).2

theorem components_rdropWhile (path : List Char) :
    components (path.rdropWhile (· = '/')) = components path := by
  induction path using List.reverseRecOn with
  | nil => rfl
  | append_singleton front char ih =>
    by_cases slash : char = '/'
    · rw [slash, rdropWhile_concat_pos _ _ _ rfl, ih, components_append front []]
      exact (append_nil _).symm
    · rw [rdropWhile_concat_neg]
      rwa [decide_eq_true_eq]

theorem slash_not_mem_splitOn (member : part ∈ path.splitOn '/') : '/' ∉ part := by
  induction path generalizing part with
  | nil =>
    rw [splitOn_nil, mem_singleton] at member
    rw [member]
    exact not_mem_nil
  | cons char rest ih =>
    rw [splitOn_cons_eq_if_modifyHead] at member
    split at member
    · rcases mem_cons.mp member with rfl | later
      · exact not_mem_nil
      · exact ih later
    rename_i other
    cases split : rest.splitOn '/' with
    | nil =>
      rw [split] at member
      cases member
    | cons first others =>
      rw [split] at ih member
      rcases mem_cons.mp member with rfl | later
      · rw [mem_cons, not_or]
        refine ⟨fun same => other ?_, ih (.head _)⟩
        rw [← same]
        rfl
      · exact ih (mem_cons_of_mem _ later)

theorem slash_not_mem_of_mem_components (member : part ∈ components path) : '/' ∉ part :=
  slash_not_mem_splitOn (mem_filter.mp member).1

theorem components_intercalate
    (clear : ∀ part ∈ parts, '/' ∉ part) (full : ∀ part ∈ parts, part ≠ []) (more : parts ≠ []) :
    components (['/'].intercalate parts) = parts := by
  unfold components
  rw [splitOn_intercalate '/' clear more]
  exact filter_eq_self.mpr fun part member => decide_eq_true (full part member)

/-! ## Resolution as moves in the tree -/

def Fat32State.childDir (st : Fat32State) (unicode : Unicode) (disk : Disk) (dir : Nat)
    (name : List Char) : Option Nat :=
  (st.findEntry unicode disk dir name).bind fun entry =>
    if entry.isDir then some entry.cluster else none

def moveOf (component : List Char) : Path.Move (List Char) :=
  if component = ['.'] then .stay else if component = ['.', '.'] then .up else .down component

def movesOf (path : List Char) : List (Path.Move (List Char)) := (components path).map moveOf

theorem moveOf_dot : moveOf ['.'] = .stay := rfl

theorem moveOf_dotdot : moveOf ['.', '.'] = .up := rfl

theorem moveOf_name {component : List Char} (notDot : component ≠ ['.'])
    (notDots : component ≠ ['.', '.']) : moveOf component = .down component := by
  rw [moveOf, if_neg notDot, if_neg notDots]

variable {name : List Char}

namespace VfsState

variable {vfs : VfsState} {st : Fat32State} {unicode : Unicode} {disk : Disk} {current : Nat}

theorem childDir_eq_some {next : Nat} : st.childDir unicode disk dir name = some next ↔
      ∃ entry, st.findEntry unicode disk dir name = some entry ∧ entry.isDir = true ∧
        entry.cluster = next := by
  unfold Fat32State.childDir
  rw [bind_eq_some_iff]
  simp

/-- The traversal of a path jumps to the root at every move up. -/
theorem traverse_eq_jump (parts : List (List Char)) :
    traverse st unicode disk current parts =
      Path.jump (st.childDir unicode disk) st.rootCluster current (parts.map moveOf) := by
  induction parts generalizing current with
  | nil => rfl
  | cons component rest ih =>
    rw [traverse, map_cons]
    by_cases dot : component = ['.']
    · rw [if_pos dot, dot, moveOf_dot, Path.jump, ih]
    rw [if_neg dot]
    by_cases dots : component = ['.', '.']
    · rw [if_pos dots, dots, moveOf_dotdot, Path.jump, ih]
    rw [if_neg dots, moveOf_name dot dots, Path.jump, Fat32State.childDir]
    cases st.findEntry unicode disk current component with
    | none => rfl
    | some entry =>
      by_cases isDir : entry.isDir = true
      · simp only [isDir, if_true, bind_some, ih]
      · simp only [isDir, bind_some, bind_none, if_false, Bool.false_eq_true]

/-- A path is resolved by looking for its last component where the others lead. -/
theorem resolveFrom_concat (parts : List (List Char)) (last : List Char) :
    resolveFrom st unicode disk current (parts ++ [last]) =
      if last = ['.'] ∨ last = ['.', '.'] then none
      else (traverse st unicode disk current parts).bind fun dir =>
        (st.findEntry unicode disk dir last).map fun entry => (dir, entry) := by
  induction parts generalizing current with
  | nil =>
    rw [nil_append, resolveFrom, traverse, bind_some]
    by_cases dot : last = ['.']
    · rw [if_pos dot, if_pos (.inl dot), resolveFrom]
    rw [if_neg dot]
    by_cases dots : last = ['.', '.']
    · rw [if_pos dots, if_pos (.inr dots), resolveFrom]
    · rw [if_neg dots, if_neg (not_or.mpr ⟨dot, dots⟩)]
      cases st.findEntry unicode disk current last with
      | none => rfl
      | some entry => rfl
  | cons component rest ih =>
    rw [cons_append, resolveFrom, traverse]
    by_cases dot : component = ['.']
    · rw [if_pos dot, if_pos dot, ih]
    rw [if_neg dot, if_neg dot]
    by_cases dots : component = ['.', '.']
    · rw [if_pos dots, if_pos dots, ih]
    rw [if_neg dots, if_neg dots]
    cases st.findEntry unicode disk current component with
    | none => simp only [bind_none, ite_self]
    | some entry =>
      have more : rest ++ [last] ≠ [] := append_ne_nil_of_right_ne_nil _ nofun
      by_cases isDir : entry.isDir = true
      · simp only [if_neg more, isDir, ih, if_true, Bool.true_eq_false, if_false]
      · simp only [if_neg more, isDir, if_true, Bool.false_eq_true, if_false,
          bind_none, ite_self]

section

variable (shape : components path = parts ++ [last])
include shape

theorem resolvePath_of_concat :
    vfs.resolvePath st unicode disk path =
      resolveFrom st unicode disk (vfs.parsePath st path).1 (parts ++ [last]) := by
  have more : parts ++ [last] ≠ [] := append_ne_nil_of_right_ne_nil _ (cons_ne_nil _ _)
  generalize isStart : (vfs.parsePath st path).1 = start
  have parsed : vfs.parsePath st path = (start, parts ++ [last]) := Prod.ext isStart shape
  rw [resolvePath, parsed]
  exact if_neg more

theorem resolveParent_of_concat :
    vfs.resolveParent st unicode disk path =
      (traverse st unicode disk (vfs.parsePath st path).1 parts).map fun cluster =>
        (cluster, last) := by
  generalize isStart : (vfs.parsePath st path).1 = start
  have parsed : vfs.parsePath st path = (start, parts ++ [last]) := Prod.ext isStart shape
  rw [resolveParent, parsed]
  simp

/-- A path resolves to the entry that is found under its last name where the others lead. -/
theorem resolvePath_concat_eq_some {entry : DirEntry} :
    vfs.resolvePath st unicode disk path = some (dir, entry) ↔
      ¬ (last = ['.'] ∨ last = ['.', '.']) ∧
        traverse st unicode disk (vfs.parsePath st path).1 parts = some dir ∧
        st.findEntry unicode disk dir last = some entry := by
  rw [resolvePath_of_concat shape, resolveFrom_concat]
  by_cases dots : last = ['.'] ∨ last = ['.', '.']
  · rw [if_pos dots]
    exact iff_of_false nofun fun both => both.1 dots
  rw [if_neg dots, bind_eq_some_iff]
  constructor
  · rintro ⟨parent, walked, search⟩
    obtain ⟨found, isFound, same⟩ := map_eq_some_iff.mp search
    obtain ⟨rfl, rfl⟩ := Prod.mk.inj same
    exact ⟨dots, walked, isFound⟩
  · rintro ⟨-, walked, search⟩
    exact ⟨dir, walked, by rw [search, map_some]⟩

theorem resolveParent_concat_eq_some : vfs.resolveParent st unicode disk path = some (dir, name) ↔
      traverse st unicode disk (vfs.parsePath st path).1 parts = some dir ∧ name = last := by
  rw [resolveParent_of_concat shape, map_eq_some_iff]
  constructor
  · rintro ⟨parent, walked, same⟩
    obtain ⟨rfl, rfl⟩ := Prod.mk.inj same
    exact ⟨walked, rfl⟩
  · rintro ⟨walked, rfl⟩
    exact ⟨dir, walked, rfl⟩

end

/-- Reading resolves a path to an entry exactly when writing resolves it to a
directory and a name, and the entry is found there under that name. -/
theorem resolvePath_iff_resolveParent {path last : List Char}
    (isLast : (components path).getLast? = some last) (notDot : last ≠ ['.'])
    (notDots : last ≠ ['.', '.']) (dir : Nat) (entry : DirEntry) :
    vfs.resolvePath st unicode disk path = some (dir, entry) ↔
      ∃ name, vfs.resolveParent st unicode disk path = some (dir, name) ∧
        st.findEntry unicode disk dir name = some entry := by
  obtain ⟨parts, shape⟩ := List.getLast?_eq_some_iff.mp isLast
  have noDots : ¬ (last = ['.'] ∨ last = ['.', '.']) := not_or.mpr ⟨notDot, notDots⟩
  rw [resolvePath_concat_eq_some shape]
  constructor
  · rintro ⟨-, walked, search⟩
    exact ⟨last, (resolveParent_concat_eq_some shape).mpr ⟨walked, rfl⟩, search⟩
  · rintro ⟨name, parent, search⟩
    obtain ⟨walked, rfl⟩ := (resolveParent_concat_eq_some shape).mp parent
    exact ⟨noDots, walked, search⟩

def withFile : Disk :=
  { (Fat32State.oneSector 2).formatted with
    bytes := Bytes.overlay (Fat32State.oneSector 2).formatted.bytes (2 * 512)
      (Fat32State.rawEntry (0x41 :: List.replicate 10 0x20) attrArchive 0 0) }

theorem resolvePath_of_resolveParent_file :
    (VfsState.init (.oneSector 2)).resolvePath (.oneSector 2) .ascii withFile "/./a".toList =
      some (2, ⟨['a'], false, 0, 0, 2, 0⟩) :=
  (resolvePath_iff_resolveParent rfl (by decide) (by decide) _ _).mpr
    ⟨['a'], by decide +kernel, by decide +kernel⟩

end VfsState

end CantayaOS.Storage
