import CantayaOS.Storage.Directory

/-!
# Who owns which clusters

A table assigns chains to owners: the root directory, the slots of
directories, and the operation that is under way.  In a well-formed layout the
chains are disjoint, every short entry of a directory owns the chain that
starts at its cluster, and subdirectories start with their two dot entries.
The table may still name owners that are no longer reachable.
-/

namespace CantayaOS.Storage

open Lib Fat32State List Unicode

/-- Who can own a chain: the root, an entry, or the operation under way. -/
inductive Owner where
  | root
  | slot (loc : Loc)
  | held
  deriving DecidableEq

/-- An owned chain, and whether it holds a directory. -/
structure Node where
  clusters : List Nat
  isDir : Bool

abbrev Table : Type := Owner → Option Node

namespace Fat32State

/-- The places of the proper entries of a directory: subdirectories start with two dot entries. -/
def entryLocs (st : Fat32State) (owner : Owner) (clusters : List Nat) : List Loc :=
  if owner = .root then st.locs clusters else (st.locs clusters).drop 2

def DotSlots (slots : List Slot) : Prop :=
  ∃ first second rest, slots = first :: second :: rest ∧
    first.IsShort ∧ first.raw.take 11 = dotName 1 ∧ second.IsShort ∧ second.raw.take 11 = dotName 2

/-- The entry in the slot owns a chain: a directory always, a file unless it is empty. -/
def Owned (st : Fat32State) (vol : Volume) (table : Table) (loc : Loc) : Prop :=
  ((st.slotAt vol loc).isDir = true → 2 ≤ (st.slotAt vol loc).cluster) ∧
    (2 ≤ (st.slotAt vol loc).cluster → ∃ node, table (.slot loc) = some node ∧
      node.isDir = (st.slotAt vol loc).isDir ∧
      node.clusters.head? = some (st.slotAt vol loc).cluster)

/-- The chains of the table are well formed; the exempt slot may be out of date. -/
structure Layout (st : Fat32State) (vol : Volume) (table : Table) (exempt : Option Loc) : Prop where
  root : ∃ node, table .root = some node ∧ node.isDir = true ∧
    node.clusters.head? = some st.rootCluster
  chain : ∀ owner node, table owner = some node → ∃ start, st.Chain vol start node.clusters
  apart : ∀ owner other node node', owner ≠ other → table owner = some node →
    table other = some node' → node.clusters.Disjoint node'.clusters
  dots : ∀ owner node, owner ≠ .root → table owner = some node → node.isDir = true →
    DotSlots (st.slots vol node.clusters)
  entries : ∀ owner node, table owner = some node → node.isDir = true →
    ∀ loc ∈ st.entryLocs owner node.clusters, some loc ≠ exempt →
      (st.slotAt vol loc).IsShort → st.Owned vol table loc

end Fat32State

namespace Unicode

variable (unicode : Unicode)

theorem dropWhile_spaces (spaces : Nat) (rest : List Char) :
    (List.replicate spaces ' ' ++ rest).dropWhile unicode.isWhitespace =
      rest.dropWhile unicode.isWhitespace := by
  induction spaces with
  | zero => rfl
  | succ spaces ih =>
    rw [replicate_succ, cons_append, dropWhile_cons_of_pos unicode.space, ih]

theorem dropWhile_dots (dots : Nat) (rest : List Char) :
    (List.replicate (dots + 1) '.' ++ rest).dropWhile unicode.isWhitespace =
      List.replicate (dots + 1) '.' ++ rest := by
  rw [replicate_succ, cons_append, dropWhile_cons_of_neg]
  rw [unicode.dot]
  decide

theorem trim_dots (dots spaces : Nat) :
    unicode.trim (List.replicate (dots + 1) '.' ++ List.replicate spaces ' ') =
      List.replicate (dots + 1) '.' := by
  have back := unicode.dropWhile_dots dots []
  rw [append_nil] at back
  rw [trim, dropWhile_dots, reverse_append, reverse_replicate, reverse_replicate,
    dropWhile_spaces, back, reverse_replicate]

theorem trim_spaces (spaces : Nat) : unicode.trim (List.replicate spaces ' ') = [] := by
  have front := unicode.dropWhile_spaces spaces []
  rw [append_nil] at front
  rw [trim, front]
  rfl

theorem decode83Name_dot : unicode.decode83Name (dotName 1) = ['.'] := by
  have base : (fromUtf8 ((dotName 1).take 8)).getD [] =
      List.replicate (0 + 1) '.' ++ List.replicate 7 ' ' := by decide
  have ext : (fromUtf8 (((dotName 1).drop 8).take 3)).getD [] =
      List.replicate 3 ' ' := by decide
  unfold decode83Name
  simp only [base, ext, trim_dots, trim_spaces]
  exact unicode.lower_dot

theorem decode83Name_dotdot : unicode.decode83Name (dotName 2) = ['.', '.'] := by
  have base : (fromUtf8 ((dotName 2).take 8)).getD [] =
      List.replicate (1 + 1) '.' ++ List.replicate 6 ' ' := by decide
  have ext : (fromUtf8 (((dotName 2).drop 8).take 3)).getD [] =
      List.replicate 3 ' ' := by decide
  unfold decode83Name
  simp only [base, ext, trim_dots, trim_spaces]
  exact unicode.lower_dotdot

theorem look_dot {slot : Slot} (short : slot.IsShort)
    (name : slot.raw.take 11 = dotName 1 ∨ slot.raw.take 11 = dotName 2) :
    unicode.look [] slot = .passed [] := by
  have dots : IsDots (unicode.nameOf [] slot) := by
    unfold nameOf IsDots
    rcases name with one | two
    · rw [one]
      exact .inl unicode.decode83Name_dot
    · rw [two]
      exact .inr unicode.decode83Name_dotdot
  rw [look_of_short short, if_pos dots]

abbrev named (unicode : Unicode) (name : List Char) (entry : DirEntry) : Bool :=
  unicode.sameName entry.name name

end Unicode

namespace Fat32State

/-- The entries that a directory with these clusters lists. -/
def listing (st : Fat32State) (unicode : Unicode) (vol : Volume) (clusters : List Nat) :
    List DirEntry :=
  unicode.scan [] (st.slots vol clusters)

structure SplitAt (st : Fat32State) (unicode : Unicode) (vol : Volume) (clusters : List Nat)
    (before : List Loc) (loc : Loc) (behind : List Loc) (pending : List (UInt8 × List Char)) :
    Prop where
  shape : st.locs clusters = before ++ loc :: behind
  pends : unicode.pendingAfter [] (before.map (st.slotAt vol)) = some pending

structure Found (st : Fat32State) (unicode : Unicode) (vol : Volume) (clusters : List Nat)
    (name : List Char) (before : List Loc) (loc : Loc) (behind : List Loc)
    (pending : List (UInt8 × List Char)) (entry : DirEntry) : Prop where
  split : st.SplitAt unicode vol clusters before loc behind pending
  look : unicode.look pending (st.slotAt vol loc) = .entry entry
  named : unicode.sameName entry.name name = true
  first : ∀ other ∈ unicode.scan [] (before.map (st.slotAt vol)),
    unicode.sameName other.name name = false

variable {st : Fat32State} {unicode : Unicode} {disk : Disk} {vol : Volume} {table : Table}
  {exempt : Option Loc} {clusters : List Nat} {start : Nat} {owner : Owner} {node : Node}
  {before behind : List Loc} {loc : Loc} {pending : List (UInt8 × List Char)} {entry : DirEntry}
  {name : List Char}

theorem Stores.slots_eq (stores : st.Stores disk vol) (chain : st.Chain vol start clusters) :
    st.dirSlots disk (st.clusterChain disk start) = st.slots vol clusters := by
  rw [stores.clusterChain chain, stores.dirSlots chain.valid]

theorem Stores.readDir (stores : st.Stores disk vol) (chain : st.Chain vol start clusters) :
    st.readDir unicode disk start = st.listing unicode vol clusters := by
  unfold Fat32State.readDir listing
  rw [stores.slots_eq chain]

theorem Stores.findEntry (stores : st.Stores disk vol) (chain : st.Chain vol start clusters) :
    st.findEntry unicode disk start name =
      (st.listing unicode vol clusters).find? (unicode.named name) := by
  unfold Fat32State.findEntry
  rw [stores.readDir chain]

theorem SplitAt.listing_eq (split : st.SplitAt unicode vol clusters before loc behind pending) :
    st.listing unicode vol clusters = unicode.scan [] (before.map (st.slotAt vol)) ++
      unicode.scan pending (st.slotAt vol loc :: behind.map (st.slotAt vol)) := by
  unfold listing slots
  rw [split.shape, map_append, map_cons, scan_append_of_pending split.pends]

theorem SplitAt.mem (split : st.SplitAt unicode vol clusters before loc behind pending) :
    loc ∈ st.locs clusters := by
  rw [split.shape]
  exact mem_append_right _ (.head _)

theorem exists_split {listed later : List DirEntry}
    (shape : st.listing unicode vol clusters = listed ++ entry :: later) :
    ∃ before loc behind pending, st.SplitAt unicode vol clusters before loc behind pending ∧
      unicode.look pending (st.slotAt vol loc) = .entry entry ∧
      unicode.scan [] (before.map (st.slotAt vol)) = listed ∧
      unicode.scan [] (behind.map (st.slotAt vol)) = later := by
  obtain ⟨first, slot, last, pending, slots, listed', pends, look, later'⟩ :=
    scan_split shape
  obtain ⟨before, rest, locs, rfl, same⟩ := map_eq_append_iff.mp slots
  obtain ⟨loc, behind, rfl, rfl, rfl⟩ := map_eq_cons_iff.mp same
  exact ⟨before, loc, behind, pending, ⟨locs, pends⟩, look, listed', later'⟩

theorem exists_found
    (found : (st.listing unicode vol clusters).find? (unicode.named name) = some entry) :
    ∃ before loc behind pending,
      st.Found unicode vol clusters name before loc behind pending entry := by
  obtain ⟨named, listed, later, shape, first⟩ := find?_eq_some_iff_append.mp found
  obtain ⟨before, loc, behind, pending, split, look, listed', _⟩ := exists_split shape
  refine ⟨before, loc, behind, pending, split, look, named, fun other member => ?_⟩
  rw [listed'] at member
  simpa using first other member

theorem Found.find?_eq (found : st.Found unicode vol clusters name before loc behind pending entry) :
    (st.listing unicode vol clusters).find? (unicode.named name) = some entry := by
  rw [found.split.listing_eq, scan, found.look]
  refine find?_eq_some_iff_append.mpr ⟨found.named, _, _, rfl, fun other member => ?_⟩
  rw [Bool.not_eq_true']
  exact found.first other member

theorem Chain.head? (chain : st.Chain vol start clusters) : clusters.head? = some start := by
  obtain ⟨_, rfl⟩ := chain.exists_cons
  rfl

namespace Layout

theorem chain_of_head (layout : st.Layout vol table exempt) (owned : table owner = some node)
    (head : node.clusters.head? = some start) : st.Chain vol start node.clusters := by
  obtain ⟨first, chain⟩ := layout.chain owner node owned
  rw [chain.head?] at head
  cases head
  exact chain

/-- A slot that lists an entry is not one of the dot entries. -/
theorem entryLoc (layout : st.Layout vol table exempt) (owned : table owner = some node)
    (isDir : node.isDir = true)
    (split : st.SplitAt unicode vol node.clusters before loc behind pending)
    (look : unicode.look pending (st.slotAt vol loc) = .entry entry) :
    loc ∈ st.entryLocs owner node.clusters := by
  unfold entryLocs
  split_ifs with isRoot
  · exact split.mem
  · obtain ⟨first, second, rest, shape, short, name, short', name'⟩ :=
      layout.dots owner node isRoot owned isDir
    have slots := congrArg (List.map (st.slotAt vol)) split.shape
    rw [← Fat32State.slots, shape, map_append, map_cons] at slots
    have pends := split.pends
    have passed := unicode.look_dot short (.inl name)
    have passed' := unicode.look_dot short' (.inr name')
    rw [split.shape]
    match before, slots, pends with
    | [], slots, pends =>
      cases pends
      rw [map_nil, nil_append, List.cons.injEq] at slots
      rw [← slots.1, passed] at look
      cases look
    | [one], slots, pends =>
      simp only [map_cons, map_nil, cons_append, nil_append, List.cons.injEq] at slots
      rw [map_cons, ← slots.1, pendingAfter, passed] at pends
      cases pends
      rw [← slots.2.1, passed'] at look
      cases look
    | _ :: _ :: more, _, _ => exact mem_append_right _ (.head _)

theorem owned (layout : st.Layout vol table none) (owned : table owner = some node)
    (isDir : node.isDir = true)
    (split : st.SplitAt unicode vol node.clusters before loc behind pending)
    (look : unicode.look pending (st.slotAt vol loc) = .entry entry) : st.Owned vol table loc :=
  layout.entries owner node owned isDir loc (layout.entryLoc owned isDir split look) nofun
    (look_eq_entry look).1

end Layout

/-- A directory of a well-formed layout in which no operation is under way. -/
structure InDir (st : Fat32State) (vol : Volume) (table : Table) (owner : Owner)
    (clusters : List Nat) (start : Nat) : Prop where
  layout : st.Layout vol table none
  idle : table .held = none
  owned : table owner = some ⟨clusters, true⟩
  head : clusters.head? = some start
  outside : ∀ loc, owner = .slot loc → loc.1 ∉ clusters

/-- The clusters that an entry's cluster field leads to. -/
def OldChain (st : Fat32State) (vol : Volume) (cluster : Nat) (old : List Nat) : Prop :=
  if 2 ≤ cluster then st.Chain vol cluster old else old = []

namespace InDir

theorem chain (dir : st.InDir vol table owner clusters start) : st.Chain vol start clusters :=
  dir.layout.chain_of_head dir.owned dir.head

theorem exists_old (dir : st.InDir vol table owner clusters start)
    (split : st.SplitAt unicode vol clusters before loc behind pending)
    (look : unicode.look pending (st.slotAt vol loc) = .entry entry) :
    ∃ old, st.OldChain vol entry.cluster old ∧ old.Disjoint clusters ∧
      (2 ≤ entry.cluster → table (.slot loc) = some ⟨old, entry.isDir⟩) := by
  obtain ⟨_, owns⟩ := dir.layout.owned dir.owned rfl split look
  obtain ⟨_, _, rfl⟩ := look_eq_entry look
  by_cases large : 2 ≤ (st.slotAt vol loc).cluster
  · obtain ⟨node, owned, isDir, head⟩ := owns large
    have inside : loc.1 ∈ clusters := (mem_locs.mp split.mem).1
    have differ : Owner.slot loc ≠ owner := fun same => dir.outside loc same.symm inside
    refine ⟨node.clusters, ?_, dir.layout.apart _ _ _ _ differ owned dir.owned, fun _ => ?_⟩
    · exact (if_pos large).mpr (dir.layout.chain_of_head owned head)
    · rw [owned, ← show node.isDir = ((st.slotAt vol loc).entry _).isDir from isDir]
  · exact ⟨[], (if_neg large).mpr rfl, disjoint_nil_left _, fun large' => absurd large' large⟩

end InDir

end Fat32State

end CantayaOS.Storage
