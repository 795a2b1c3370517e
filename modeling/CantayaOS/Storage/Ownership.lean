import CantayaOS.Storage.Outcome

/-!
# Operations keep the layout

The operations change the ownership table in a few elementary ways: a slot
gives up its chain, the operation takes fresh clusters, a directory grows by a
cluster, and a written slot takes over what the operation holds.  Each of them
keeps the layout, and each outcome of an operation is a sequence of them.
-/

namespace CantayaOS.Storage

open Lib Volume List Function

variable {front old : List Nat} {cluster last : Nat} {raw : List UInt8} {after : Volume}
  {first : Option Nat} {slot : Slot}

namespace Fat32State

variable {st : Fat32State} {unicode : Unicode} {vol vol' : Volume} {table table' : Table}
  {exempt : Option Loc} {owner : Owner} {node : Node} {loc : Loc} {clusters : List Nat} {start : Nat}
  {name : List Char}

/-! ## Elementary facts -/

theorem update_eq_some {key : Owner} {entry : Option Node} :
    update table key entry owner = some node ↔
      (owner = key ∧ entry = some node) ∨ (owner ≠ key ∧ table owner = some node) := by
  by_cases same : owner = key
  · rw [same]
    simp
  · simp [same]

theorem mem_locs_of_entryLocs (member : loc ∈ st.entryLocs owner clusters) :
    loc ∈ st.locs clusters := by
  unfold entryLocs at member
  split_ifs at member
  · exact member
  · exact mem_of_mem_drop member

theorem Owned.imp (owned : st.Owned vol table loc) (slot : st.slotAt vol' loc = st.slotAt vol loc)
    (key : ∀ node, table (.slot loc) = some node → ∃ node', table' (.slot loc) = some node' ∧
      node'.isDir = node.isDir ∧ node'.clusters.head? = node.clusters.head?) :
    st.Owned vol' table' loc := by
  obtain ⟨large, owns⟩ := owned
  unfold Owned
  rw [slot]
  refine ⟨large, fun large' => ?_⟩
  obtain ⟨node, known, isDir, head⟩ := owns large'
  obtain ⟨node', known', isDir', head'⟩ := key node known
  exact ⟨node', known', isDir'.trans isDir, head'.trans head⟩

theorem Owned.congr (owned : st.Owned vol table loc) (slot : st.slotAt vol' loc = st.slotAt vol loc)
    (key : table' (.slot loc) = table (.slot loc)) : st.Owned vol' table' loc :=
  owned.imp slot fun node known => ⟨node, key.trans known, rfl, rfl⟩

theorem slotAt_congr (agree : vol'.data loc.1 = vol.data loc.1) :
    st.slotAt vol' loc = st.slotAt vol loc := by
  unfold slotAt
  rw [agree]

/-- The dot entries are still there when a proper entry changes. -/
theorem DotSlots.congr (dots : DotSlots (st.slots vol clusters)) (distinct : clusters.Nodup)
    (member : loc ∈ (st.locs clusters).drop 2)
    (agree : ∀ other ≠ loc, st.slotAt vol' other = st.slotAt vol other) :
    DotSlots (st.slots vol' clusters) := by
  obtain ⟨first, second, rest, shape, facts⟩ := dots
  have places : (st.locs clusters).Nodup := nodup_locs distinct
  unfold slots at shape ⊢
  match known : st.locs clusters with
  | [] => rw [known] at shape; cases shape
  | [_] => rw [known] at shape; cases shape
  | one :: two :: others =>
    rw [known] at shape places member
    obtain ⟨⟩ := shape
    rw [nodup_cons, nodup_cons] at places
    have inside : loc ∈ others := member
    have differ : one ≠ loc := fun same => places.1 (mem_cons_of_mem _ (same ▸ inside))
    have differ' : two ≠ loc := fun same => places.2.1 (same ▸ inside)
    refine ⟨_, _, _, rfl, ?_⟩
    rw [agree one differ, agree two differ']
    exact facts

theorem mem_entryLocs_append {more : List Nat}
    (member : loc ∈ st.entryLocs owner (clusters ++ more)) :
    loc ∈ st.entryLocs owner clusters ∨ loc ∈ st.locs more := by
  unfold entryLocs at member ⊢
  rw [locs_append] at member
  split_ifs at member ⊢
  · exact mem_append.mp member
  · rw [drop_append] at member
    exact (mem_append.mp member).imp_right mem_of_mem_drop

theorem DotSlots.append {slots : List Slot} (dots : DotSlots slots) (more : List Slot) :
    DotSlots (slots ++ more) := by
  obtain ⟨first, second, rest, rfl, facts⟩ := dots
  exact ⟨first, second, rest ++ more, rfl, facts⟩

theorem first_of_zeros (zeros : vol.data loc.1 = fun _ => 0) : (st.slotAt vol loc).first = 0x00 := by
  have first : (st.slotAt vol loc).first = vol.data loc.1 (loc.2 * 32 + 0) :=
    Bytes.getD_window (by decide)
  rw [first, zeros]

/-- The operation holds the chain of an entry that it is about to write. -/
def Holds (table : Table) (isDir : Bool) (cluster : Nat) : Prop :=
  (isDir = true → 2 ≤ cluster) ∧ (2 ≤ cluster → ∃ node, table .held = some node ∧
    node.isDir = isDir ∧ node.clusters.head? = some cluster)

/-- A chain that is linked to a fresh cluster. -/
theorem Chain.extend (chain : st.Chain vol start (front ++ [last])) (geometry : st.Geometry)
    (valid : st.IsCluster cluster) (free : vol.fat cluster = fatFree) :
    st.Chain (((vol.setFat cluster 0x0FFFFFFF).setFat last cluster).blank cluster) start
      (front ++ [last] ++ [cluster]) where
  linked := by
    have distinct := chain.nodup
    have fresh : cluster ∉ front ++ [last] := fun member => chain.fat_ne_free member free
    have differ : cluster ≠ last := fun same => fresh (by simp [same])
    obtain ⟨middle, before, here, _⟩ := Linked.append_iff.mp chain.linked
    rw [append_assoc]
    refine Linked.append_iff.mpr ⟨middle, ?_, here, ?_, ?_⟩
    · refine before.congr fun other member => ?_
      have apart : other ≠ last := fun same =>
        (disjoint_of_nodup_append distinct) member (by simp [same])
      have apart' : other ≠ cluster := fun same => fresh (by simp [← same, member])
      unfold Volume.next
      rw [blank_fat, setFat_of_ne _ _ apart, setFat_of_ne _ _ apart']
    · unfold Volume.next
      rw [blank_fat, setFat_self, if_neg]
      exact fun large => geometry.lt_eoc valid (.inr large)
    · change Volume.next _ cluster = none
      unfold Volume.next
      rw [blank_fat, setFat_of_ne _ _ differ, setFat_self, if_pos (by decide)]
  valid other member := by
    rcases mem_append.mp member with former | new
    · exact chain.valid other former
    · exact mem_singleton.mp new ▸ valid

namespace Layout

/-! ## Elementary changes -/

section

variable (layout : st.Layout vol table exempt)
include layout

/-- The layout does not depend on clusters that nobody owns. -/
theorem frame
    (agree : ∀ owner node, table owner = some node →
      ∀ cluster ∈ node.clusters,
        vol'.fat cluster = vol.fat cluster ∧ vol'.data cluster = vol.data cluster) :
    st.Layout vol' table exempt where
  root := layout.root
  chain owner node owned := by
    obtain ⟨start, chain⟩ := layout.chain owner node owned
    exact ⟨start, chain.congr fun cluster member => (agree owner node owned cluster member).1⟩
  apart := layout.apart
  dots owner node differ owned isDir := by
    rw [slots_congr fun cluster member => (agree owner node owned cluster member).2]
    exact layout.dots owner node differ owned isDir
  entries owner node owned isDir loc member counted short := by
    have inside := (mem_locs.mp (mem_locs_of_entryLocs member)).1
    have same : st.slotAt vol' loc = st.slotAt vol loc :=
      slotAt_congr (agree owner node owned loc.1 inside).2
    rw [same] at short
    exact (layout.entries owner node owned isDir loc member counted short).congr same rfl

theorem fat_ne_free (owned : table owner = some node) (member : cluster ∈ node.clusters) :
    vol.fat cluster ≠ fatFree := by
  obtain ⟨_, chain⟩ := layout.chain owner node owned
  exact chain.fat_ne_free member

theorem spared (spares : vol.Spares vol') : st.Layout vol' table exempt :=
  layout.frame fun _ _ owned cluster member => spares cluster (layout.fat_ne_free owned member)

end

theorem release (layout : st.Layout vol table none) (loc : Loc) :
    st.Layout vol (update table (.slot loc) none) (some loc) := by
  have kept : ∀ {owner node}, update table (.slot loc) none owner = some node →
      table owner = some node := by
    intro owner node owned
    obtain ⟨_, ⟨⟩⟩ | ⟨_, owned⟩ := update_eq_some.mp owned
    exact owned
  refine ⟨?_, fun owner node owned => layout.chain owner node (kept owned),
    fun owner other node node' differ owned owned' =>
      layout.apart owner other node node' differ (kept owned) (kept owned'),
    fun owner node differ owned => layout.dots owner node differ (kept owned), ?_⟩
  · exact layout.root
  · intro owner node owned isDir other member counted short
    have differ : Owner.slot other ≠ .slot loc := fun same => counted (by cases same; rfl)
    exact (layout.entries owner node (kept owned) isDir other member nofun short).congr rfl
      (update_of_ne differ ..)

section

variable (layout : st.Layout vol table exempt)
include layout

/-- The operation takes clusters that nobody owns. -/
theorem hold (chain : st.Chain vol start node.clusters)
    (fresh : ∀ owner other, table owner = some other → node.clusters.Disjoint other.clusters)
    (dots : node.isDir = true → DotSlots (st.slots vol node.clusters))
    (blank : node.isDir = true → ∀ loc ∈ st.entryLocs .held node.clusters,
      ¬ (st.slotAt vol loc).IsShort) : st.Layout vol (update table .held (some node)) exempt where
  root := by
    exact layout.root
  chain owner known owned := by
    obtain ⟨_, ⟨⟩⟩ | ⟨_, owned⟩ := update_eq_some.mp owned
    · exact ⟨start, chain⟩
    · exact layout.chain owner known owned
  apart owner other known known' differ owned owned' := by
    obtain ⟨same, ⟨⟩⟩ | ⟨_, owned⟩ := update_eq_some.mp owned
    · obtain ⟨same', _⟩ | ⟨_, owned'⟩ := update_eq_some.mp owned'
      · exact absurd (same.trans same'.symm) differ
      · exact fresh other known' owned'
    · obtain ⟨_, ⟨⟩⟩ | ⟨_, owned'⟩ := update_eq_some.mp owned'
      · exact fun _ first second => fresh owner known owned second first
      · exact layout.apart owner other known known' differ owned owned'
  dots owner known differ owned isDir := by
    obtain ⟨_, ⟨⟩⟩ | ⟨_, owned⟩ := update_eq_some.mp owned
    · exact dots isDir
    · exact layout.dots owner known differ owned isDir
  entries owner known owned isDir loc member counted short := by
    obtain ⟨same, ⟨⟩⟩ | ⟨_, owned⟩ := update_eq_some.mp owned
    · exact absurd short (blank isDir loc (same ▸ member))
    · exact (layout.entries owner known owned isDir loc member counted short).congr rfl
        (update_of_ne (by nofun) ..)

/-- A written slot of a directory takes over what the operation holds. -/
theorem commit (counted : exempt = none ∨ exempt = some loc)
    (owned : table owner = some node) (member : loc ∈ st.entryLocs owner node.clusters)
    (agree : ∀ other ≠ loc, st.slotAt vol' other = st.slotAt vol other)
    (elsewhere : ∀ cluster ≠ loc.1, vol'.data cluster = vol.data cluster) (fat : vol'.fat = vol.fat)
    (entry : (st.slotAt vol' loc).IsShort →
      Holds table (st.slotAt vol' loc).isDir (st.slotAt vol' loc).cluster) :
    st.Layout vol' (update (update table .held none) (.slot loc) (table .held))
      none := by
  generalize renewed : update (update table .held none) (.slot loc)
    (table .held) = table'
  -- Each owner of the new table stands for one of the old one.
  let former (key : Owner) : Owner := if key = .slot loc then .held else key
  have moved : ∀ {key known}, table' key = some known →
      key ≠ .held ∧ table (former key) = some known := by
    intro key known known'
    rw [← renewed] at known'
    obtain ⟨rfl, taken⟩ | ⟨differ, others⟩ := update_eq_some.mp known'
    · exact ⟨nofun, by rwa [show former (.slot loc) = .held from if_pos rfl]⟩
    · obtain ⟨_, ⟨⟩⟩ | ⟨notHeld, kept⟩ := update_eq_some.mp others
      exact ⟨notHeld, by rwa [show former key = key from if_neg differ]⟩
  have isRoot : ∀ {key}, former key = .root ↔ key = .root := by
    intro key
    by_cases same : key = .slot loc
    · simp [former, same]
    · simp [former, same]
  have inside : loc.1 ∈ node.clusters := (mem_locs.mp (mem_locs_of_entryLocs member)).1
  refine ⟨?_, ?_, ?_, ?_, ?_⟩
  · rw [← renewed]
    exact layout.root
  · intro key known known'
    obtain ⟨start, chain⟩ := layout.chain _ _ (moved known').2
    exact ⟨start, chain.congr fun cluster _ => by rw [fat]⟩
  · intro key other known known' differ first second
    obtain ⟨notHeld, first⟩ := moved first
    obtain ⟨notHeld', second⟩ := moved second
    refine layout.apart _ _ _ _ (fun same => ?_) first second
    simp only [former] at same
    split_ifs at same with one two two
    · exact differ (one.trans two.symm)
    · exact notHeld' same.symm
    · exact notHeld same
    · exact differ same
  · intro key known differ known' dir
    obtain ⟨_, before⟩ := moved known'
    have dots := layout.dots _ _ (fun same => differ (isRoot.mp same)) before dir
    by_cases here : former key = owner
    · rw [here, owned] at before
      cases before
      obtain ⟨_, chain⟩ := layout.chain _ _ owned
      have proper : loc ∈ (st.locs node.clusters).drop 2 := by
        rw [entryLocs, if_neg (here ▸ fun same => differ (isRoot.mp same))] at member
        exact member
      exact dots.congr chain.nodup proper agree
    · have apart := layout.apart _ _ _ _ here before owned
      rw [slots_congr fun cluster known => elsewhere cluster fun same => apart known (same ▸ inside)]
      exact dots
  · intro key known known' dir other place _ short
    by_cases here : other = loc
    · rw [here] at short ⊢
      unfold Owned
      rw [← renewed, update_self]
      exact entry short
    rw [agree other here] at short
    have places : other ∈ st.entryLocs (former key) known.clusters := by
      unfold entryLocs at place ⊢
      simpa only [isRoot] using place
    have skipped : some other ≠ exempt := by
      rcases counted with rfl | rfl
      · nofun
      · exact fun same => here (Option.some.inj same)
    refine (layout.entries _ _ (moved known').2 dir other places skipped short).congr
      (agree other here) ?_
    rw [← renewed, update_of_ne (fun same => here (by cases same; rfl)), update_of_ne (by nofun)]

/-- A directory grows by a cluster of zeros. -/
theorem extend (owned : table owner = some ⟨front ++ [last], true⟩) (geometry : st.Geometry)
    (valid : st.IsCluster cluster) (free : vol.fat cluster = fatFree) :
    st.Layout (((vol.setFat cluster 0x0FFFFFFF).setFat last cluster).blank cluster)
      (update table owner (some ⟨front ++ [last] ++ [cluster], true⟩)) exempt := by
  generalize grows : ((vol.setFat cluster 0x0FFFFFFF).setFat last cluster).blank cluster = vol'
  have longer : ∀ {start}, st.Chain vol start (front ++ [last]) →
      st.Chain vol' start (front ++ [last] ++ [cluster]) :=
    fun chain => grows ▸ chain.extend geometry valid free
  have cleared : vol'.data cluster = fun _ => 0 := grows ▸ blank_self ..
  have data : ∀ {other}, other ≠ cluster → vol'.data other = vol.data other :=
    fun differ => grows ▸ blank_of_ne _ differ
  have fat : ∀ {other}, other ≠ cluster → other ≠ last → vol'.fat other = vol.fat other := by
    intro other differ differ'
    rw [← grows, blank_fat, setFat_of_ne _ _ differ', setFat_of_ne _ _ differ]
  have fresh : ∀ {key known}, table key = some known → cluster ∉ known.clusters :=
    fun known member => layout.fat_ne_free known member free
  have outside : ∀ {key known}, table key = some known → key ≠ owner → last ∉ known.clusters :=
    fun known differ member => layout.apart _ _ _ _ differ known owned member (by simp)
  have kept : ∀ {key known}, table key = some known → ∀ loc ∈ st.locs known.clusters,
      st.slotAt vol' loc = st.slotAt vol loc := by
    intro key known owned loc member
    refine slotAt_congr (data fun same => fresh owned ?_)
    exact same ▸ (mem_locs.mp member).1
  have apart : ∀ {key known}, table key = some known → key ≠ owner →
      (front ++ [last] ++ [cluster]).Disjoint known.clusters := by
    intro key known owned' differ place first second
    rcases mem_append.mp first with former | new
    · exact layout.apart _ _ _ _ differ owned' owned second former
    · exact fresh owned' (mem_singleton.mp new ▸ second)
  -- The chain that grows keeps its start, so its slot still owns it.
  have grown : ∀ {loc}, st.Owned vol table loc → st.slotAt vol' loc = st.slotAt vol loc →
      st.Owned vol' (update table owner (some ⟨front ++ [last] ++ [cluster], true⟩)) loc := by
    intro loc owns same
    refine owns.imp same fun node known => ?_
    by_cases here : Owner.slot loc = owner
    · rw [here, owned] at known
      cases known
      exact ⟨⟨front ++ [last] ++ [cluster], true⟩, by rw [here, update_self], rfl,
        by simp [head?_append]⟩
    · exact ⟨node, by rwa [update_of_ne here], rfl, rfl⟩
  refine ⟨?_, ?_, ?_, ?_, ?_⟩
  · obtain ⟨node, rooted, isDir, head⟩ := layout.root
    by_cases same : owner = .root
    · rw [same, rooted] at owned
      cases owned
      refine ⟨_, by rw [same, update_self], rfl, ?_⟩
      rw [head?_append, head]
      rfl
    · exact ⟨node, by rwa [update_of_ne (Ne.symm same)], isDir, head⟩
  · intro key known known'
    obtain ⟨rfl, ⟨⟩⟩ | ⟨differ, known'⟩ := update_eq_some.mp known'
    · obtain ⟨start, chain⟩ := layout.chain _ _ owned
      exact ⟨start, longer chain⟩
    · obtain ⟨start, chain⟩ := layout.chain _ _ known'
      refine ⟨start, chain.congr fun other member => fat ?_ ?_⟩
      · exact fun same => fresh known' (same ▸ member)
      · exact fun same => outside known' differ (same ▸ member)
  · intro key other known known' differ first second
    obtain ⟨same, ⟨⟩⟩ | ⟨here, first⟩ := update_eq_some.mp first
    · obtain ⟨same', _⟩ | ⟨here', second⟩ := update_eq_some.mp second
      · exact absurd (same.trans same'.symm) differ
      · exact apart second here'
    · obtain ⟨_, ⟨⟩⟩ | ⟨_, second⟩ := update_eq_some.mp second
      · exact fun _ one two => apart first here two one
      · exact layout.apart _ _ _ _ differ first second
  · intro key known differ known' isDir
    obtain ⟨rfl, ⟨⟩⟩ | ⟨_, known'⟩ := update_eq_some.mp known'
    · have dots := layout.dots _ _ differ owned rfl
      unfold slots at dots ⊢
      rw [locs_append, map_append, map_congr_left (kept owned)]
      exact dots.append _
    · have dots := layout.dots _ _ differ known' isDir
      unfold slots at dots ⊢
      rwa [map_congr_left (kept known')]
  · intro key known known' isDir loc member counted short
    obtain ⟨rfl, ⟨⟩⟩ | ⟨_, known'⟩ := update_eq_some.mp known'
    · rcases mem_entryLocs_append member with former | new
      · have same := kept owned loc (mem_locs_of_entryLocs former)
        rw [same] at short
        exact grown (layout.entries _ _ owned rfl loc former counted short) same
      · have inside := mem_singleton.mp (mem_locs.mp new).1
        exact absurd (first_of_zeros (inside ▸ cleared)) short.inUse
    · have same := kept known' loc (mem_locs_of_entryLocs member)
      rw [same] at short
      exact grown (layout.entries _ _ known' isDir loc member counted short) same

/-- A slot that can take an entry is not one of the dot entries. -/
theorem vacantLoc (owned : table owner = some node)
    (isDir : node.isDir = true) (member : loc ∈ st.locs node.clusters)
    (vacant : (st.slotAt vol loc).isVacant = true) : loc ∈ st.entryLocs owner node.clusters := by
  have unused : ¬ (st.slotAt vol loc).IsShort :=
    fun short => (of_decide_eq_true vacant).elim short.inUse short.kept
  unfold entryLocs
  split_ifs with isRoot
  · exact member
  · obtain ⟨first, second, rest, shape, short, _, short', _⟩ :=
      layout.dots owner node isRoot owned isDir
    unfold slots at shape
    match known : st.locs node.clusters with
    | [] => rw [known] at shape; cases shape
    | [_] => rw [known] at shape; cases shape
    | one :: two :: others =>
      rw [known] at shape member
      obtain ⟨⟩ := shape
      obtain rfl | member := mem_cons.mp member
      · exact absurd short unused
      · obtain rfl | member := mem_cons.mp member
        · exact absurd short' unused
        · exact member

end

theorem write (layout : st.Layout vol table none)
    (owned : table owner = some ⟨clusters, true⟩) (member : loc ∈ st.locs clusters)
    (vacant : (st.slotAt vol loc).isVacant = true) (whole : raw.length = 32)
    (holds : ∀ slot : Slot, slot.raw = raw → Holds table slot.isDir slot.cluster) :
    ∃ table', table' .held = none ∧
      st.Layout (vol.patch loc.1 (loc.2 * 32) raw) table' none := by
  refine ⟨_, ?_, layout.commit (.inl rfl) owned (layout.vacantLoc owned rfl member vacant)
    (fun other differ => ?_) (fun cluster differ => patch_of_ne _ _ differ _ _) rfl
    fun _ => holds _ ?_⟩
  · rw [update_of_ne (by nofun), update_self]
  · exact slotAt_patch_of_ne differ (show 0 + raw.length ≤ 32 by omega)
  · rw [slotAt_patch_self whole]

/-- Entering an entry into a directory hands over what the operation holds. -/
theorem entered (layout : st.Layout vol table none)
    (geometry : st.Geometry) (owned : table owner = some ⟨clusters, true⟩)
    (notHeld : owner ≠ .held) (whole : raw.length = 32)
    (holds : ∀ slot : Slot, slot.raw = raw → Holds table slot.isDir slot.cluster)
    (entered : st.Entered vol clusters raw true after) :
    ∃ table', table' .held = none ∧ st.Layout after table' none := by
  cases entered with
  | slot shape used vacant =>
    refine layout.write owned ?_ vacant whole holds
    rw [shape]
    exact mem_append_right _ (.head _)
  | extended shape used free =>
    rename_i front rest last cluster
    obtain ⟨valid, unused⟩ := mem_freeClusters.mp (free ▸ mem_cons_self)
    rw [shape] at owned
    have grown := layout.extend owned geometry valid unused
    have kept : update table owner (some ⟨front ++ [last] ++ [cluster], true⟩) .held =
        table .held := update_of_ne notHeld.symm ..
    have place : ((cluster, 0) : Loc) ∈ st.locs (front ++ [last] ++ [cluster]) :=
      mem_locs.mpr ⟨by simp, mul_pos geometry.cluster_pos (by decide)⟩
    have written := grown.write (update_self ..) place ?_ whole ?_
    · rwa [Nat.zero_mul] at written
    · exact decide_eq_true (.inl (first_of_zeros (blank_self ..)))
    · unfold Holds
      rw [kept]
      exact holds

theorem stored {data : List UInt8} (layout : st.Layout vol table exempt)
    (stored : st.Stored vol data first vol') :
    ∃ table', (∀ key ≠ .held, table' key = table key) ∧ st.Layout vol' table' exempt ∧
      Holds table' false (first.getD 0) := by
  cases stored with
  | empty => exact ⟨table, fun _ _ => rfl, layout, nofun, fun large => absurd large (by decide)⟩
  | full => exact ⟨table, fun _ _ => rfl, layout, nofun, fun large => absurd large (by decide)⟩
  | chained something enough chained =>
    have kept := layout.spared (Stored.chained something enough chained).spares
    have chain : st.Chain vol' _ (Node.mk (st.granted vol data) false).clusters := chained.chain
    refine ⟨_, fun key differ => update_of_ne differ .., kept.hold chain ?_ nofun nofun,
      nofun, fun _ => ⟨_, update_self .., rfl, chain.head?⟩⟩
    intro owner other owned cluster granted member
    exact layout.fat_ne_free owned member (mem_granted granted).2

theorem freed (layout : st.Layout vol table none)
    (owned : old = [] ∨ ∃ isDir, table (.slot loc) = some ⟨old, isDir⟩) :
    st.Layout (vol.mark fatFree old) (update table (.slot loc) none) (some loc) := by
  refine (layout.release loc).frame fun owner node known cluster member => ⟨?_, rfl⟩
  obtain ⟨_, ⟨⟩⟩ | ⟨differ, known⟩ := update_eq_some.mp known
  refine mark_of_not_mem ?_ _
  rcases owned with rfl | ⟨isDir, owned⟩
  · exact not_mem_nil
  · exact fun given => layout.apart _ _ _ _ differ known owned member given

end Layout

/-! ## The operations -/

/-- Every chain of the volume has one owner, and no operation is under way. -/
def LaidOut (st : Fat32State) (vol : Volume) : Prop :=
  ∃ table, table .held = none ∧ st.Layout vol table none

theorem isDir_entryAttr {isDir : Bool} (attr : slot.attr = entryAttr isDir) :
    slot.isDir = isDir := by
  unfold Slot.isDir
  rw [attr]
  cases isDir <;> decide

theorem Entered.eq_of_false (entered : st.Entered vol clusters raw false after) : after = vol := by
  cases entered
  rfl

namespace InDir

variable {data : List UInt8} {ok : Bool}

theorem owner_ne_held (dir : st.InDir vol table owner clusters start) : owner ≠ .held := by
  rintro rfl
  have owned := dir.owned
  rw [dir.idle] at owned
  cases owned

theorem laidOut (dir : st.InDir vol table owner clusters start) : st.LaidOut vol :=
  ⟨table, dir.idle, dir.layout⟩

theorem start_lt (geometry : st.Geometry)
    (stored : st.Stored vol data first vol') : first.getD 0 % 2 ^ 32 = first.getD 0 := by
  refine Nat.mod_eq_of_lt ?_
  cases stored with
  | empty => decide
  | full => decide
  | chained _ _ chained =>
    exact lt_trans (geometry.cluster_lt chained.chain.start_valid) (by decide)

section

variable (dir : st.InDir vol table owner clusters start)
include dir

theorem old_owned {before behind : List Loc} {pending : List (UInt8 × List Char)} {entry : DirEntry}
    (split : st.SplitAt unicode vol clusters before loc behind pending)
    (look : unicode.look pending (st.slotAt vol loc) = .entry entry)
    (chain : st.OldChain vol entry.cluster old) :
    old = [] ∨ ∃ isDir, table (.slot loc) = some ⟨old, isDir⟩ := by
  obtain ⟨known, chain', _, owns⟩ := dir.exists_old split look
  unfold OldChain at chain chain'
  by_cases large : 2 ≤ entry.cluster
  · rw [if_pos large] at chain chain'
    rw [chain.unique chain']
    exact .inr ⟨_, owns large⟩
  · rw [if_neg large] at chain
    exact .inl chain

theorem owner_ne_slot (member : loc ∈ st.locs clusters) : owner ≠ .slot loc :=
  fun same => dir.outside loc same (mem_locs.mp member).1

/-- Writing a file keeps the layout, unless it overwrites a directory. -/
theorem writeFile_laidOut (geometry : st.Geometry)
    (noDir : ∀ entry, (st.listing unicode vol clusters).find?
      (unicode.named name) = some entry → entry.isDir = false)
    (outcome : st.WriteOutcome unicode vol clusters name data ok vol') : st.LaidOut vol' := by
  cases outcome with
  | overwritten found chain stored =>
    rename_i before behind loc pending entry old first vol'
    have isFile := noDir entry found.find?_eq
    have proper := dir.layout.entryLoc dir.owned rfl found.split found.look
    obtain ⟨table', kept, layout, holds⟩ :=
      (dir.layout.freed (dir.old_owned found.split found.look chain)).stored stored
    have owned : table' owner = some ⟨clusters, true⟩ := by
      rw [kept owner dir.owner_ne_held, update_of_ne (dir.owner_ne_slot found.split.mem), dir.owned]
    have whole := length_patchClusterSize (length_slotAt st vol loc) (first.getD 0)
      (data.length % 2 ^ 32)
    refine ⟨_, ?_, layout.commit (.inr rfl) owned proper (fun other differ => ?_)
      (fun cluster differ => patch_of_ne _ _ differ _ _) rfl fun _ => ?_⟩
    · rw [update_of_ne (by nofun), update_self]
    · exact slotAt_patch_of_ne differ (le_of_eq (by rw [zero_add, whole]))
    · obtain ⟨_, _, rfl⟩ := Unicode.look_eq_entry found.look
      obtain ⟨cluster, _, attr, _⟩ := Slot.fields_of_patch (length_slotAt st vol loc)
        (congrArg Slot.raw (slotAt_patch_self whole))
      have same : Slot.isDir _ = false := (congrArg (fun attr =>
        decide (attr &&& attrDirectory ≠ 0)) attr).trans isFile
      rw [cluster, start_lt geometry stored, same]
      exact holds
  | created absent encoded stored entered =>
    cases ok with
    | false =>
      rw [entered.eq_of_false]
      exact ⟨table, dir.idle, dir.layout.spared stored.spares⟩
    | true =>
      obtain ⟨table', kept, layout, holds⟩ := dir.layout.stored stored
      have length := length_encode83Name encoded
      refine layout.entered geometry ((kept owner dir.owner_ne_held).trans dir.owned)
        dir.owner_ne_held (length_rawEntry length ..) (fun slot shape => ?_) entered
      obtain ⟨cluster, _, attr, _⟩ := Slot.fields_of_rawEntry length shape
      rw [isDir_entryAttr attr, cluster, start_lt geometry stored]
      exact holds
  | refused absent invalid stored => exact ⟨table, dir.idle, dir.layout.spared stored.spares⟩

theorem delete_laidOut
    (outcome : st.DeleteOutcome unicode vol clusters name ok vol') : st.LaidOut vol' := by
  cases outcome with
  | absent => exact dir.laidOut
  | occupied => exact dir.laidOut
  | deleted found chain empty =>
    have proper := dir.layout.entryLoc dir.owned rfl found.split found.look
    have layout := dir.layout.freed (dir.old_owned found.split found.look chain)
    have owned := (update_of_ne (dir.owner_ne_slot found.split.mem) none table).trans
      dir.owned
    refine ⟨_, ?_, layout.commit (.inr rfl) owned proper (fun other differ => ?_)
      (fun cluster differ => patch_of_ne _ _ differ _ _) rfl fun short => ?_⟩
    · rw [update_of_ne (by nofun), update_self]
    · exact slotAt_patch_of_ne differ (show 0 + [(0xE5 : UInt8)].length ≤ 32 by decide)
    · rw [slotAt_patch_first] at short
      exact absurd rfl short.kept

end

end InDir

/-! ## Fresh directories -/

section FreshDir

variable {cluster : Nat}

/-- The slots of a fresh directory. -/
theorem slotAt_freshDir (st : Fat32State) (vol : Volume) (cluster parent : Nat) :
    (st.slotAt (freshDir vol cluster parent) (cluster, 0)).raw =
        rawEntry (dotName 1) attrDirectory cluster 0 ∧
      (st.slotAt (freshDir vol cluster parent) (cluster, 1)).raw =
        rawEntry (dotName 2) attrDirectory parent 0 ∧
      ∀ index, 2 ≤ index →
        (st.slotAt (freshDir vol cluster parent) (cluster, index)).first = 0x00 := by
  have whole : (rawEntry (dotName 1) attrDirectory cluster 0).length = 32 :=
    length_rawEntry (by decide) ..
  have whole' : (rawEntry (dotName 2) attrDirectory parent 0).length = 32 :=
    length_rawEntry (by decide) ..
  have zeros : ((vol.setFat cluster 0x0FFFFFFF).blank cluster).data cluster = fun _ => 0 :=
    blank_self ..
  unfold freshDir
  rw [patch_append, whole]
  have kept : ∀ {vol : Volume} {bytes : List UInt8} (index : Nat) {other : Nat}, bytes.length = 32 →
      other ≠ index → st.slotAt (vol.patch cluster (index * 32) bytes) (cluster, other) =
        st.slotAt vol (cluster, other) := by
    intro vol bytes index other length differ
    have places : ((cluster, other) : Loc) ≠ (cluster, index) :=
      fun same => differ (Prod.mk.inj same).2
    exact slotAt_patch_of_ne places (show 0 + bytes.length ≤ 32 by omega)
  have put : ∀ {vol : Volume} {bytes : List UInt8} (index : Nat), bytes.length = 32 →
      (st.slotAt (vol.patch cluster (index * 32) bytes) (cluster, index)).raw = bytes :=
    fun index length => congrArg Slot.raw (slotAt_patch_self length)
  refine ⟨?_, put 1 whole', fun index large => ?_⟩
  · exact (congrArg Slot.raw (kept 1 whole' (by decide))).trans (put 0 whole)
  · refine (congrArg Slot.first (kept 1 whole' (by omega))).trans ?_
    refine (congrArg Slot.first (kept 0 whole (by omega))).trans ?_
    exact first_of_zeros zeros

theorem freshDir_used (vol : Volume) (cluster parent : Nat) :
    (freshDir vol cluster parent).fat cluster ≠ fatFree := by
  have marked : (freshDir vol cluster parent).fat cluster = 0x0FFFFFFF := setFat_self ..
  rw [marked]
  decide

theorem chain_freshDir (valid : st.IsCluster cluster) (vol : Volume) (parent : Nat) :
    st.Chain (freshDir vol cluster parent) cluster [cluster] where
  linked := by
    refine ⟨rfl, ?_⟩
    change Volume.next (freshDir vol cluster parent) cluster = none
    unfold Volume.next freshDir
    rw [patch_fat, blank_fat, setFat_self, if_pos (by decide)]
  valid other member := mem_singleton.mp member ▸ valid

theorem isShort_dot {dots : Nat} (known : dots = 1 ∨ dots = 2)
    (raw : slot.raw = rawEntry (dotName dots) attrDirectory cluster 0) :
    slot.IsShort ∧ slot.raw.take 11 = dotName dots := by
  have length : (dotName dots).length = 11 := by rcases known with rfl | rfl <;> decide
  obtain ⟨_, _, attr, first, taken⟩ := Slot.fields_of_rawEntry length raw
  have dot : slot.first = 0x2E := by
    rw [first]
    rcases known with rfl | rfl <;> decide
  refine ⟨⟨?_, ?_, ?_, ?_⟩, taken⟩
  · rw [dot]; decide
  · rw [dot]; decide
  · rw [attr]; decide
  · rw [attr]; decide

theorem locs_singleton (geometry : st.Geometry) (cluster : Nat) :
    ∃ rest, st.locs [cluster] = (cluster, 0) :: (cluster, 1) :: rest ∧
      ∀ loc ∈ rest, ∃ index, loc = (cluster, index) ∧ 2 ≤ index := by
  obtain ⟨count, shape⟩ := Nat.exists_eq_add_of_le
    (show 2 ≤ st.sectorsPerCluster * 16 by have := geometry.cluster_pos; omega)
  refine ⟨(List.range' 2 count).map fun index => (cluster, index), ?_, ?_⟩
  · unfold locs
    rw [flatMap_singleton, shape, range_eq_range', ← range'_append_1]
    rfl
  · intro loc member
    obtain ⟨index, range, rfl⟩ := List.mem_map.mp member
    exact ⟨index, rfl, (mem_range'_1.mp range).1⟩

/-- Creating a directory keeps the layout. -/
theorem InDir.mkdir_laidOut {ok : Bool} (dir : st.InDir vol table owner clusters start)
    (geometry : st.Geometry)
    (outcome : st.MkdirOutcome unicode vol start clusters name ok vol') : st.LaidOut vol' := by
  cases outcome with
  | present => exact dir.laidOut
  | exhausted => exact dir.laidOut
  | refused absent invalid free =>
    obtain ⟨_, unused⟩ := mem_freeClusters.mp (free ▸ mem_cons_self)
    exact ⟨table, dir.idle, dir.layout.spared (freshDir_spares unused start)⟩
  | created absent encoded free entered =>
    rename_i short cluster rest
    obtain ⟨valid, unused⟩ := mem_freeClusters.mp (free ▸ mem_cons_self)
    have layout := dir.layout.spared (freshDir_spares unused start)
    cases ok with
    | false =>
      rw [entered.eq_of_false]
      exact ⟨table, dir.idle, layout⟩
    | true =>
      have chain : st.Chain (freshDir vol cluster start) cluster
          (Node.mk [cluster] true).clusters := chain_freshDir valid vol start
      obtain ⟨one, two, blank⟩ := slotAt_freshDir st vol cluster start
      obtain ⟨others, shape, behind⟩ := locs_singleton geometry cluster
      have held := layout.hold chain ?_ (fun _ => ?_) (fun _ => ?_)
      · have length := length_encode83Name encoded
        refine held.entered geometry
          ((update_of_ne dir.owner_ne_held ..).trans dir.owned) dir.owner_ne_held
          (length_rawEntry length ..) (fun slot raw => ?_) entered
        obtain ⟨same, _, attr, _⟩ := Slot.fields_of_rawEntry length raw
        have small := lt_trans (geometry.cluster_lt valid) (by decide : 2 ^ 28 < 2 ^ 32)
        rw [isDir_entryAttr attr, same, Nat.mod_eq_of_lt small]
        exact ⟨fun _ => valid.1, fun _ => ⟨_, update_self .., rfl, rfl⟩⟩
      · intro key known owned place here member
        cases mem_singleton.mp here
        exact dir.layout.fat_ne_free owned member unused
      · unfold slots
        rw [shape]
        obtain ⟨short, name⟩ := isShort_dot (.inl rfl) one
        obtain ⟨short', name'⟩ := isShort_dot (.inr rfl) two
        exact ⟨_, _, _, rfl, short, name, short', name'⟩
      · intro loc member short
        unfold entryLocs at member
        rw [shape] at member
        obtain ⟨index, rfl, large⟩ := behind loc member
        exact short.inUse (blank index large)

end FreshDir

end Fat32State

end CantayaOS.Storage
