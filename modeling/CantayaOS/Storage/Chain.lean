import CantayaOS.Lib.Linked
import CantayaOS.Storage.Volume

/-!
# Cluster chains and free clusters

A chain is followed through the table to an end mark.  The driver's loops over
the table are described on the volume: which list of clusters they visit, and
which entries they change.
-/

namespace CantayaOS.Storage

open Lib Fat32State Volume List

variable {other vol : Volume} {cluster : Nat} {rest : List Nat}

namespace Volume

def next (vol : Volume) (cluster : Nat) : Option Nat :=
  if fatEoc ≤ vol.fat cluster then none else some (vol.fat cluster)

/-- The volume with the value written to the entries of the clusters. -/
def mark (vol : Volume) (value : Nat) (clusters : List Nat) : Volume :=
  { vol with fat := fun cluster => if cluster ∈ clusters then value else vol.fat cluster }

/-- The volume with each cluster of the list linked to the one behind it. -/
def link (vol : Volume) : List Nat → Volume
  | first :: second :: rest => link (vol.setFat first second) (second :: rest)
  | _ => vol

/-- Clusters that are in use are the same in the other volume. -/
def Spares (vol other : Volume) : Prop :=
  ∀ cluster, vol.fat cluster ≠ fatFree →
    other.fat cluster = vol.fat cluster ∧ other.data cluster = vol.data cluster

theorem mark_cons (vol : Volume) (value first : Nat) (rest : List Nat) :
    (vol.setFat first value).mark value rest = vol.mark value (first :: rest) := by
  refine congrArg (Volume.mk · vol.data) (funext fun cluster => ?_)
  simp only [setFat]
  by_cases here : cluster = first
  · simp [here]
  · simp [here]

@[simp] theorem mark_data (vol : Volume) (value : Nat) (clusters : List Nat) :
    (vol.mark value clusters).data = vol.data := rfl

variable {clusters : List Nat}

theorem mark_of_mem
    (member : cluster ∈ clusters) (value : Nat) : (vol.mark value clusters).fat cluster = value :=
  if_pos member

theorem mark_of_not_mem (outside : cluster ∉ clusters) (value : Nat) :
    (vol.mark value clusters).fat cluster = vol.fat cluster :=
  if_neg outside

/-- Marking free clusters and freeing them again leaves the volume as it was. -/
theorem free_mark (free : ∀ cluster ∈ clusters, vol.fat cluster = fatFree) (value : Nat) :
    (vol.mark value clusters).mark fatFree clusters = vol := by
  refine congrArg (Volume.mk · vol.data) (funext fun cluster => ?_)
  by_cases member : cluster ∈ clusters
  · simp [member, free cluster member]
  · simp [mark, member]

theorem link_data (vol : Volume) (clusters : List Nat) : (vol.link clusters).data = vol.data := by
  induction clusters generalizing vol with
  | nil => rfl
  | cons first rest ih =>
    cases rest with
    | nil => rfl
    | cons second rest => exact ih (vol.setFat first second)

theorem link_fat_of_not_mem
    (outside : cluster ∉ clusters) : (vol.link clusters).fat cluster = vol.fat cluster := by
  induction clusters generalizing vol with
  | nil => rfl
  | cons first rest ih =>
    cases rest with
    | nil => rfl
    | cons second rest =>
      obtain ⟨differ, later⟩ := not_or.mp (mt mem_cons.mpr outside)
      rw [link, ih later]
      exact setFat_of_ne _ _ differ _

end Volume

namespace Fat32State

/-- From `start` the table leads through the clusters, all of them data clusters, to an end mark. -/
structure Chain (st : Fat32State) (vol : Volume) (start : Nat) (clusters : List Nat) : Prop where
  linked : Linked vol.next (some start) clusters none
  valid : ∀ cluster ∈ clusters, st.IsCluster cluster

/-- The free clusters in the order in which the allocation meets them. -/
def freeClusters (st : Fat32State) (vol : Volume) : List Nat :=
  (List.range' 2 st.totalClusters).filter fun cluster => decide (vol.fat cluster = fatFree)

variable {st : Fat32State} {disk : Disk} {vol : Volume} {start cluster : Nat} {clusters : List Nat}

theorem mem_freeClusters : cluster ∈ st.freeClusters vol ↔
    st.IsCluster cluster ∧ vol.fat cluster = fatFree := by
  unfold freeClusters IsCluster
  rw [mem_filter, mem_range'_1, decide_eq_true_eq]
  constructor
  · rintro ⟨range, free⟩
    exact ⟨by omega, free⟩
  · rintro ⟨range, free⟩
    exact ⟨by omega, free⟩

theorem nodup_freeClusters (st : Fat32State) (vol : Volume) : (st.freeClusters vol).Nodup :=
  (nodup_range' 1).filter _

theorem length_le_totalClusters (distinct : clusters.Nodup)
    (valid : ∀ cluster ∈ clusters, st.IsCluster cluster) : clusters.length ≤ st.totalClusters := by
  have inside : clusters ⊆ List.range' 2 st.totalClusters := by
    intro cluster member
    have known := valid cluster member
    unfold IsCluster at known
    rw [mem_range'_1]
    omega
  have bound := (subperm_of_subset distinct inside).length_le
  rwa [length_range'] at bound

namespace Chain

section

variable (chain : st.Chain vol start clusters)
include chain

theorem nodup : clusters.Nodup := chain.linked.nodup

theorem unique {others : List Nat} (other : st.Chain vol start others) : clusters = others :=
  chain.linked.unique other.linked

theorem exists_cons : ∃ rest, clusters = start :: rest := by
  cases clusters with
  | nil => cases (show some start = none from chain.linked)
  | cons first rest =>
    obtain ⟨same, _⟩ := chain.linked
    cases same
    exact ⟨rest, rfl⟩

theorem start_mem : start ∈ clusters := by
  obtain ⟨rest, rfl⟩ := chain.exists_cons
  exact .head _

theorem start_valid : st.IsCluster start :=
  chain.valid start chain.start_mem

theorem length_le : clusters.length ≤ st.totalClusters :=
  length_le_totalClusters chain.nodup chain.valid

theorem congr (agree : ∀ cluster ∈ clusters, other.fat cluster = vol.fat cluster) :
    st.Chain other start clusters where
  linked := chain.linked.congr fun cluster member => by
    unfold Volume.next
    rw [agree cluster member]
  valid := chain.valid

end

theorem tail {second : Nat} (chain : st.Chain vol start (start :: second :: rest)) :
    vol.fat start = second ∧ st.Chain vol second (second :: rest) := by
  obtain ⟨_, linked⟩ := chain.linked
  obtain ⟨next, later⟩ := linked
  unfold Volume.next at next
  split at next
  · cases next
  · rw [Option.some.injEq] at next
    refine ⟨next, ⟨rfl, later⟩, fun cluster member => chain.valid cluster ?_⟩
    exact mem_cons_of_mem _ member

theorem last_eoc (chain : st.Chain vol start [start]) : fatEoc ≤ vol.fat start := by
  obtain ⟨_, ended⟩ := chain.linked
  unfold Volume.next at ended
  split at ended
  next marked => exact marked
  next => cases ended

theorem fat_ne_free (chain : st.Chain vol start clusters) (member : cluster ∈ clusters) :
    vol.fat cluster ≠ fatFree := by
  induction clusters generalizing start with
  | nil => cases member
  | cons first rest ih =>
    obtain ⟨_, same⟩ := chain.exists_cons
    cases same
    cases rest with
    | nil =>
      cases mem_singleton.mp member
      have marked := chain.last_eoc
      unfold fatEoc at marked
      unfold fatFree
      omega
    | cons second rest =>
      obtain ⟨entry, behind⟩ := chain.tail
      rcases mem_cons.mp member with rfl | later
      · have valid := behind.start_valid
        unfold IsCluster at valid
        unfold fatFree
        omega
      · exact ih behind later

theorem spared (chain : st.Chain vol start clusters) (spares : vol.Spares other) :
    st.Chain other start clusters :=
  chain.congr fun cluster member => (spares cluster (chain.fat_ne_free member)).1

end Chain

theorem Geometry.lt_eoc (geometry : st.Geometry) (valid : st.IsCluster cluster) :
    ¬ (cluster < 2 ∨ cluster ≥ fatEoc) := by
  have few := geometry.few_clusters
  unfold IsCluster at valid
  unfold fatBad at few
  unfold fatEoc
  omega

section

variable (stores : st.Stores disk vol)
include stores

section

variable (chain : st.Chain vol start clusters)
include chain

theorem clusterChainFrom_eq {left : Nat} (enough : clusters.length ≤ left) :
    st.clusterChainFrom disk left start = clusters := by
  induction clusters generalizing start left with
  | nil =>
    obtain ⟨_, impossible⟩ := chain.exists_cons
    cases impossible
  | cons first rest ih =>
    obtain ⟨_, same⟩ := chain.exists_cons
    cases same
    cases left with
    | zero => cases enough
    | succ left =>
      rw [clusterChainFrom, if_neg (stores.geometry.lt_eoc chain.start_valid),
        stores.fatRead chain.start_valid]
      cases rest with
      | nil =>
        have ended := chain.last_eoc
        cases left with
        | zero => rfl
        | succ left => rw [clusterChainFrom, if_pos (.inr ended)]
      | cons second rest =>
        obtain ⟨entry, behind⟩ := chain.tail
        rw [entry, ih behind (Nat.le_of_succ_le_succ enough)]

theorem Stores.clusterChain : st.clusterChain disk start = clusters :=
  clusterChainFrom_eq stores chain (Nat.le_succ_of_le chain.length_le)

/-- Freeing a chain ends within as many steps as it has clusters and frees exactly these. -/
theorem Stores.fatFreeChain {fuel : Nat} (enough : clusters.length ≤ fuel) :
    ∃ after, st.fatFreeChain disk fuel start = some after ∧
      st.Stores after (vol.mark fatFree clusters) := by
  induction clusters generalizing disk vol start fuel with
  | nil =>
    obtain ⟨_, impossible⟩ := chain.exists_cons
    cases impossible
  | cons first rest ih =>
    obtain ⟨_, same⟩ := chain.exists_cons
    cases same
    cases fuel with
    | zero => cases enough
    | succ fuel =>
      obtain ⟨freed, written, holds, _⟩ :=
        stores.fatWrite chain.start_valid (show fatFree < 2 ^ 28 by decide)
      rw [fatFreeChain]
      simp only [stores.fatRead chain.start_valid, written]
      cases rest with
      | nil =>
        rw [if_pos (.inl chain.last_eoc)]
        refine ⟨freed, rfl, ?_⟩
        rw [← mark_cons]
        exact holds
      | cons second rest =>
        obtain ⟨entry, behind⟩ := chain.tail
        have valid := behind.start_valid
        have few := stores.geometry.few_clusters
        have goesOn : ¬ (vol.fat first ≥ fatEoc ∨ vol.fat first = fatFree ∨
            vol.fat first = fatBad) := by
          unfold IsCluster at valid
          unfold fatBad at few ⊢
          unfold fatEoc fatFree
          omega
        have apart : first ∉ second :: rest := (nodup_cons.mp chain.nodup).1
        have kept : st.Chain (vol.setFat first fatFree) second (second :: rest) := by
          refine behind.congr fun cluster member => ?_
          have differ : cluster ≠ first := fun same => apart (same ▸ member)
          exact setFat_of_ne _ _ differ _
        obtain ⟨after, ended, whole⟩ := ih holds kept (Nat.le_of_succ_le_succ enough)
        rw [if_neg goesOn, entry]
        refine ⟨after, ended, ?_⟩
        rw [← mark_cons]
        exact whole

end

/-! ## Allocation -/

theorem fatAllocFrom_spec (candidates : List Nat)
    (valid : ∀ cluster ∈ candidates, st.IsCluster cluster) :
    (candidates.filter (fun cluster => decide (vol.fat cluster = fatFree)) = [] →
      st.fatAllocFrom disk candidates = (none, disk)) ∧
    ∀ cluster rest,
      candidates.filter (fun cluster => decide (vol.fat cluster = fatFree)) = cluster :: rest →
      ∃ after, st.fatAllocFrom disk candidates = (some cluster, after) ∧
        st.Stores after (vol.setFat cluster 0x0FFFFFFF) ∧ st.KeepsCopies disk after := by
  induction candidates with
  | nil => exact ⟨fun _ => rfl, nofun⟩
  | cons first others ih =>
    obtain ⟨here, later⟩ := forall_mem_cons.mp valid
    obtain ⟨missed, taken⟩ := ih later
    rw [fatAllocFrom, stores.fatRead here, filter_cons]
    by_cases free : vol.fat first = fatFree
    · obtain ⟨after, written, holds⟩ :=
        stores.fatWrite here (show 0x0FFFFFFF < 2 ^ 28 by decide)
      simp only [free, written]
      refine ⟨nofun, ?_⟩
      intro cluster rest same
      cases same
      exact ⟨after, rfl, holds⟩
    · simp only [free]
      exact ⟨missed, taken⟩

/-- The allocation takes the first free cluster, or finds none. -/
theorem Stores.fatAlloc :
    (st.freeClusters vol = [] → st.fatAlloc disk = (none, disk)) ∧
    ∀ cluster rest, st.freeClusters vol = cluster :: rest →
      ∃ after, st.fatAlloc disk = (some cluster, after) ∧
        st.Stores after (vol.setFat cluster 0x0FFFFFFF) ∧ st.KeepsCopies disk after := by
  refine fatAllocFrom_spec stores _ fun cluster member => ?_
  rw [mem_range'_1] at member
  unfold IsCluster
  omega

end

theorem freeClusters_setFat {value : Nat} (marked : value ≠ fatFree)
    (first : st.freeClusters vol = cluster :: rest) :
    st.freeClusters (vol.setFat cluster value) = rest := by
  have distinct := st.nodup_freeClusters vol
  rw [first] at distinct
  have apart := (nodup_cons.mp distinct).1
  have narrowed : st.freeClusters (vol.setFat cluster value) =
      (st.freeClusters vol).filter fun other => decide (other ≠ cluster) := by
    unfold freeClusters
    rw [List.filter_filter]
    refine filter_congr fun other _ => ?_
    by_cases same : other = cluster
    · subst same
      simp [marked]
    · simp [setFat, same]
  rw [narrowed, first, filter_cons_of_neg (by simp)]
  refine filter_eq_self.mpr fun other member => ?_
  simpa using fun same : other = cluster => apart (same ▸ member)

/-- Allocating several clusters takes the first free ones, or all of them if there are too few. -/
theorem Stores.allocClusters (stores : st.Stores disk vol) (count : Nat) (taken : List Nat) :
    ∃ after, st.allocClusters disk count taken =
        (decide (count ≤ (st.freeClusters vol).length),
          taken ++ (st.freeClusters vol).take count, after) ∧
      st.Stores after (vol.mark 0x0FFFFFFF ((st.freeClusters vol).take count)) ∧
      st.KeepsCopies disk after := by
  induction count generalizing disk vol taken with
  | zero =>
    refine ⟨disk, ?_, stores, .refl ..⟩
    simp [allocClusters]
  | succ count ih =>
    obtain ⟨exhausted, found⟩ := stores.fatAlloc
    rw [allocClusters]
    cases free : st.freeClusters vol with
    | nil =>
      refine ⟨disk, ?_, stores, .refl ..⟩
      simp [exhausted free]
    | cons first rest =>
      obtain ⟨middle, allocated, holds, keeps⟩ := found first rest free
      obtain ⟨after, others, whole, later⟩ := ih holds (taken ++ [first])
      rw [freeClusters_setFat (by decide) free] at others whole
      refine ⟨after, ?_, ?_, keeps.trans later⟩
      · simp [allocated, others]
      · rw [take_succ_cons, ← mark_cons]
        exact whole

theorem Stores.releaseClusters (stores : st.Stores disk vol) (clusters : List Nat)
    (valid : ∀ cluster ∈ clusters, st.IsCluster cluster) :
    st.Stores (st.releaseClusters disk clusters) (vol.mark fatFree clusters) ∧
      st.KeepsCopies disk (st.releaseClusters disk clusters) := by
  induction clusters generalizing disk vol with
  | nil => exact ⟨by simpa [releaseClusters, Volume.mark] using stores, .refl ..⟩
  | cons first rest ih =>
    obtain ⟨here, later⟩ := forall_mem_cons.mp valid
    obtain ⟨middle, written, holds, keeps⟩ :=
      stores.fatWrite here (show fatFree < 2 ^ 28 by decide)
    obtain ⟨whole, others⟩ := ih holds later
    rw [mark_cons] at whole
    unfold releaseClusters at whole others ⊢
    rw [foldl_cons, written]
    exact ⟨whole, keeps.trans others⟩

theorem Stores.linkClusters (stores : st.Stores disk vol) (clusters : List Nat)
    (valid : ∀ cluster ∈ clusters, st.IsCluster cluster) :
    st.Stores (st.linkClusters disk clusters) (vol.link clusters) ∧
      st.KeepsCopies disk (st.linkClusters disk clusters) := by
  induction clusters generalizing disk vol with
  | nil => exact ⟨stores, .refl ..⟩
  | cons first rest ih =>
    cases rest with
    | nil => exact ⟨stores, .refl ..⟩
    | cons second rest =>
      obtain ⟨here, later⟩ := forall_mem_cons.mp valid
      obtain ⟨middle, written, holds, keeps⟩ :=
        stores.fatWrite here (stores.geometry.cluster_lt (later second (.head _)))
      obtain ⟨whole, others⟩ := ih holds later
      rw [linkClusters, written]
      exact ⟨whole, keeps.trans others⟩

theorem chain_link {first : Nat} (distinct : (first :: rest).Nodup)
    (valid : ∀ cluster ∈ first :: rest, st.IsCluster cluster) (geometry : st.Geometry)
    (marked : ∀ cluster ∈ first :: rest, fatEoc ≤ vol.fat cluster) :
    st.Chain (vol.link (first :: rest)) first (first :: rest) := by
  refine ⟨?_, valid⟩
  induction rest generalizing vol first with
  | nil =>
    refine ⟨rfl, ?_⟩
    exact if_pos (marked first (.head _))
  | cons second rest ih =>
    obtain ⟨apart, others⟩ := nodup_cons.mp distinct
    obtain ⟨here, later⟩ := forall_mem_cons.mp valid
    have still : ∀ cluster ∈ second :: rest, fatEoc ≤ (vol.setFat first second).fat cluster := by
      intro cluster member
      have differ : cluster ≠ first := fun same => apart (same ▸ member)
      rw [setFat_of_ne _ _ differ]
      exact marked cluster (mem_cons_of_mem _ member)
    refine ⟨rfl, ?_⟩
    have entry : (vol.link (first :: second :: rest)).fat first = second := by
      rw [Volume.link, link_fat_of_not_mem apart, setFat_self]
    have below := geometry.lt_eoc (later second (.head _))
    rw [Volume.next, entry, if_neg (fun large => below (.inr large))]
    exact ih others later still

end Fat32State

end CantayaOS.Storage
