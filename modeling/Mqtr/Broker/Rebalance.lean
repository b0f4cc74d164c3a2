import Mqtr.Broker.Partition
import Mqtr.Core.Keyed

/-! The topology of a cluster: which node is the master of a shard and which nodes hold its replicas.
After a rebalance the old topology is compared with the new one, to find the shards that migrate. -/
namespace Mqtr
open Outcome

/-- A `Node` of the cluster. -/
structure ClusterNode where
  uuid : BitVec 128
  path : String
  weight : UInt16
  mqttAddress : String
  deriving Repr

/-- Nodes are compared by their identifier alone. -/
instance : BEq ClusterNode := ⟨fun a b => a.uuid == b.uuid⟩

structure Topology where
  shard : UInt32
  master : ClusterNode
  replicas : List ClusterNode
  deriving Repr

/-- The derived comparison, field by field. -/
instance : BEq Topology :=
  ⟨fun a b => a.shard == b.shard && a.master == b.master && a.replicas == b.replicas⟩

/-- The body of the loop of `diff_topology`. -/
def diffStep (diffs : List (Topology × Topology)) (pair : Topology × Topology) :
    Result (List (Topology × Topology)) :=
  let (old, new) := pair
  if old.shard ≠ new.shard then .panic
  else if old == new then .ok diffs
  else .ok (diffs ++ [(old, new)])

def diffTopology (olds news : List Topology) : Result (List (Topology × Topology)) :=
  let olds := Keyed.sortByKey Topology.shard olds
  let news := Keyed.sortByKey Topology.shard news
  if olds.length ≠ news.length then .panic
  else (olds.zip news).foldlM diffStep []

/-- `Algorithm::rebalance` for a single node, which takes every shard. -/
def Rebalancer.rebalance (config : ClusterConfig) (numCpus : UInt32) (nodes : List ClusterNode)
    (_olds : List Topology) : Result (List Topology) := do
  let node ← ofOption nodes[0]?
  let numShards ← config.numShardsOrCores numCpus
  .ok ((List.range numShards.toNat).map fun shard => ⟨UInt32.ofNat shard, node, []⟩)

namespace Topology

/-- The shard has another master, or its replicas are others or in another order. -/
def Migrates (old new : Topology) : Prop :=
  old.master.uuid ≠ new.master.uuid ∨
    old.replicas.map ClusterNode.uuid ≠ new.replicas.map ClusterNode.uuid

/-- Both lists have the same shards, each of them once. -/
structure SameShards (olds news : List Topology) : Prop where
  olds_once : (olds.map shard).Nodup
  news_once : (news.map shard).Nodup
  same : ∀ n, n ∈ olds.map shard ↔ n ∈ news.map shard

theorem node_beq_iff (a b : ClusterNode) : (a == b) = true ↔ a.uuid = b.uuid := by
  change (a.uuid == b.uuid) = true ↔ _
  rw [beq_iff_eq]

theorem replicas_beq_iff (as bs : List ClusterNode) :
    (as == bs) = true ↔ as.map ClusterNode.uuid = bs.map ClusterNode.uuid := by
  induction as generalizing bs with
  | nil => cases bs <;> simp
  | cons a as ih =>
    cases bs with
    | nil => simp
    | cons b bs =>
      rw [List.cons_beq_cons, Bool.and_eq_true, node_beq_iff, ih, List.map_cons, List.map_cons,
        List.cons.injEq]

/-- For one shard, the comparison of the code finds out whether it migrates. -/
theorem beq_eq_false_iff {old new : Topology} (h : old.shard = new.shard) :
    (old == new) = false ↔ Migrates old new := by
  have hbeq : (old == new) = true ↔ old.master.uuid = new.master.uuid ∧
      old.replicas.map ClusterNode.uuid = new.replicas.map ClusterNode.uuid := by
    change (old.shard == new.shard && old.master == new.master && old.replicas == new.replicas) =
      true ↔ _
    rw [Bool.and_eq_true, Bool.and_eq_true, node_beq_iff, replicas_beq_iff, h, beq_self_eq_true]
    simp only [true_and]
  rw [← Bool.not_eq_true, hbeq, Migrates, not_and_or]

end Topology

/-- On pairs for one shard each the loop keeps those that differ. -/
theorem foldlM_diffStep {pairs : List (Topology × Topology)}
    (h : ∀ pair ∈ pairs, pair.1.shard = pair.2.shard) (diffs : List (Topology × Topology)) :
    pairs.foldlM diffStep diffs =
      (.ok (diffs ++ pairs.filter fun pair => !(pair.1 == pair.2)) :
        Result (List (Topology × Topology))) := by
  induction pairs generalizing diffs with
  | nil => simp
  | cons pair pairs ih =>
    obtain ⟨hpair, hrest⟩ := List.forall_mem_cons.mp h
    have hstep : diffStep diffs pair =
        .ok (diffs ++ [pair].filter fun pair => !(pair.1 == pair.2)) := by
      rw [diffStep, if_neg (not_not.mpr hpair)]
      cases heq : pair.1 == pair.2 with
      | true => simp [heq]
      | false => simp [heq]
    rw [List.foldlM_cons, hstep, ok_bind, ih hrest, List.append_assoc, ← List.filter_append]
    rfl

/-- The pairs that are compared. -/
def diffPairs (olds news : List Topology) : List (Topology × Topology) :=
  (Keyed.sortByKey Topology.shard olds).zip (Keyed.sortByKey Topology.shard news)

namespace Topology.SameShards

variable {olds news : List Topology}

theorem keys_eq (h : SameShards olds news) :
    (Keyed.sortByKey shard olds).map shard = (Keyed.sortByKey shard news).map shard :=
  Keyed.map_sortByKey_eq h.olds_once h.news_once h.same

/-- The two sorted lists line up. -/
theorem mem_diffPairs (h : SameShards olds news) {old new : Topology} :
    (old, new) ∈ diffPairs olds news ↔ old ∈ olds ∧ new ∈ news ∧ old.shard = new.shard := by
  rw [diffPairs, Keyed.mem_zip_iff h.keys_eq (Keyed.sortByKey_nodup h.olds_once),
    (Keyed.sortByKey_perm shard olds).mem_iff, (Keyed.sortByKey_perm shard news).mem_iff]

theorem diffTopology_eq (h : SameShards olds news) :
    diffTopology olds news =
      .ok ((diffPairs olds news).filter fun pair => !(pair.1 == pair.2)) := by
  have hlength := congrArg List.length h.keys_eq
  rw [List.length_map, List.length_map] at hlength
  have hshard (pair : Topology × Topology) (hpair : pair ∈ diffPairs olds news) :
      pair.1.shard = pair.2.shard := (h.mem_diffPairs.mp hpair).2.2
  rw [diffTopology, if_neg (not_not.mpr hlength)]
  exact foldlM_diffStep hshard []

/-- The pairs come in the order of the sorted old list. -/
theorem diffPairs_pairwise (h : SameShards olds news) :
    (diffPairs olds news).Pairwise fun p q => p.1.shard < q.1.shard := by
  have hlength := congrArg List.length h.keys_eq
  rw [List.length_map, List.length_map] at hlength
  have hfst : (diffPairs olds news).map Prod.fst = Keyed.sortByKey shard olds :=
    List.map_fst_zip hlength.le
  have hsorted := Keyed.sortByKey_pairwise_lt h.olds_once
  rw [← hfst, List.pairwise_map] at hsorted
  exact hsorted

theorem diffPairs_eq_of_perm (h : SameShards olds news) {olds' news' : List Topology}
    (holds : olds'.Perm olds) (hnews : news'.Perm news) :
    diffPairs olds' news' = diffPairs olds news := by
  rw [diffPairs, diffPairs, Keyed.sortByKey_eq_of_perm h.olds_once holds,
    Keyed.sortByKey_eq_of_perm h.news_once hnews]

theorem of_perm (h : SameShards olds news) {olds' news' : List Topology} (holds : olds'.Perm olds)
    (hnews : news'.Perm news) : SameShards olds' news' where
  olds_once := (holds.map shard).nodup_iff.mpr h.olds_once
  news_once := (hnews.map shard).nodup_iff.mpr h.news_once
  same n := by rw [(holds.map shard).mem_iff, (hnews.map shard).mem_iff, h.same]

end Topology.SameShards

/-- For topologies of the same shards the comparison returns, in increasing order of the shards, the old
and the new entry of each shard that migrates and nothing else, in whatever order the two lists are. -/
theorem diffTopology_migrating {olds news : List Topology} (h : Topology.SameShards olds news) :
    ∃ diffs, diffTopology olds news = .ok diffs ∧
      diffs.Pairwise (fun p q => p.1.shard < q.1.shard) ∧
      (∀ old new, (old, new) ∈ diffs ↔
        old ∈ olds ∧ new ∈ news ∧ old.shard = new.shard ∧ Topology.Migrates old new) ∧
      ∀ olds' news', olds'.Perm olds → news'.Perm news → diffTopology olds' news' = .ok diffs := by
  refine ⟨_, h.diffTopology_eq, h.diffPairs_pairwise.filter _, ?_, ?_⟩
  · intro old new
    rw [List.mem_filter, h.mem_diffPairs, Bool.not_eq_true']
    constructor
    · rintro ⟨⟨hold, hnew, hshard⟩, hdiff⟩
      exact ⟨hold, hnew, hshard, (Topology.beq_eq_false_iff hshard).mp hdiff⟩
    · rintro ⟨hold, hnew, hshard, hdiff⟩
      exact ⟨⟨hold, hnew, hshard⟩, (Topology.beq_eq_false_iff hshard).mpr hdiff⟩
  · intro olds' news' holds hnews
    rw [(h.of_perm holds hnews).diffTopology_eq, h.diffPairs_eq_of_perm holds hnews]

/-- A node that differs in its identifier only. -/
def nodeOf (uuid : BitVec 128) : ClusterNode := ⟨uuid, "", 0, "0.0.0.0:1883"⟩

/-- Shard 1 gets another master; the lists have the shards in different orders. -/
theorem diffTopology_migrating_master :
    let olds : List Topology := [⟨0, nodeOf 1, []⟩, ⟨1, nodeOf 1, []⟩]
    let news : List Topology := [⟨1, nodeOf 2, []⟩, ⟨0, nodeOf 1, []⟩]
    Topology.SameShards olds news ∧
      ∃ diffs, diffTopology olds news = .ok diffs ∧
        (⟨1, nodeOf 1, []⟩, ⟨1, nodeOf 2, []⟩) ∈ diffs := by
  intro olds news
  have hsame : Topology.SameShards olds news := ⟨by decide, by decide, by simp [olds, news, or_comm]⟩
  obtain ⟨diffs, hdiffs, -, hmem, -⟩ := diffTopology_migrating hsame
  refine ⟨hsame, diffs, hdiffs, (hmem _ _).mpr ⟨by simp [olds], by simp [news], rfl, .inl ?_⟩⟩
  decide

namespace Rebalancer

variable {config : ClusterConfig} {numCpus : UInt32} {nodes nodes' : List ClusterNode}
  {olds olds' topology topology' : List Topology}

theorem rebalance_eq_ok (h : rebalance config numCpus nodes olds = .ok topology) :
    ∃ node numShards, nodes[0]? = some node ∧ config.numShardsOrCores numCpus = .ok numShards ∧
      topology = (List.range numShards.toNat).map fun shard => ⟨UInt32.ofNat shard, node, []⟩ := by
  obtain ⟨node, hnode, h⟩ := bind_eq_ok.mp h
  obtain ⟨numShards, hshards, h⟩ := bind_eq_ok.mp h
  exact ⟨node, numShards, ofOption_eq_ok.mp hnode, hshards, (Outcome.ok.inj h).symm⟩

/-- The shards of a topology do not depend on the nodes. -/
theorem map_shard_rebalance (h : rebalance config numCpus nodes olds = .ok topology) :
    ∃ numShards, config.numShardsOrCores numCpus = .ok numShards ∧
      topology.map Topology.shard = (List.range numShards.toNat).map UInt32.ofNat := by
  obtain ⟨node, numShards, -, hshards, rfl⟩ := rebalance_eq_ok h
  exact ⟨numShards, hshards, by rw [List.map_map]; rfl⟩

theorem nodup_shards (numShards : UInt32) :
    ((List.range numShards.toNat).map UInt32.ofNat).Nodup := by
  refine List.Nodup.map_on ?_ List.nodup_range
  intro m hm n hn heq
  have hlt := numShards.toNat_lt
  rw [List.mem_range] at hm hn
  have htoNat := congrArg UInt32.toNat heq
  rwa [UInt32.toNat_ofNat_of_lt' (hm.trans hlt), UInt32.toNat_ofNat_of_lt' (hn.trans hlt)] at htoNat

/-- Two topologies of one cluster can be compared, whatever its nodes were. -/
theorem rebalance_sameShards (h : rebalance config numCpus nodes olds = .ok topology)
    (h' : rebalance config numCpus nodes' olds' = .ok topology') :
    Topology.SameShards topology topology' := by
  obtain ⟨numShards, hshards, hmap⟩ := map_shard_rebalance h
  obtain ⟨numShards', hshards', hmap'⟩ := map_shard_rebalance h'
  obtain rfl := Outcome.ok.inj (hshards.symm.trans hshards')
  refine ⟨?_, ?_, fun n => by rw [hmap, hmap']⟩
  · rw [hmap]
    exact nodup_shards numShards
  · rw [hmap']
    exact nodup_shards numShards

/-- A rebalance onto the same node migrates nothing. -/
theorem diffTopology_rebalance (h : rebalance config numCpus nodes olds = .ok topology)
    (h' : rebalance config numCpus nodes' olds' = .ok topology')
    (hnode : nodes[0]?.map ClusterNode.uuid = nodes'[0]?.map ClusterNode.uuid) :
    diffTopology topology topology' = .ok [] := by
  have hsame := rebalance_sameShards h h'
  obtain ⟨node, numShards, hfirst, -, rfl⟩ := rebalance_eq_ok h
  obtain ⟨node', numShards', hfirst', -, rfl⟩ := rebalance_eq_ok h'
  rw [hfirst, hfirst', Option.map_some, Option.map_some, Option.some.injEq] at hnode
  rw [hsame.diffTopology_eq, List.filter_eq_nil_iff.mpr]
  rintro ⟨old, new⟩ hpair
  obtain ⟨hold, hnew, hshard⟩ := hsame.mem_diffPairs.mp hpair
  obtain ⟨m, -, rfl⟩ := List.mem_map.mp hold
  obtain ⟨n, -, rfl⟩ := List.mem_map.mp hnew
  rw [Bool.not_eq_true', Topology.beq_eq_false_iff hshard]
  rintro (hmaster | hreplicas)
  · exact hmaster hnode
  · exact hreplicas rfl

end Rebalancer
end Mqtr
