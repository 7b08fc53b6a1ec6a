import ShardManager.Proofs.Destinations
import ShardManager.Proofs.TreeLoads

/-! The trees of a `LoadBalancingConstraint` over bins: the listed bins, and one node
over all of them. An update computes a bin from the shards that it has afterwards,
and the node from those of its bins that have a value. -/

namespace ShardManager
open SparseMappingTree

/-- A tree of some listed bins under one node of the last domain. -/
structure OverBins (state : SolvingState) (domainIds : List DomainId) (tree : SparseMappingTree) : Prop extends Grounded tree where
  hasBin : tree.HasBin
  childDomain : tree.getChildDomain 1 = some 0
  row : ∀ binId, (tree.parentToChildMap.row 1 binId).isSome ↔ binId ∈ domainIds
  children : ∀ binId, tree.children 1 binId = if binId ∈ domainIds then state.assignmentTree.children 1 binId else []
  listed : tree.children 10 0 = domainIds
  top : ∀ domain child parent, domain ≠ 0 →
    (parent ∈ tree.staticParents domain child ↔ domain = 1 ∧ parent = (10, 0) ∧ child ∈ domainIds)

def twoLevels (index : Nat) : Domain := 9 * index + 1

section Tree
variable {state : SolvingState} {domainIds : List DomainId} {tree : SparseMappingTree}

theorem OverBins.listsBins (overBins : OverBins state domainIds tree) : ListsBins state tree where
  toGrounded := overBins.toGrounded
  lists binId := by simp only [overBins.children, overBins.row]

theorem OverBins.layered (overBins : OverBins state domainIds tree) : Layered tree twoLevels where
  injective first second same := by
    simp only [twoLevels] at same
    grind
  shards index := by
    rw [overBins.shards]
    simp [twoLevels]
  bins := overBins.bins.symm
  lowest shardId parent member := by
    rw [overBins.shards] at member
    exact ((overBins.parents shardId parent).mp member).1
  above index domainId parent member := by
    obtain ⟨bins, top, _⟩ := (overBins.top (twoLevels index) domainId parent (by simp [twoLevels])).mp member
    have lowest : index = 0 := by
      simp only [twoLevels] at bins
      grind
    rw [top, lowest]
    rfl
  below domain found := by
    change tree.getChildDomain 1 = some domain at found
    rw [overBins.childDomain, Option.some.injEq] at found
    rw [← found, overBins.shards]

theorem overBins_partialTree (hierarchical : state.Hierarchical)
    (hasBin : (state.assignmentTree.createPartialTree 1 domainIds).HasBin) :
    OverBins state domainIds (LoadBalancingConstraint.partialTree state 1 domainIds) := by
  have isPart := createPartialTree_part hierarchical.hierarchy 1 domainIds
  have below : (1 : Domain) < 10 := by decide
  have crowned := partialTree_crowned hierarchical below domainIds
  have levels := crowned.levelTree isPart hasBin (by decide) below
  have given : ∀ binId, ((LoadBalancingConstraint.partialTree state 1 domainIds).parentToChildMap.row 1 binId).isSome ↔
      binId ∈ domainIds := by
    intro binId
    rw [crowned.row, if_neg (by simp), row_isSome (1, binId), isPart.given]
    exact and_iff_left (isPart.hasBin hasBin)
  refine ⟨levels.toGrounded, levels.hasBin, ?_, given, ?_, ?_, ?_⟩
  · have mapped := levels.hasBin
    rw [HasBin, row_mapped, levels.bins] at mapped
    obtain ⟨childDomain, found⟩ := Option.isSome_iff_exists.mp mapped
    have child := levels.layered.below childDomain found
    rw [levels.shards] at child
    exact child ▸ found
  · intro binId
    simp only [levels.lists, given]
  · rw [crowned.children, if_pos rfl]
  · intro domain child parent above
    rw [crowned.parents]
    refine or_iff_right fun static => ?_
    have within := (part_parents isPart static).2
    exact above (Nat.lt_one_iff.mp within)

end Tree

namespace SolvingState

/-- The listed bins that have a value: those with shards, initially or by a move. -/
def occupied (state : SolvingState) (domainIds : List DomainId) (moves : MovementMap) : List DomainId :=
  domainIds.filter fun binId =>
    !(state.assignmentTree.children state.binDomain binId).isEmpty || !(moves.getIncomingShards binId).keys.isEmpty

variable {state : SolvingState} {domainIds : List DomainId} {moves : MovementMap}

theorem mem_occupied (hierarchical : state.Hierarchical) (agrees : moves.Agrees) (binId : DomainId) :
    binId ∈ state.occupied domainIds moves ↔ binId ∈ domainIds ∧
      (state.assignmentTree.children 1 binId ≠ [] ∨ ∃ shard, moves.getNextBin shard = some binId) := by
  have incoming : (moves.getIncomingShards binId).keys ≠ [] ↔ ∃ shard, moves.getNextBin shard = some binId := by
    rw [ne_eq, List.eq_nil_iff_forall_not_mem, not_forall_not]
    exact exists_congr fun shard => AList.mem_keys.symm.trans (agrees shard binId)
  rw [occupied, List.mem_filter, hierarchical.binDomain, ← incoming]
  simp

private theorem hosts_iff (hierarchical : state.Hierarchical) (agrees : moves.Agrees) (binId : DomainId) :
    binId ∈ state.occupied domainIds moves ↔ binId ∈ domainIds ∧ Hosts state moves binId := by
  rw [mem_occupied hierarchical agrees, Hosts, exists_or, ne_eq, List.eq_nil_iff_forall_not_mem, not_forall_not]
  simp only [IterativeLocalSearch.Listed, hierarchical.binDomain]

end SolvingState

namespace LoadBalancingConstraint

section Settled
variable {state : SolvingState} {domainIds : List DomainId} {tree : SparseMappingTree} {metric : Metric}
  {cmp : Int → Int → Bool} {movementMaps : List MovementMap} {start final : MetricsMap}
  {changed : Nat → DomainId → List DomainId}

private theorem settled_top (bins : state.binDomain = 1) (overBins : OverBins state domainIds tree)
    (settled : Settled (calculation state 1 metric cmp) tree movementMaps twoLevels start changed final)
    (before : start.get (10, 0) = extreme cmp (domainIds.filterMap fun binId => start.get (1, binId))) :
    final.get (10, 0) = extreme cmp (domainIds.filterMap fun binId => final.get (1, binId)) := by
  have listed : ∀ child, (10, 0) ∈ tree.staticParents 1 child ↔ child ∈ tree.children 10 0 := by
    intro child
    rw [overBins.top 1 child (10, 0) (by decide), overBins.listed]
    simp
  have extreme := settled_extreme bins overBins.bins settled 0 0 (by decide) listed
  simp only [twoLevels, Nat.zero_add, Nat.mul_one, Nat.mul_zero, Nat.reduceAdd, overBins.listed] at extreme
  exact extreme before

end Settled

/-- The values of a tree after some moves: the narrowed loads of the bins that have
shards, and their extreme. -/
structure Measures (state : SolvingState) (domainIds : List DomainId) (metric : Metric) (cmp : Int → Int → Bool)
    (moves : MovementMap) (values : Node → Option Int) : Prop where
  bins : ∀ binId, values (1, binId) = if binId ∈ state.occupied domainIds moves
    then some (toInt32 (state.load (state.getShardMetric metric) moves (1, binId))) else none
  top : values (10, 0) = extreme cmp (domainIds.filterMap fun binId => values (1, binId))

section Measures
variable {state : SolvingState} {domainIds : List DomainId} {tree : SparseMappingTree} {metric : Metric}
  {cmp : Int → Int → Bool} {moves : MovementMap}

theorem Measures.top_occupied {values : Node → Option Int} (measures : Measures state domainIds metric cmp moves values) :
    values (10, 0) = extreme cmp ((state.occupied domainIds moves).map fun binId =>
      toInt32 (state.load (state.getShardMetric metric) moves (1, binId))) := by
  rw [measures.top, SolvingState.occupied, ← List.filterMap_eq_map', List.filterMap_filter]
  refine congrArg (extreme cmp) (List.filterMap_congr fun binId listed => ?_)
  rw [measures.bins, SolvingState.occupied]
  simp only [List.mem_filter, listed, true_and]

private theorem measures_of_bins (hierarchical : state.Hierarchical) (overBins : OverBins state domainIds tree) (agrees : moves.Agrees)
    {values : Node → Option Int} (measures : MeasuresBins state metric tree moves values)
    (top : values (10, 0) = extreme cmp (domainIds.filterMap fun binId => values (1, binId))) :
    Measures state domainIds metric cmp moves values := by
  refine ⟨fun binId => Option.ext fun val => ?_, top⟩
  rw [measures binId val, overBins.row, ← and_assoc, ← SolvingState.hosts_iff hierarchical agrees, Option.ite_none_right_eq_some,
    Option.some.injEq, eq_comm (a := val)]

private theorem Measures.measuresBins (hierarchical : state.Hierarchical) (overBins : OverBins state domainIds tree) (agrees : moves.Agrees)
    {values : Node → Option Int} (measures : Measures state domainIds metric cmp moves values) :
    MeasuresBins state metric tree moves values := by
  intro binId val
  rw [measures.bins, overBins.row, ← and_assoc, ← SolvingState.hosts_iff hierarchical agrees, Option.ite_none_right_eq_some,
    Option.some.injEq, eq_comm (a := val)]

variable (order : HashOrder)

theorem measures_new (hierarchical : state.Hierarchical) (overBins : OverBins state domainIds tree) {shardIds : List DomainId}
    (all : shardIds.Perm (tree.getAllDomainIds 0)) (updatedSet : UnorderedSet DomainId) :
    Measures state domainIds metric cmp {} ((ExpressionTree.mk tree .empty).updated state order
      (calculation state 1 metric cmp) [{}] shardIds updatedSet).1.metricsMap.get := by
  obtain ⟨changed, settled, lowest, _⟩ := ExpressionTree.updated_settled state order (calculation state 1 metric cmp)
    ⟨tree, .empty⟩ overBins.layered (overBins.shards.trans hierarchical.shardDomain.symm) [{}] shardIds updatedSet
  exact measures_of_bins hierarchical overBins MovementMap.agrees_empty
    (measuresBins_new hierarchical overBins.listsBins overBins.layered all settled lowest)
    (settled_top hierarchical.binDomain overBins settled (by simp [extreme]))

section Candidate
open IterativeLocalSearch
variable {shard nextBin : DomainId}

theorem entered_candidate (hierarchical : state.Hierarchical) (overBins : OverBins state domainIds tree)
    (candidate : Candidate state moves shard nextBin) (binId : DomainId) :
    (ExpressionTree.entered state tree [{}, moves, .addMovement {} shard nextBin] [shard]).changedChildren (1, binId) ≠ [] ↔
      binId ∈ domainIds ∧ (shard ∈ state.assignmentTree.children 1 binId ∨ nextBin = binId) := by
  rw [entered_rows hierarchical overBins.listsBins candidate, overBins.row]

theorem measures_candidate (hierarchical : state.Hierarchical) (overBins : OverBins state domainIds tree)
    (valid : ValidReassignment state moves) (candidate : Candidate state moves shard nextBin) {metricsMap : MetricsMap}
    (measures : Measures state domainIds metric cmp moves metricsMap.get) (updatedSet : UnorderedSet DomainId) :
    Measures state domainIds metric cmp (moves.addMovements (.addMovement {} shard nextBin))
      ((ExpressionTree.mk tree metricsMap).updated state order (calculation state 1 metric cmp)
        [{}, moves, .addMovement {} shard nextBin] [shard] updatedSet).1.metricsMap.get := by
  obtain ⟨changed, settled, lowest, _⟩ := ExpressionTree.updated_settled state order (calculation state 1 metric cmp)
    ⟨tree, metricsMap⟩ overBins.layered (overBins.shards.trans hierarchical.shardDomain.symm)
    [{}, moves, .addMovement {} shard nextBin] [shard] updatedSet
  exact measures_of_bins hierarchical overBins (valid.add candidate).agrees
    (measuresBins_candidate hierarchical overBins.listsBins overBins.layered valid candidate
      (measures.measuresBins hierarchical overBins valid.agrees) settled lowest)
    (settled_top hierarchical.binDomain overBins settled measures.top)

end Candidate
end Measures
end LoadBalancingConstraint
end ShardManager
