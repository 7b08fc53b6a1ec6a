import ShardManager.Proofs.LevelTree
import ShardManager.Proofs.MissingKeys

/-! The trees of constraints over any state, also one whose rows share children: seen
from the bins up, what a constraint evaluates is in layers wherever it leads to a bin. -/

namespace ShardManager
namespace SparseMappingTree
variable {tree : SparseMappingTree} {domain : Domain} {domainIds : List DomainId}

theorem Descends.copyRows (descends : Descends tree) {nodes : List Node} (mapped : ∀ node ∈ nodes, (tree.getChildDomain node.1).isSome) :
    Descends (tree.copyRows nodes) := by
  refine Checked.foldl_invariant (fun _ part => Descends part) ?_ ?_
  · intro handled node rest split part ih
    obtain ⟨childDomain, found⟩ := Option.isSome_iff_exists.mp (mapped node (by simp [split]))
    rw [found, Option.getD_some]
    exact ih.addMapping (descends _ _ found) _
  · intro other childDomain found
    cases found

theorem Descends.createPartialTree (descends : Descends tree) (domain : Domain) (domainIds : List DomainId) :
    Descends (tree.createPartialTree domain domainIds) := by
  obtain ⟨_, nodes, _, copied, mem_nodes⟩ := createPartialTree_copies descends.acyclic domain domainIds
  rw [copied]
  exact descends.copyRows fun node member => ((mem_nodes node).mp member).2

private theorem Descends.part_mapped_iff (descends : Descends tree) (other : Domain) :
    ((tree.createPartialTree domain domainIds).getChildDomain other).isSome ↔
      ∃ node, Below tree domain domainIds node ∧ (tree.getChildDomain node.1).isSome ∧ node.1 = other := by
  obtain ⟨_, nodes, _, copied, mem_nodes⟩ := createPartialTree_copies descends.acyclic domain domainIds
  rw [copied, getChildDomain, ← row_mapped, rows_copyRows]
  simp only [mem_nodes, and_assoc]

private theorem Descends.part_le (descends : Descends tree) {other : Domain}
    (mapped : ((tree.createPartialTree domain domainIds).getChildDomain other).isSome) : other ≤ domain := by
  obtain ⟨node, below, _, rfl⟩ := (descends.part_mapped_iff other).mp mapped
  rcases below.above descends with ⟨same, _⟩ | ⟨less, _⟩
  · exact le_of_eq same
  · exact le_of_lt less

private theorem Descends.part_between (descends : Descends tree) {lower other : Domain}
    (mapped : ((tree.createPartialTree domain domainIds).getChildDomain lower).isSome) (above : lower ≤ other) (within : other ≤ domain) :
    ((tree.createPartialTree domain domainIds).getChildDomain other).isSome := by
  induction other, above using Nat.le_induction with
  | base => exact mapped
  | succ other _ ih =>
    obtain ⟨node, below, _, rfl⟩ := (descends.part_mapped_iff other).mp (ih (Nat.le_of_succ_le within))
    rcases below.above descends with ⟨same, _⟩ | ⟨_, parent, inPart, parentOver, isSome, _⟩
    · exact absurd (within.trans (le_of_eq same.symm)) (Nat.not_succ_le_self _)
    · exact (descends.part_mapped_iff _).mpr ⟨parent, inPart, isSome, parentOver⟩

end SparseMappingTree

open SparseMappingTree

/-- Domains numbered from the shards up, and nothing moved yet. -/
structure SolvingState.Numbered (state : SolvingState) : Prop where
  descends : Descends state.assignmentTree
  shardDomain : state.shardDomain = 0
  treeShards : state.assignmentTree.shardDomain = 0
  treeBins : state.assignmentTree.binDomain = 1
  movementMap : state.movementMap = some {}

theorem SolvingState.numbered_new (shardInfoVector : List ShardInfo) (metricVectors : List (List MetricValue))
    (domainMapping : List (List (List DomainId))) : (new shardInfoVector metricVectors domainMapping).withEmptyMovementMap.Numbered := by
  obtain ⟨shards, bins⟩ := new_domains shardInfoVector metricVectors domainMapping
  exact ⟨descends_new shardInfoVector metricVectors domainMapping, rfl, shards, bins, rfl⟩

/-- The layers of a tree, a domain among them. -/
structure HasLayers (tree : SparseMappingTree) (domain : Domain) (level : Nat → Domain) : Prop where
  layered : Layered tree level
  shards : tree.shardDomain = 0
  climbs : ∀ index, index ≤ level index
  own : ∃ index, level index = domain

namespace SolvingState.Numbered
variable {state : SolvingState} {domain : Domain} {domainIds : List DomainId}

private theorem part_layers (numbered : state.Numbered) (positive : 0 < domain) :
    HasLayers (state.assignmentTree.createPartialTree domain domainIds) domain binsUp where
  layered := Descends.layered (numbered.descends.createPartialTree domain domainIds) (by simp [numbered.treeShards])
    (by simp [numbered.treeBins])
  shards := by simp [numbered.treeShards]
  climbs := Nat.le_succ
  own := ⟨domain - 1, Nat.sub_add_cancel positive⟩

private theorem part_mapped (numbered : state.Numbered) (hasBin : (state.assignmentTree.createPartialTree domain domainIds).HasBin) :
    0 < domain ∧ ∀ other, 0 < other → other ≤ domain →
      ((state.assignmentTree.createPartialTree domain domainIds).getChildDomain other).isSome := by
  rw [HasBin, row_mapped, createPartialTree_binDomain, numbered.treeBins] at hasBin
  exact ⟨numbered.descends.part_le hasBin, fun other positive within => numbered.descends.part_between hasBin positive within⟩

/-- Parents are one domain up, or the node over the others. -/
theorem partialTree_childDomain (numbered : state.Numbered) {other childDomain : Domain}
    (found : (LoadBalancingConstraint.partialTree state domain domainIds).getChildDomain other = some childDomain) :
    other = SolvingState.kDomainLimit ∧ childDomain = domain ∨ other = childDomain + 1 ∧ other ≤ domain := by
  have bounded : ∀ other childDomain,
      (state.assignmentTree.createPartialTree domain domainIds).getChildDomain other = some childDomain →
        other = childDomain + 1 ∧ other ≤ domain := fun other childDomain found =>
    ⟨numbered.descends.createPartialTree domain domainIds _ _ found,
      numbered.descends.part_le (Option.isSome_iff_exists.mpr ⟨_, found⟩)⟩
  by_cases accepted : ∀ current, (state.assignmentTree.createPartialTree domain domainIds).getChildDomain SolvingState.kDomainLimit =
      some current → current = domain
  · rw [LoadBalancingConstraint.partialTree, getChildDomain_addMapping _ _ _ _ accepted] at found
    split at found
    next top =>
      cases found
      exact .inl ⟨top, rfl⟩
    next => exact .inr (bounded _ _ found)
  · rw [LoadBalancingConstraint.partialTree, addMapping] at found
    split at found
    next same => exact absurd same accepted
    next => exact .inr (bounded _ _ found)

theorem partialTree_binless (numbered : state.Numbered) (binless : ¬ (LoadBalancingConstraint.partialTree state domain domainIds).HasBin)
    {other : Domain} (found : (LoadBalancingConstraint.partialTree state domain domainIds).getChildDomain other = some 0) :
    other = SolvingState.kDomainLimit ∧ domain = 0 := by
  rcases numbered.partialTree_childDomain found with ⟨top, same⟩ | ⟨above, _⟩
  · exact ⟨top, same.symm⟩
  · refine absurd ?_ binless
    have bins : (LoadBalancingConstraint.partialTree state domain domainIds).binDomain = other := by
      simp [LoadBalancingConstraint.partialTree, numbered.treeBins, above]
    rw [HasBin, row_mapped, bins]
    exact Option.isSome_of_mem found

/-- Below the limit of domains, the node over the others is in a layer of its own. -/
private theorem crowned_layers (numbered : state.Numbered) (positive : 0 < domain) (below : domain < SolvingState.kDomainLimit) :
    HasLayers (LoadBalancingConstraint.partialTree state domain domainIds) domain (balanceLevel domain) := by
  have mapped : ∀ other childDomain, (LoadBalancingConstraint.partialTree state domain domainIds).getChildDomain other = some childDomain →
      other = SolvingState.kDomainLimit ∧ childDomain = domain ∨ other = childDomain + 1 ∧ other ≤ domain :=
    fun _ _ => numbered.partialTree_childDomain
  have shards : (LoadBalancingConstraint.partialTree state domain domainIds).shardDomain = 0 := by
    simp [LoadBalancingConstraint.partialTree, numbered.treeShards]
  have lowest : balanceLevel domain 0 = 1 := balanceLevel_lower positive
  refine ⟨⟨balanceLevel_injective below, ?_, ?_, ?_, ?_, ?_⟩, shards, ?_, ?_⟩
  · intro index
    rw [shards, balanceLevel]
    split <;> simp
  · rw [lowest]
    simp [LoadBalancingConstraint.partialTree, numbered.treeBins]
  · intro shardId parent member
    rw [shards] at member
    rcases mapped _ _ (mapped_of_mem_staticParents _ member).1 with ⟨_, same⟩ | ⟨above, _⟩
    · exact absurd same.symm (ne_of_gt positive)
    · exact above.trans lowest.symm
  · intro index domainId parent member
    have found := mapped _ _ (mapped_of_mem_staticParents _ member).1
    unfold balanceLevel at found ⊢
    unfold SolvingState.kDomainLimit at below found
    grind
  · intro childDomain found
    rcases mapped _ _ found with ⟨top, _⟩ | ⟨above, _⟩
    · rw [lowest] at top
      cases top
    · rw [lowest] at above
      exact (Nat.succ.inj above).symm.trans shards.symm
  · intro index
    unfold balanceLevel
    unfold SolvingState.kDomainLimit at below
    grind
  · exact ⟨domain - 1, (balanceLevel_lower (Nat.sub_lt positive Nat.one_pos)).trans (Nat.sub_add_cancel positive)⟩

private theorem partialTree_over (numbered : state.Numbered) (high : SolvingState.kDomainLimit ≤ domain)
    (hasBin : (state.assignmentTree.createPartialTree domain domainIds).HasBin) :
    LoadBalancingConstraint.partialTree state domain domainIds = state.assignmentTree.createPartialTree domain domainIds := by
  obtain ⟨childDomain, found⟩ := Option.isSome_iff_exists.mp ((numbered.part_mapped hasBin).2 SolvingState.kDomainLimit (by decide) high)
  have above := numbered.descends.createPartialTree domain domainIds _ _ found
  rw [LoadBalancingConstraint.partialTree, addMapping, dif_neg]
  intro accepted
  rw [← accepted childDomain found] at high
  rw [above] at high
  exact absurd high (Nat.not_succ_le_self _)

theorem tree_layers (numbered : state.Numbered) {arguments : Constraint.Arguments} (hasBin : (arguments.tree state).HasBin) :
    ∃ level, HasLayers (arguments.tree state) arguments.domain level := by
  cases arguments with
  | metric consistency domain domainIds metric capacity faultWeight =>
    exact ⟨_, numbered.part_layers (numbered.part_mapped hasBin).1⟩
  | drain consistency domain domainIds faultWeight => exact ⟨_, numbered.part_layers (numbered.part_mapped hasBin).1⟩
  | loadBalancing domain domainIds metric maxDelta faultWeightMultiplier =>
    have inPart := (LoadBalancingConstraint.partialTree_hasBin_iff numbered.treeBins domain domainIds).mp hasBin
    obtain ⟨positive, _⟩ := numbered.part_mapped inPart
    rcases Nat.lt_or_ge domain SolvingState.kDomainLimit with below | high
    · exact ⟨_, numbered.crowned_layers positive below⟩
    · rw [Constraint.Arguments.tree, numbered.partialTree_over high inPart]
      exact ⟨_, numbered.part_layers positive⟩

end SolvingState.Numbered
end ShardManager
