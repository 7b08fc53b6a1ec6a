import ShardManager.Lib.Rollup
import ShardManager.Proofs.Hierarchy
import ShardManager.Proofs.SearchRules

/-! Where a set of moves puts the shards, computed from the initial assignment. The
load of a node is summed over the shards under it, with no reference to how the
moves were found or in what order they were made. -/

namespace ShardManager
namespace SolvingState
open SparseMappingTree

variable (state : SolvingState)

def parentOf (domain : Domain) (child : DomainId) : Option DomainId :=
  (state.assignmentTree.childToParentMap.parents domain child).lookup (domain + 1)

/-- The node of a domain that a shard is under when the moves are applied: its bin,
or the node above its bin. -/
def nodeOver (moves : MovementMap) (shard : DomainId) : Domain → Option DomainId
  | 0 => none
  | 1 => (moves.getNextBin shard).or (state.parentOf 0 shard)
  | domain + 2 => (nodeOver moves shard (domain + 1)).bind (state.parentOf (domain + 1))

def shards : Finset DomainId := (state.assignmentTree.getAllDomainIds state.shardDomain).toFinset

/-- The sum of a weight over exactly the shards under a node. -/
def load (weight : DomainId → Int) (moves : MovementMap) (node : Node) : Int :=
  ∑ shard ∈ state.shards with state.nodeOver moves shard node.1 = some node.2, weight shard

/-- The shards whose bin, after the moves, lies under one of the listed nodes. -/
def shardsUnder (moves : MovementMap) (domain : Domain) (domainIds : List DomainId) : Finset DomainId :=
  state.shards.filter fun shard => ∃ domainId ∈ domainIds, state.nodeOver moves shard domain = some domainId

variable {state} (weight : DomainId → Int) (moves : MovementMap)

theorem load_count (node : Node) : state.load (fun _ => 1) moves node = (state.shardsUnder moves node.1 [node.2]).card := by
  simp [load, shardsUnder]

theorem card_shardsUnder (domain : Domain) (domainIds : List DomainId) :
    ((state.shardsUnder moves domain domainIds).card : Int) =
      ∑ domainId ∈ domainIds.toFinset, state.load (fun _ => 1) moves (domain, domainId) := by
  simp only [load, Finset.sum_filter]
  rw [Finset.sum_comm, shardsUnder, Finset.card_filter]
  push_cast
  refine Finset.sum_congr rfl fun shard _ => ?_
  cases state.nodeOver moves shard domain with
  | none => simp
  | some node => simp

theorem Hierarchical.parentOf_iff (hierarchical : Hierarchical state) (domain : Domain) (child parentId : DomainId) :
    state.parentOf domain child = some parentId ↔ child ∈ state.assignmentTree.children (domain + 1) parentId :=
  (hierarchical.hierarchy.mem_children domain child parentId).symm

theorem load_above (hierarchical : Hierarchical state) (domain : Domain) (domainId : DomainId) :
    state.load weight moves (domain + 2, domainId) =
      ∑ child ∈ childrenAt state.assignmentTree domain domainId, state.load weight moves (domain + 1, child) := by
  simp only [load, Finset.sum_filter]
  rw [Finset.sum_comm]
  refine Finset.sum_congr rfl fun shard _ => ?_
  have under : state.nodeOver moves shard (domain + 2) = some domainId ↔
      ∃ child ∈ childrenAt state.assignmentTree domain domainId, state.nodeOver moves shard (domain + 1) = some child := by
    rw [nodeOver, Option.bind_eq_some_iff]
    refine exists_congr fun child => ?_
    rw [hierarchical.parentOf_iff, childrenAt, List.mem_toFinset, and_comm]
  cases below : state.nodeOver moves shard (domain + 1) with
  | none => simp [under, below]
  | some node => simp [under, below]

theorem load_leaf {domain : Domain} (leaf : state.assignmentTree.getChildDomain domain = none)
    (unreached : domain ≠ 1 ∨ moves = {}) (domainId : DomainId) : state.load weight moves (domain, domainId) = 0 := by
  refine Finset.sum_eq_zero fun shard member => ?_
  have under := (Finset.mem_filter.mp member).2
  match domain, unreached, leaf, under with
  | 0, _, _, under => cases under
  | 1, .inr unmoved, leaf, under =>
    rw [nodeOver, unmoved, MovementMap.next_empty, Option.none_or] at under
    have static := (state.assignmentTree.mem_staticParents 0 shard (1, domainId)).mpr under
    rw [(state.assignmentTree.mapped_of_mem_staticParents static).1] at leaf
    cases leaf
  | domain + 2, _, leaf, under =>
    obtain ⟨child, _, parent⟩ := Option.bind_eq_some_iff.mp under
    have static := (state.assignmentTree.mem_staticParents (domain + 1) child (domain + 2, domainId)).mpr parent
    rw [(state.assignmentTree.mapped_of_mem_staticParents static).1] at leaf
    cases leaf

theorem mem_shards (hierarchical : Hierarchical state) {binId shard : DomainId}
    (listed : shard ∈ state.assignmentTree.children 1 binId) : shard ∈ state.shards := by
  rw [shards, hierarchical.shardDomain, List.mem_toFinset]
  exact hierarchical.hierarchy.grounded.mem_shards listed

theorem load_initial (hierarchical : Hierarchical state) (binId : DomainId) :
    state.load weight {} (1, binId) = ∑ shard ∈ (state.assignmentTree.children 1 binId).toFinset, weight shard := by
  unfold load
  refine Finset.sum_congr (Finset.ext fun shard => ?_) fun _ _ => rfl
  rw [Finset.mem_filter, List.mem_toFinset, nodeOver, MovementMap.next_empty, Option.none_or, hierarchical.parentOf_iff]
  exact ⟨And.right, fun listed => ⟨mem_shards hierarchical listed, listed⟩⟩

theorem load_update {moves after : MovementMap} {shard : DomainId} (present : shard ∈ state.shards)
    (others : ∀ other, other ≠ shard → after.getNextBin other = moves.getNextBin other) (binId : DomainId) :
    state.load weight after (1, binId) = state.load weight moves (1, binId) +
      ((if state.nodeOver after shard 1 = some binId then weight shard else 0) -
        if state.nodeOver moves shard 1 = some binId then weight shard else 0) := by
  have moved : ∀ other, (if state.nodeOver after other 1 = some binId then weight other else 0) =
      (if state.nodeOver moves other 1 = some binId then weight other else 0) +
        if other = shard then (if state.nodeOver after shard 1 = some binId then weight shard else 0) -
          (if state.nodeOver moves shard 1 = some binId then weight shard else 0) else 0 := by
    intro other
    by_cases here : other = shard
    · subst here
      simp only [if_true]
      omega
    · simp [nodeOver, others other here, here]
  simp only [load, Finset.sum_filter]
  rw [Finset.sum_congr rfl fun other _ => moved other, Finset.sum_add_distrib]
  simp [present]

theorem load_candidate (hierarchical : Hierarchical state) {moves : MovementMap} {shard nextBin : DomainId}
    (candidate : IterativeLocalSearch.Candidate state moves shard nextBin) (binId : DomainId) :
    state.load weight (moves.addMovements (.addMovement {} shard nextBin)) (1, binId) =
      state.load weight moves (1, binId) + ((if binId = nextBin then weight shard else 0) -
        if shard ∈ state.assignmentTree.children 1 binId then weight shard else 0) := by
  obtain ⟨former, listed, _⟩ := candidate.listed
  rw [hierarchical.binDomain] at listed
  have others : ∀ other, other ≠ shard →
      (moves.addMovements (.addMovement {} shard nextBin)).getNextBin other = moves.getNextBin other := by
    intro other different
    simp [different]
  rw [load_update weight (mem_shards hierarchical listed) others]
  simp only [nodeOver, MovementMap.next_addMovements, MovementMap.next_addMovement, if_true, Option.some_or,
    candidate.unmoved, Option.none_or, hierarchical.parentOf_iff, Option.some.injEq, eq_comm (a := nextBin)]

end SolvingState
end ShardManager
