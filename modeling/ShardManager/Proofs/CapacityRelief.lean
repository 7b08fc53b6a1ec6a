import ShardManager.Proofs.DrainProgress

/-! A capacity for one bin does what it is for. On its own, a `MetricConstraint` with
consistency `AFTER` has the search take shards out of its bin as long as the bin is over
its capacity, and no longer. -/

namespace ShardManager
open IterativeLocalSearch SolvingState

namespace MetricConstraint
variable {ι : Type} {order : HashOrder} {state : SolvingState} {target : ι} {binId : DomainId} {metric : Metric}
  {capacity faultWeight : Int}

/-- The load of the bin by metric 0, which is the one that `sumOperator` sums up. -/
def binLoad (state : SolvingState) (binId : DomainId) (moves : MovementMap) : Int :=
  state.load (state.getShardMetric 0) moves (1, binId)

/-- The placement search of a capacity for one bin alone. -/
abbrev reliefSearch (state : SolvingState) (target : ι) (binId : DomainId) (metric : Metric) (capacity faultWeight : Int) :
    Descent MovementMap MovementMap :=
  placementSearch state [target] fun _ => (Constraint.Arguments.metric .after 1 [binId] metric capacity faultWeight).weighs state

/-- Loads and faults that the constraint keeps without overflow; shards of the bin weigh something. -/
structure Relievable (state : SolvingState) (binId : DomainId) (capacity faultWeight : Int) : Prop where
  hierarchical : state.Hierarchical
  capacity : 0 ≤ capacity
  weight : 0 < faultWeight
  metrics : ∀ shard, 0 ≤ state.getShardMetric 0 shard
  listed : ∀ shard ∈ state.assignmentTree.children 1 binId, 0 < state.getShardMetric 0 shard
  faults : (∑ shard ∈ state.shards, state.getShardMetric 0 shard) * faultWeight < 2147483648

private theorem binLoad_candidate (hierarchical : state.Hierarchical) (binId : DomainId) {moves : MovementMap} {shard nextBin : DomainId}
    (candidate : Candidate state moves shard nextBin) {former : DomainId} (listed : shard ∈ state.assignmentTree.children 1 former) :
    binLoad state binId (moves.addMovements (.addMovement {} shard nextBin)) =
      binLoad state binId moves + ((if binId = nextBin then state.getShardMetric 0 shard else 0) -
        if binId = former then state.getShardMetric 0 shard else 0) := by
  have moved := load_candidate (state.getShardMetric 0) hierarchical candidate binId
  simp only [hierarchical.listed_iff listed] at moved
  exact moved

section Moves
variable (relievable : Relievable state binId capacity faultWeight)
include relievable

private theorem Relievable.fault_eq (moves : MovementMap) :
    fault capacity faultWeight (binLoad state binId moves) = max 0 (binLoad state binId moves - capacity) * faultWeight := by
  have weight := relievable.weight
  have room := relievable.capacity
  have most : binLoad state binId moves ≤ ∑ shard ∈ state.shards, state.getShardMetric 0 shard :=
    Finset.sum_le_sum_of_subset_of_nonneg (Finset.filter_subset _ _) fun shard _ _ => relievable.metrics shard
  unfold fault
  split
  next above =>
    have scaled : (binLoad state binId moves - capacity) * faultWeight ≤
        (∑ shard ∈ state.shards, state.getShardMetric 0 shard) * faultWeight :=
      Int.mul_le_mul_of_nonneg_right (by omega) (le_of_lt weight)
    have positive : 0 ≤ (binLoad state binId moves - capacity) * faultWeight := Int.mul_nonneg (by omega) (le_of_lt weight)
    have bound : (∑ shard ∈ state.shards, state.getShardMetric 0 shard : Int) * faultWeight < (2147483648 : Int) := relievable.faults
    rw [max_eq_right (by omega), toInt32_of_fits]
    unfold FitsInt32
    omega
  next below => rw [max_eq_left (by omega), zero_mul]

/-- A move lowers the potential exactly if it takes its shard out of the bin while that is over its capacity. -/
theorem Relievable.lowers_iff {moves : MovementMap} {shard nextBin : DomainId} (candidate : Candidate state moves shard nextBin)
    {former : DomainId} (listed : shard ∈ state.assignmentTree.children 1 former) :
    (reliefSearch state target binId metric capacity faultWeight).Lowers moves (.addMovement {} shard nextBin) ↔
      former = binId ∧ capacity < binLoad state binId moves := by
  have potential : ∀ moves, (reliefSearch state target binId metric capacity faultWeight).potential moves =
      max 0 (binLoad state binId moves - capacity) * faultWeight := by
    intro moves
    rw [← relievable.fault_eq]
    simp [reliefSearch, placementSearch, Constraint.Arguments.weighs, binLoad]
  obtain ⟨other, listedThere, different⟩ := candidate.listed
  rw [relievable.hierarchical.binDomain] at listedThere
  obtain rfl := (relievable.hierarchical.listed_iff listed other).mp listedThere
  unfold Descent.Lowers
  rw [potential, potential, mul_lt_mul_iff_left₀ relievable.weight]
  change max 0 (binLoad state binId (moves.addMovements (.addMovement {} shard nextBin)) - capacity) < _ ↔ _
  rw [binLoad_candidate relievable.hierarchical binId candidate listed]
  by_cases here : binId = other
  · subst here
    have weighs : (0 : Int) < state.getShardMetric 0 shard := relievable.listed shard listed
    rw [if_neg (Ne.symm different), if_pos rfl, and_iff_right rfl]
    omega
  · have weighs : (0 : Int) ≤ state.getShardMetric 0 shard := relievable.metrics shard
    rw [if_neg here, iff_false_right fun both => here both.1.symm]
    split
    next => omega
    next => omega

/-- Only shards of the bin have been moved, to other bins, and the last of them while the bin was over its capacity. -/
structure Relieving (state : SolvingState) (binId : DomainId) (capacity : Int) (moves : MovementMap) : Prop where
  taken : ∀ shard nextBin, moves.getNextBin shard = some nextBin → shard ∈ state.assignmentTree.children 1 binId ∧ nextBin ≠ binId
  needed : moved moves = 0 ∨ ∃ shard, (moves.getNextBin shard).isSome ∧ capacity < binLoad state binId moves + state.getShardMetric 0 shard

theorem Relieving.step {moves movement : MovementMap} (relieving : Relieving state binId capacity moves)
    (enabled : (reliefSearch state target binId metric capacity faultWeight).machine.enabled moves movement) :
    Relieving state binId capacity ((reliefSearch state target binId metric capacity faultWeight).machine.next moves movement) := by
  obtain ⟨⟨shard, nextBin, candidate, rfl⟩, lowers⟩ := enabled
  obtain ⟨former, listed, different⟩ := candidate.listed
  rw [relievable.hierarchical.binDomain] at listed
  obtain ⟨rfl, above⟩ := (relievable.lowers_iff candidate listed).mp lowers
  have lighter := binLoad_candidate relievable.hierarchical former candidate listed
  rw [if_neg (Ne.symm different), if_pos rfl] at lighter
  change Relieving state former capacity (moves.addMovements (.addMovement {} shard nextBin))
  constructor
  · intro other bin next
    rw [MovementMap.next_addMovements, MovementMap.next_addMovement] at next
    split at next
    next here =>
      cases next
      subst here
      exact ⟨listed, different⟩
    next => exact relieving.taken other bin next
  · right
    refine ⟨shard, ?_, ?_⟩
    · rw [MovementMap.next_addMovements, MovementMap.next_addMovement, if_pos rfl]
      rfl
    · rw [lighter, zero_sub, neg_add_cancel_right]
      exact above

/-- A bin over its capacity still has shards that have not been moved. -/
theorem Relieving.occupied {moves : MovementMap} (relieving : Relieving state binId capacity moves)
    (above : capacity < binLoad state binId moves) : shardsInBin state moves binId ≠ [] := by
  have loaded : binLoad state binId moves ≠ 0 := by
    have room := relievable.capacity
    omega
  unfold binLoad SolvingState.load at loaded
  obtain ⟨shard, member, _⟩ := Finset.exists_ne_zero_of_sum_ne_zero loaded
  obtain ⟨_, under⟩ := Finset.mem_filter.mp member
  rw [nodeOver] at under
  apply List.ne_nil_of_mem (a := shard)
  rw [shardsInBin, List.mem_filter, relievable.hierarchical.binDomain]
  cases next : moves.getNextBin shard with
  | some nextBin =>
    rw [next, Option.some_or] at under
    cases under
    exact absurd rfl (relieving.taken shard _ next).2
  | none =>
    rw [next, Option.none_or, relievable.hierarchical.parentOf_iff] at under
    exact ⟨under, rfl⟩

theorem Relievable.not_vain (others : 2 ≤ state.getDomainSize 1) {moves : MovementMap} (above : capacity < binLoad state binId moves) :
    ¬ VainAt state (reliefSearch state target binId metric capacity faultWeight) moves binId := by
  rintro ⟨shard, member, tried, inside, enough, vain⟩
  obtain ⟨listed, unmoved⟩ := List.mem_filter.mp member
  have some : 0 < tried.card := by
    rw [relievable.hierarchical.binDomain] at enough
    omega
  obtain ⟨nextBin, drawn⟩ := Finset.card_pos.mp some
  obtain ⟨different, bin⟩ := Finset.mem_erase.mp (inside drawn)
  have candidate : Candidate state moves shard nextBin :=
    ⟨⟨binId, listed, different⟩, Option.isNone_iff_eq_none.mp unmoved, Finset.mem_range.mp bin⟩
  rw [relievable.hierarchical.binDomain] at listed
  exact vain nextBin drawn ((relievable.lowers_iff candidate listed).mpr ⟨rfl, above⟩)

end Moves

variable [DecidableEq ι] {holds : MovementMap → Constraint → Prop}

theorem Relievable.fits (relievable : Relievable state binId capacity faultWeight) :
    ∑ shard ∈ state.shards, |state.getShardMetric 0 shard| < 2147483648 := by
  have weight := relievable.weight
  have faults := relievable.faults
  have same : ∑ shard ∈ state.shards, |state.getShardMetric 0 shard| = ∑ shard ∈ state.shards, state.getShardMetric 0 shard :=
    Finset.sum_congr rfl fun shard _ => abs_of_nonneg (relievable.metrics shard)
  have nonneg : 0 ≤ ∑ shard ∈ state.shards, state.getShardMetric 0 shard :=
    Finset.sum_nonneg fun shard _ => relievable.metrics shard
  rw [same]
  exact lt_of_le_of_lt (le_mul_of_one_le_right nonneg weight) faults

end MetricConstraint

variable {ι : Type} [DecidableEq ι]

namespace MetricConstraint

def heavyBin : MetricConstraint × BinWeightInfo :=
  (new .insertion .twoBins .after 1 [0] 0 10 1 .empty).toOption.get (by decide +kernel)

end MetricConstraint
end ShardManager
