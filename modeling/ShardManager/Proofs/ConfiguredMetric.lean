import ShardManager.Proofs.ExactTrees

/-! The metric that a constraint is constructed with. `LoadBalancingConstraint` sums it;
`MetricConstraint` hands it on, and `sumOperator` sums the first one. -/

namespace ShardManager
open SparseMappingTree IterativeLocalSearch

section Recorded
variable {state : SolvingState} {domain : Domain} {domainIds : List DomainId} {metric : Metric} {capacity faultWeight : Int}
  {order : HashOrder} {info weights : BinWeightInfo}

private theorem MetricConstraint.counts_new (hierarchical : state.Hierarchical) (above : domain ≠ 0) {constraint : MetricConstraint}
    (made : new order state .after domain domainIds metric capacity faultWeight info = .ok (constraint, weights)) :
    ∃ counter, (Constraint.metric constraint).counter state = some counter ∧
      counter.part = state.assignmentTree.createPartialTree domain domainIds ∧
      CountsLoad state (state.getShardMetric 0) {} counter := by
  have isPart := createPartialTree_part hierarchical.hierarchy domain domainIds
  have additive := newCounter_additive domainIds hierarchical .after capacity faultWeight above
  have constructed : Constraint.new order state info (.metric .after domain domainIds metric capacity faultWeight) =
      .ok (.metric constraint, weights) := by
    rw [Constraint.new, made]
    rfl
  obtain ⟨found, _⟩ := Constraint.counter_new hierarchical.movementMap
    (newCounter state .after domain domainIds capacity faultWeight) rfl (resolves_unmoved _) constructed
  exact ⟨_, found, rfl,
    countsLoad_new order info hierarchical additive isPart (funext fun _ => rfl) (funext fun _ => rfl)⟩

private theorem MetricConstraint.shards_unrecorded (hierarchical : state.Hierarchical) {constraint : MetricConstraint}
    (made : new order state .after domain domainIds metric capacity faultWeight info = .ok (constraint, weights))
    (domainId : DomainId) : constraint.expressionTree.metricsMap.getFromCommittedMap (0, domainId) = none := by
  have isPart := createPartialTree_part hierarchical.hierarchy domain domainIds
  rw [new, ExpressionTree.new_eq state (calculates state .after domain metric capacity faultWeight)
    (state.assignmentTree.createPartialTree domain domainIds) hierarchical.movementMap (resolves_unmoved _)] at made
  cases made
  obtain ⟨changed, settled, _⟩ := ExpressionTree.updated_settled state order
    (calculation state .after domain capacity faultWeight) ⟨state.assignmentTree.createPartialTree domain domainIds, .empty⟩
    isPart.hierarchy.layered (isPart.hierarchy.shards.trans hierarchical.shardDomain.symm) [{}]
    (order.ids ((state.assignmentTree.createPartialTree domain domainIds).getAllDomainIds state.shardDomain))
    (⟨.empty, info⟩ : FaultRecord)
  refine (CommittableMap.committed_commit _ _).trans ((settled.outside (0, domainId) fun index => ?_).trans ?_)
  · simp [binsUp]
  · exact CommittableMap.get_empty _

private theorem MetricConstraint.recorded_listed (hierarchical : state.Hierarchical) {constraint : MetricConstraint}
    (made : new order state .after domain domainIds metric capacity faultWeight info = .ok (constraint, weights))
    {domainId : DomainId} (listed : domainId ∈ domainIds)
    (fits : FitsInt32 (state.load (state.getShardMetric 0) {} (domain, domainId))) :
    (constraint.expressionTree.metricsMap.getFromCommittedMap (domain, domainId)).getD 0 =
      state.load (state.getShardMetric 0) {} (domain, domainId) := by
  obtain rfl | above := eq_or_ne domain 0
  · rw [shards_unrecorded hierarchical made]
    refine (Finset.sum_eq_zero fun shard member => ?_).symm
    cases (Finset.mem_filter.mp member).2
  · obtain ⟨counter, found, part, counts⟩ := counts_new hierarchical above made
    have isPart := createPartialTree_part hierarchical.hierarchy domain domainIds
    cases found
    exact counts.value_listed hierarchical (part ▸ isPart) (.inr rfl) listed fits

theorem MetricConstraint.recorded_bin (hierarchical : state.Hierarchical) {constraint : MetricConstraint}
    (made : new order state .after domain domainIds metric capacity faultWeight info = .ok (constraint, weights))
    {binId : DomainId} (mapped : (state.assignmentTree.createPartialTree domain domainIds).Mapped (1, binId))
    (fits : FitsInt32 (state.load (state.getShardMetric 0) {} (1, binId))) :
    (constraint.expressionTree.metricsMap.getFromCommittedMap (1, binId)).getD 0 =
      state.load (state.getShardMetric 0) {} (1, binId) := by
  have isPart := createPartialTree_part hierarchical.hierarchy domain domainIds
  have above : domain ≠ 0 := by
    rintro rfl
    exact absurd (isPart.mapped _ mapped).2 (by simp)
  obtain ⟨counter, found, part, counts⟩ := counts_new hierarchical above made
  cases found
  exact counts.value hierarchical (part ▸ isPart) (.inr rfl) (.inl (part ▸ mapped)) fits

/-- The trees of a `LoadBalancingConstraint` record the configured metric of every bin they have. -/
theorem LoadBalancingConstraint.recorded_bin (hierarchical : state.Hierarchical) {maxDelta : Int}
    {faultWeightMultiplier : Int → Int} {constraint : LoadBalancingConstraint}
    (made : new order state domain domainIds metric maxDelta faultWeightMultiplier info = .ok (constraint, weights))
    (hasBin : (state.assignmentTree.createPartialTree domain domainIds).HasBin) {binId : DomainId}
    (mapped : (partialTree state domain domainIds).Mapped (1, binId))
    (fits : FitsInt32 (state.load (state.getShardMetric metric) {} (1, binId))) :
    (constraint.minExpressionTree.metricsMap.getFromCommittedMap (1, binId)).getD 0 =
      state.load (state.getShardMetric metric) {} (1, binId) ∧
    (constraint.maxExpressionTree.metricsMap.getFromCommittedMap (1, binId)).getD 0 =
      state.load (state.getShardMetric metric) {} (1, binId) := by
  obtain ⟨listsBins, _, level, layered, _⟩ := partialTree_layered hierarchical hasBin
  have shards := hierarchical.shardDomain
  rw [new_eq domainIds metric maxDelta order info hierarchical.movementMap domain _ (resolves_unmoved _), Except.ok.injEq,
    Prod.mk.injEq] at made
  obtain ⟨rfl, -⟩ := made
  have all := order.ids_perm ((partialTree state domain domainIds).getAllDomainIds state.shardDomain)
  have recorded : ∀ cmp updatedSet, (((ExpressionTree.mk (partialTree state domain domainIds) .empty).updated state order
      (calculation state domain metric cmp) [{}]
        (order.ids ((partialTree state domain domainIds).getAllDomainIds state.shardDomain)) updatedSet).1.metricsMap.get
          (1, binId)).getD 0 = state.load (state.getShardMetric metric) {} (1, binId) := by
    intro cmp updatedSet
    obtain ⟨changed, settled, lowest, _⟩ := ExpressionTree.updated_settled state order (calculation state domain metric cmp)
      ⟨partialTree state domain domainIds, .empty⟩ layered (listsBins.shards.trans shards.symm) [{}]
      (order.ids ((partialTree state domain domainIds).getAllDomainIds state.shardDomain)) updatedSet
    rw [shards] at all
    have measures : MeasuresBins state metric _ {} _ :=
      measuresBins_new hierarchical listsBins layered all settled (by rw [shards] at lowest; exact lowest)
    exact measures.value hierarchical mapped.2 fits
  constructor
  · exact (congrArg (Option.getD · 0) (CommittableMap.committed_commit _ _)).trans (recorded _ _)
  · exact (congrArg (Option.getD · 0) (CommittableMap.committed_commit _ _)).trans (recorded _ _)

end Recorded

/-- What a constraint records for its nodes is the sum of the metric it was configured with, and
agrees with what load balancing records for their common bins, exactly where the first metric has
the same sum. -/
theorem MetricConstraint.configured_metric_iff (shardInfoVector : List ShardInfo) (metricVectors : List (List MetricValue))
    (domainMapping : List (List (List DomainId))) (once : SolvingState.ListsOnce domainMapping) {state : SolvingState}
    (built : state = (SolvingState.new shardInfoVector metricVectors domainMapping).withEmptyMovementMap) (order : HashOrder)
    (domain : Domain) (domainIds : List DomainId) (metric : Metric) (capacity faultWeight : Int) (info weights : BinWeightInfo)
    (constraint : MetricConstraint)
    (made : new order state .after domain domainIds metric capacity faultWeight info = .ok (constraint, weights)) :
    (∀ domainId ∈ domainIds, FitsInt32 (state.load (state.getShardMetric 0) {} (domain, domainId)) →
      ((constraint.expressionTree.metricsMap.getFromCommittedMap (domain, domainId)).getD 0 =
          state.load (state.getShardMetric metric) {} (domain, domainId) ↔
        state.load (state.getShardMetric 0) {} (domain, domainId) = state.load (state.getShardMetric metric) {} (domain, domainId))) ∧
    ∀ (otherOrder : HashOrder) (otherDomain : Domain) (otherIds : List DomainId) (maxDelta : Int)
      (faultWeightMultiplier : Int → Int) (otherInfo otherWeights : BinWeightInfo) (balancing : LoadBalancingConstraint),
      LoadBalancingConstraint.new otherOrder state otherDomain otherIds metric maxDelta faultWeightMultiplier otherInfo =
        .ok (balancing, otherWeights) →
      ∀ binId, (state.assignmentTree.createPartialTree domain domainIds).Mapped (state.binDomain, binId) →
        (state.assignmentTree.createPartialTree otherDomain otherIds).Mapped (state.binDomain, binId) →
        FitsInt32 (state.load (state.getShardMetric 0) {} (state.binDomain, binId)) →
        FitsInt32 (state.load (state.getShardMetric metric) {} (state.binDomain, binId)) →
        ∀ recorded ∈ [balancing.minExpressionTree.metricsMap.getFromCommittedMap (state.binDomain, binId),
            balancing.maxExpressionTree.metricsMap.getFromCommittedMap (state.binDomain, binId)],
          ((constraint.expressionTree.metricsMap.getFromCommittedMap (state.binDomain, binId)).getD 0 = recorded.getD 0 ↔
            state.load (state.getShardMetric 0) {} (state.binDomain, binId) =
              state.load (state.getShardMetric metric) {} (state.binDomain, binId)) := by
  have hierarchical : state.Hierarchical := built ▸ SolvingState.hierarchical_new shardInfoVector metricVectors once
  constructor
  · intro domainId listed fits
    rw [recorded_listed hierarchical made listed fits]
  · intro otherOrder otherDomain otherIds maxDelta faultWeightMultiplier otherInfo otherWeights balancing balanced binId mapped
      otherMapped fits otherFits recorded shown
    rw [hierarchical.binDomain] at mapped otherMapped fits otherFits shown ⊢
    have hasBin : (state.assignmentTree.createPartialTree otherDomain otherIds).HasBin := by
      rw [HasBin, row_mapped, createPartialTree_binDomain, hierarchical.hierarchy.bins]
      exact otherMapped.1
    obtain ⟨minimum, maximum⟩ :=
      LoadBalancingConstraint.recorded_bin hierarchical balanced hasBin (partialTree_mapped hierarchical hasBin otherMapped) otherFits
    rw [recorded_bin hierarchical made mapped fits]
    simp only [List.mem_cons, List.not_mem_nil, or_false] at shown
    obtain rfl | rfl := shown
    · rw [minimum]
    · rw [maximum]

namespace MetricConstraint

def twoMetrics : SolvingState := (SolvingState.new [] [[5, 7], [1, 2]] [[[0, 1], []], [[0, 1]]]).withEmptyMovementMap

def secondMetric : MetricConstraint × BinWeightInfo :=
  (new .insertion twoMetrics .after 1 [0] 1 10 1 .empty).toOption.get (by decide +kernel)

def balancedMetric : LoadBalancingConstraint × BinWeightInfo :=
  (LoadBalancingConstraint.new .insertion twoMetrics 1 [0, 1] 1 10 (LoadBalancingConstraint.integerMultiplier 2) .empty).toOption.get (by decide +kernel)

theorem configured_metric_twoMetrics :
    ((secondMetric.1.expressionTree.metricsMap.getFromCommittedMap (1, 0)).getD 0 =
        twoMetrics.load (twoMetrics.getShardMetric 1) {} (1, 0) ↔
      twoMetrics.load (twoMetrics.getShardMetric 0) {} (1, 0) = twoMetrics.load (twoMetrics.getShardMetric 1) {} (1, 0)) ∧
    ((secondMetric.1.expressionTree.metricsMap.getFromCommittedMap (1, 0)).getD 0 =
        (balancedMetric.1.minExpressionTree.metricsMap.getFromCommittedMap (1, 0)).getD 0 ↔
      twoMetrics.load (twoMetrics.getShardMetric 0) {} (1, 0) = twoMetrics.load (twoMetrics.getShardMetric 1) {} (1, 0)) := by
  obtain ⟨listed, common⟩ := configured_metric_iff [] [[5, 7], [1, 2]] [[[0, 1], []], [[0, 1]]] (by decide) rfl .insertion 1 [0] 1 10
    1 .empty secondMetric.2 secondMetric.1 (Checked.ok_get _ (by decide +kernel))
  refine ⟨listed 0 (by simp) (by decide +kernel), ?_⟩
  exact common .insertion 1 [0, 1] 10 (LoadBalancingConstraint.integerMultiplier 2) .empty balancedMetric.2 balancedMetric.1
    (Checked.ok_get _ (by decide +kernel)) 0 ⟨by decide +kernel, by decide +kernel⟩ ⟨by decide +kernel, by decide +kernel⟩
    (by decide +kernel) (by decide +kernel) _ List.mem_cons_self

/-- The constraint on the second metric records 12 for a bin whose second metrics add up to 3. -/
theorem second_metric_unread :
    new .insertion twoMetrics .after 1 [0] 1 10 1 .empty = .ok secondMetric ∧
    secondMetric.1.expressionTree.metricsMap.getFromCommittedMap (1, 0) = some 12 ∧
    twoMetrics.load (twoMetrics.getShardMetric 1) {} (1, 0) = 3 :=
  ⟨Checked.ok_get _ (by decide +kernel), by decide +kernel, by decide +kernel⟩

end MetricConstraint
end ShardManager
