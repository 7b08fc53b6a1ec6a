import ShardManager.Proofs.SearchRules

/-! Evaluating a candidate starts from the committed version of everything it
reads and writes canaries only. An evaluation is therefore the same after any
number of rejected ones, and rejecting costs nothing but the canaries left behind. -/

namespace ShardManager

section Propagate
variable {σ : Type} {order : HashOrder} {calcMetricFunc : CalcMetricFunc σ} {tree : SparseMappingTree}
  {movementMaps : List MovementMapPtr}

/-- Whatever every evaluation of a node keeps, with and without its value being
stored, a finished propagation keeps. -/
private theorem propagateChanges_invariant (invariant : MetricsMap → σ → Prop)
    (calculated : ∀ metricsMap context changedChildren node val after, invariant metricsMap context →
      calcMetricFunc tree movementMaps metricsMap changedChildren node context = .ok (val, after) →
        invariant metricsMap after ∧ invariant (metricsMap.set true val node) after)
    {rounds : Nat} {toUpdate : UpdateMap} {metricsMap final : MetricsMap} {context after : σ}
    (holds : invariant metricsMap context)
    (finished : propagateChanges order calcMetricFunc tree movementMaps rounds toUpdate (metricsMap, context) =
      .ok (final, after)) : invariant final after := by
  induction rounds generalizing toUpdate metricsMap context with
  | zero =>
    cases finished
    exact holds
  | succ rounds ih =>
    rw [propagateChanges] at finished
    obtain ⟨round, looped, rest⟩ := Checked.bind_ok finished
    have kept : invariant round.metricsMap round.context := by
      refine Checked.foldlM_invariant (fun round => invariant round.metricsMap round.context) ?_ holds looped
      intro current node _ next valid updated
      obtain ⟨⟨val, context⟩, computed, stored⟩ := Checked.bind_ok updated
      obtain ⟨same, changed⟩ := calculated _ _ _ _ _ _ valid computed
      simp only at stored
      split at stored
      · cases stored
        exact same
      · obtain ⟨parents, _, stored⟩ := Checked.bind_ok stored
        cases stored
        exact changed
    split at rest
    · cases rest
      exact kept
    · exact ih kept rest

variable {state : SolvingState}

theorem ExpressionTree.update_invariant (invariant : MetricsMap → σ → Prop)
    (calculated : ∀ tree movementMaps metricsMap context changedChildren node val after, invariant metricsMap context →
      calcMetricFunc tree movementMaps metricsMap changedChildren node context = .ok (val, after) →
        invariant metricsMap after ∧ invariant (metricsMap.set true val node) after)
    {tree final : ExpressionTree} {shardIds : List DomainId} {context after : σ}
    (finished : tree.update order state calcMetricFunc movementMaps shardIds context = .ok (final, after))
    (holds : invariant tree.metricsMap context) :
    final.assignmentTree = tree.assignmentTree ∧ invariant final.metricsMap after := by
  obtain ⟨toUpdate, _, finished⟩ := Checked.bind_ok finished
  obtain ⟨⟨metricsMap, last⟩, propagated, finished⟩ := Checked.bind_ok finished
  cases finished
  exact ⟨rfl, propagateChanges_invariant invariant (calculated tree.assignmentTree movementMaps) holds propagated⟩

def ExpressionTree.rollback (tree : ExpressionTree) : ExpressionTree := { tree with metricsMap := tree.metricsMap.clear }

/-- Canarying moves keeps the tree and the committed metrics, and whatever the
context keeps through every evaluation. -/
private theorem ExpressionTree.canaryMoves_frame (invariant : σ → Prop)
    (calculated : ∀ tree movementMaps metricsMap context changedChildren node val after, invariant context →
      calcMetricFunc tree movementMaps metricsMap changedChildren node context = .ok (val, after) → invariant after)
    {tree final : ExpressionTree} {committedMoves canaryMoves : MovementMapPtr} {context after : σ} (holds : invariant context)
    (finished : tree.canaryMoves order state calcMetricFunc committedMoves canaryMoves context = .ok (final, after)) :
    final.assignmentTree = tree.assignmentTree ∧ final.metricsMap.clear = tree.metricsMap.clear ∧ invariant after := by
  obtain ⟨moves, _, finished⟩ := Checked.bind_ok finished
  have updated : tree.rollback.update order state calcMetricFunc [state.movementMap, committedMoves, canaryMoves]
      (order.ids moves.getAllMovements.keys) context = .ok (final, after) := finished
  have kept := ExpressionTree.update_invariant
    (fun metricsMap context => metricsMap.clear = tree.metricsMap.clear ∧ invariant context)
    (fun tree movementMaps metricsMap context changedChildren node val after ⟨same, valid⟩ computed =>
      have valid := calculated tree movementMaps metricsMap context changedChildren node val after valid computed
      ⟨⟨same, valid⟩, same, valid⟩)
    updated ⟨rfl, holds⟩
  exact ⟨kept.1, kept.2.1, kept.2.2⟩

end Propagate

namespace BinWeightInfo

@[simp] theorem clear_addTotalWeight (info : BinWeightInfo) (weightDelta : Int) :
    (info.addTotalWeight weightDelta).clear = info.clear := rfl

@[simp] theorem clear_addBinWeight (info : BinWeightInfo) (domainId : DomainId) (weightDelta : Int) :
    (info.addBinWeight domainId weightDelta).clear = info.clear := rfl

end BinWeightInfo

/-- Constraints whose evaluation starts by dropping their own canaries and writes
nothing but canaries; `rollback` is the object without canaries. -/
class LawfulConstraint (C : Type) [ConstraintOps C] where
  rollback : C → C
  canaryMoves_rollback : ∀ (order : HashOrder) (state : SolvingState) (committedMoves canaryMoves : MovementMapPtr)
    (object : C) (info : BinWeightInfo),
    ConstraintOps.canaryMoves order state committedMoves canaryMoves (rollback object) info =
      ConstraintOps.canaryMoves order state committedMoves canaryMoves object info
  rollback_canaryMoves : ∀ (order : HashOrder) (state : SolvingState) (committedMoves canaryMoves : MovementMapPtr)
    (object after : C) (info final : BinWeightInfo),
    ConstraintOps.canaryMoves order state committedMoves canaryMoves object info = .ok (after, final) →
      rollback after = rollback object ∧ final.clear = info.clear

private theorem ExpressionTree.rollback_eq {first second : ExpressionTree} (tree : first.assignmentTree = second.assignmentTree)
    (metrics : first.metricsMap.clear = second.metricsMap.clear) : first.rollback = second.rollback := by
  simp [rollback, tree, metrics]

namespace FaultRecord

private theorem record_clear (state : SolvingState) (domain : Domain) (node : Node) (currentWeight : Int) (record : FaultRecord) :
    (record.record state domain node currentWeight).domainFaultMap.clear = record.domainFaultMap.clear ∧
    (record.record state domain node currentWeight).binWeightInfo.clear = record.binWeightInfo.clear := by
  unfold FaultRecord.record
  split
  · simp only
    split
    · exact ⟨rfl, rfl⟩
    · split <;> exact ⟨rfl, rfl⟩
  · exact ⟨rfl, rfl⟩

end FaultRecord

variable {order : HashOrder} {state : SolvingState} {committedMoves canaryMoves : MovementMapPtr} {info final : BinWeightInfo}

def MetricConstraint.rollback (constraint : MetricConstraint) : MetricConstraint :=
  { constraint with
    expressionTree := constraint.expressionTree.rollback
    domainFaultMap := constraint.domainFaultMap.clear }

def DrainConstraint.rollback (constraint : DrainConstraint) : DrainConstraint :=
  { constraint with
    expressionTree := constraint.expressionTree.rollback
    domainFaultMap := constraint.domainFaultMap.clear }

def LoadBalancingConstraint.rollback (constraint : LoadBalancingConstraint) : LoadBalancingConstraint :=
  { constraint with
    minExpressionTree := constraint.minExpressionTree.rollback
    maxExpressionTree := constraint.maxExpressionTree.rollback
    domainUpdatedSet := ∅
    domainFaultMap := constraint.domainFaultMap.clear }

theorem MetricConstraint.rollback_canaryMoves {constraint after : MetricConstraint}
    (finished : constraint.canaryMoves order state committedMoves canaryMoves info = .ok (after, final)) :
    after.rollback = constraint.rollback ∧ final.clear = info.clear := by
  obtain ⟨⟨expressionTree, record⟩, canaried, finished⟩ := Checked.bind_ok finished
  cases finished
  obtain ⟨tree, metrics, faults, weights⟩ := ExpressionTree.canaryMoves_frame
    (fun record => record.domainFaultMap.clear = constraint.domainFaultMap.clear ∧ record.binWeightInfo.clear = info.clear)
    (by
      intro _ _ _ record _ node _ after ⟨faults, weights⟩ computed
      obtain ⟨val, _, computed⟩ := Checked.bind_ok computed
      cases computed
      obtain ⟨sameFaults, sameWeights⟩ := FaultRecord.record_clear state constraint.domain node
        (MetricConstraint.fault constraint.capacity constraint.faultWeight _) record
      exact ⟨sameFaults.trans faults, sameWeights.trans weights⟩)
    ⟨rfl, rfl⟩ canaried
  exact ⟨by simp [rollback, ExpressionTree.rollback_eq tree metrics, faults], weights⟩

theorem DrainConstraint.rollback_canaryMoves {constraint after : DrainConstraint}
    (finished : constraint.canaryMoves order state committedMoves canaryMoves info = .ok (after, final)) :
    after.rollback = constraint.rollback ∧ final.clear = info.clear := by
  obtain ⟨⟨expressionTree, record⟩, canaried, finished⟩ := Checked.bind_ok finished
  cases finished
  obtain ⟨tree, metrics, faults, weights⟩ := ExpressionTree.canaryMoves_frame
    (fun record => record.domainFaultMap.clear = constraint.domainFaultMap.clear ∧ record.binWeightInfo.clear = info.clear)
    (by
      intro _ _ _ record _ node _ after ⟨faults, weights⟩ computed
      obtain ⟨val, _, computed⟩ := Checked.bind_ok computed
      cases computed
      obtain ⟨sameFaults, sameWeights⟩ := FaultRecord.record_clear state constraint.domain node
        (DrainConstraint.fault constraint.faultWeight _) record
      exact ⟨sameFaults.trans faults, sameWeights.trans weights⟩)
    ⟨rfl, rfl⟩ canaried
  exact ⟨by simp [rollback, ExpressionTree.rollback_eq tree metrics, faults], weights⟩

private theorem LoadBalancingConstraint.clear_updateWeights (constraint : LoadBalancingConstraint) :
    (constraint.updateWeights order info).clear = info.clear := by
  unfold updateWeights
  generalize order.ids constraint.domainUpdatedSet.keys = updated
  induction updated generalizing info with
  | nil => rfl
  | cons domainId updated ih => exact ih.trans (BinWeightInfo.clear_addBinWeight _ _ _)

theorem LoadBalancingConstraint.rollback_canaryMoves {constraint after : LoadBalancingConstraint}
    (finished : constraint.canaryMoves order state committedMoves canaryMoves info = .ok (after, final)) :
    after.rollback = constraint.rollback ∧ final.clear = info.clear := by
  obtain ⟨⟨minExpressionTree, updated⟩, minCanaried, finished⟩ := Checked.bind_ok finished
  obtain ⟨⟨maxExpressionTree, updatedSet⟩, maxCanaried, finished⟩ := Checked.bind_ok finished
  cases finished
  obtain ⟨minTree, minMetrics, _⟩ := ExpressionTree.canaryMoves_frame (fun _ => True)
    (fun _ _ _ _ _ _ _ _ _ _ => trivial) trivial minCanaried
  obtain ⟨maxTree, maxMetrics, _⟩ := ExpressionTree.canaryMoves_frame (fun _ => True)
    (fun _ _ _ _ _ _ _ _ _ _ => trivial) trivial maxCanaried
  exact ⟨by simp [rollback, ExpressionTree.rollback_eq minTree minMetrics, ExpressionTree.rollback_eq maxTree maxMetrics],
    clear_updateWeights _⟩

instance : LawfulConstraint Constraint where
  rollback
    | .metric constraint => .metric constraint.rollback
    | .drain constraint => .drain constraint.rollback
    | .loadBalancing constraint => .loadBalancing constraint.rollback
  canaryMoves_rollback order state committedMoves canaryMoves object info := by cases object <;> rfl
  rollback_canaryMoves order state committedMoves canaryMoves object after info final finished := by
    cases object with
    | metric constraint =>
      obtain ⟨⟨result, weights⟩, canaried, finished⟩ := Checked.bind_ok finished
      cases finished
      obtain ⟨same, cleared⟩ := MetricConstraint.rollback_canaryMoves canaried
      exact ⟨congrArg Constraint.metric same, cleared⟩
    | drain constraint =>
      obtain ⟨⟨result, weights⟩, canaried, finished⟩ := Checked.bind_ok finished
      cases finished
      obtain ⟨same, cleared⟩ := DrainConstraint.rollback_canaryMoves canaried
      exact ⟨congrArg Constraint.drain same, cleared⟩
    | loadBalancing constraint =>
      obtain ⟨⟨result, weights⟩, canaried, finished⟩ := Checked.bind_ok finished
      cases finished
      obtain ⟨same, cleared⟩ := LoadBalancingConstraint.rollback_canaryMoves canaried
      exact ⟨congrArg Constraint.loadBalancing same, cleared⟩

namespace IterativeLocalSearch
variable {ι C : Type} [DecidableEq ι] [ConstraintOps C] [LawfulConstraint C] {constraints : List ι}

/-- Worlds that differ at most in the canaries of the weights and of the listed
constraints. -/
structure SameCommitted (constraints : List ι) (first second : World ι C) : Prop where
  listed : ∀ constraint ∈ constraints,
    LawfulConstraint.rollback (first.objects constraint) = LawfulConstraint.rollback (second.objects constraint)
  others : ∀ constraint, constraint ∉ constraints → first.objects constraint = second.objects constraint
  weights : first.binWeightInfo.clear = second.binWeightInfo.clear

omit [DecidableEq ι] in
theorem SameCommitted.refl (world : World ι C) : SameCommitted constraints world world :=
  ⟨fun _ _ => rfl, fun _ _ => rfl, rfl⟩

omit [DecidableEq ι] in
theorem SameCommitted.trans {first second third : World ι C} (left : SameCommitted constraints first second)
    (right : SameCommitted constraints second third) : SameCommitted constraints first third where
  listed constraint member := (left.listed constraint member).trans (right.listed constraint member)
  others constraint absent := (left.others constraint absent).trans (right.others constraint absent)
  weights := left.weights.trans right.weights

variable {committedMoves canariedMoves : MovementMap}

omit [LawfulConstraint C] in
private theorem updateWeights_cons (constraint : ι) (world : World ι C) {object : C} {info : BinWeightInfo}
    (canaried : ConstraintOps.canaryMoves order state (some committedMoves) (some canariedMoves)
      (world.objects constraint) world.binWeightInfo = .ok (object, info)) :
    updateWeights order state (constraint :: constraints) committedMoves canariedMoves world =
      updateWeights order state constraints committedMoves canariedMoves
        ⟨Function.update world.objects constraint object, info⟩ := by
  rw [updateWeights, List.foldlM_cons, canaried]
  rfl

/-- The canaries of constraints still to be visited are never read. -/
private theorem updateWeights_same {first second : World ι C} (same : SameCommitted constraints first second)
    (weights : first.binWeightInfo = second.binWeightInfo) :
    updateWeights order state constraints committedMoves canariedMoves first =
      updateWeights order state constraints committedMoves canariedMoves second := by
  induction constraints generalizing first second with
  | nil =>
    have objects : first.objects = second.objects := funext fun constraint => same.others constraint (by simp)
    have equal : first = second := by
      cases first
      cases second
      cases objects
      cases weights
      rfl
    rw [equal]
  | cons constraint constraints ih =>
    have visited : ConstraintOps.canaryMoves order state (some committedMoves) (some canariedMoves)
          (first.objects constraint) first.binWeightInfo =
        ConstraintOps.canaryMoves order state (some committedMoves) (some canariedMoves)
          (second.objects constraint) second.binWeightInfo := by
      rw [← LawfulConstraint.canaryMoves_rollback, same.listed constraint (by simp), weights,
        LawfulConstraint.canaryMoves_rollback]
    cases canaried : ConstraintOps.canaryMoves order state (some committedMoves) (some canariedMoves)
        (second.objects constraint) second.binWeightInfo with
    | error fault =>
      unfold updateWeights
      rw [List.foldlM_cons, List.foldlM_cons, visited, canaried]
      rfl
    | ok result =>
      obtain ⟨object, info⟩ := result
      rw [updateWeights_cons constraint first (visited.trans canaried), updateWeights_cons constraint second canaried]
      refine ih ?_ rfl
      constructor
      · intro other member
        by_cases here : other = constraint
        · simp [here]
        · simpa [here] using same.listed other (by simp [member])
      · intro other absent
        by_cases here : other = constraint
        · simp [here]
        · simpa [here] using same.others other (by simp [here, absent])
      · rfl

theorem SameCommitted.evaluate {first second : World ι C} (same : SameCommitted constraints first second) :
    evaluate order state constraints committedMoves canariedMoves first =
      evaluate order state constraints committedMoves canariedMoves second := by
  apply updateWeights_same
  · exact ⟨same.listed, same.others, by simpa using same.weights⟩
  · exact same.weights

theorem updateWeights_keeps {world after : World ι C}
    (updated : updateWeights order state constraints committedMoves canariedMoves world = .ok after) :
    SameCommitted constraints after world := by
  refine Checked.foldlM_invariant (fun current => SameCommitted constraints current world) ?_ (.refl world) updated
  intro current constraint member next same turn
  obtain ⟨⟨object, info⟩, canaried, turn⟩ := Checked.bind_ok turn
  cases turn
  obtain ⟨kept, cleared⟩ := LawfulConstraint.rollback_canaryMoves _ _ _ _ _ _ _ _ canaried
  constructor
  · intro other listed
    by_cases here : other = constraint
    · subst here
      simpa [kept] using same.listed other listed
    · simpa [here] using same.listed other listed
  · intro other absent
    have different : other ≠ constraint := fun here => absent (here ▸ member)
    simpa [different] using same.others other absent
  · exact cleared.trans same.weights

theorem evaluate_keeps {world after : World ι C}
    (evaluated : evaluate order state constraints committedMoves canariedMoves world = .ok after) :
    SameCommitted constraints after world := by
  have same := updateWeights_keeps evaluated
  exact ⟨same.listed, same.others, same.weights⟩

/-- Any number of evaluations leave the committed version as it was; each may
traverse the hash containers in an order of its own. -/
theorem evaluations_keep {world later : World ι C} (rejected : List (HashOrder × MovementMap))
    (evaluated : rejected.foldlM (fun world candidate =>
      evaluate candidate.1 state constraints committedMoves candidate.2 world) world = .ok later) :
    SameCommitted constraints later world := by
  refine Checked.foldlM_invariant (fun current => SameCommitted constraints current world) ?_ (.refl world) evaluated
  intro current candidate _ next same turn
  exact (evaluate_keeps turn).trans same

end IterativeLocalSearch
end ShardManager
