import ShardManager.Proofs.Propagation
import ShardManager.Proofs.Rollback

/-! The constraints' calculations never fail on trees with a bin, so on a state
with a movement map the search evaluates every candidate. -/

namespace ShardManager

/-- What `MetricConstraint` computes. -/
def MetricConstraint.calculation (state : SolvingState) (consistency : MovementConsistency) (domain : Domain)
    (capacity faultWeight : Int) : Calculation FaultRecord where
  value tree movementMaps node reading :=
    toInt32 (reading.own.getD 0 + (reading.changedChildren.map fun child =>
      signed (addedChild state movementMaps node consistency child)
        (childMetric state ((tree.getChildDomain node.1).getD 0) reading.view reading.committed child)).sum)
  effect node val record := record.record state domain node (fault capacity faultWeight val)

theorem MetricConstraint.calculates (state : SolvingState) (consistency : MovementConsistency) (domain : Domain)
    (metric : Metric) (capacity faultWeight : Int) :
    Calculates (calculate state consistency domain metric capacity faultWeight)
      (calculation state consistency domain capacity faultWeight) := by
  intro tree movementMaps metricsMap changedChildren node context _ childDomain found
  rw [calculate, sumOperator_eq _ _ _ _ _ _ _ _ found]
  simp only [calculation, found, Option.getD_some]
  rfl

/-- `canaryMoves` without errors, for the movement maps and the moved shards. -/
def MetricConstraint.canaried (order : HashOrder) (state : SolvingState) (movementMaps : List MovementMap)
    (shardIds : List DomainId) (constraint : MetricConstraint) (info : BinWeightInfo) : MetricConstraint × BinWeightInfo :=
  let final := (ExpressionTree.mk constraint.expressionTree.assignmentTree
      constraint.expressionTree.metricsMap.clear).updated state order
    (calculation state constraint.consistency constraint.domain constraint.capacity constraint.faultWeight)
    movementMaps shardIds ⟨constraint.domainFaultMap.clear, info⟩
  ({ constraint with expressionTree := final.1, domainFaultMap := final.2.domainFaultMap }, final.2.binWeightInfo)

theorem MetricConstraint.canaryMoves_eq (order : HashOrder) {state : SolvingState} {own : MovementMap}
    (present : state.movementMap = some own) (committedMoves canariedMoves : MovementMap) (constraint : MetricConstraint)
    (info : BinWeightInfo) (hasBin : constraint.expressionTree.assignmentTree.HasBin) :
    constraint.canaryMoves order state (some committedMoves) (some canariedMoves) info =
      .ok (constraint.canaried order state [own, committedMoves, canariedMoves]
        (order.ids canariedMoves.getAllMovements.keys) info) := by
  rw [canaryMoves, ExpressionTree.canaryMoves_eq state (calculates _ _ _ _ _ _) _ hasBin present]
  rfl

def DrainConstraint.calculation (state : SolvingState) (consistency : MovementConsistency) (domain : Domain)
    (faultWeight : Int) : Calculation FaultRecord where
  value _ movementMaps node reading :=
    toInt32 (reading.own.getD 0 + (reading.changedChildren.map fun child =>
      signed (addedChild state movementMaps node consistency child) 1).sum)
  effect node val record := record.record state domain node (fault faultWeight val)

theorem DrainConstraint.calculates (state : SolvingState) (consistency : MovementConsistency) (domain : Domain)
    (faultWeight : Int) :
    Calculates (calculate state consistency domain faultWeight) (calculation state consistency domain faultWeight) := by
  intro tree movementMaps metricsMap changedChildren node context _ _ _
  rw [calculate, shardCountOperator_eq]
  rfl

def DrainConstraint.canaried (order : HashOrder) (state : SolvingState) (movementMaps : List MovementMap)
    (shardIds : List DomainId) (constraint : DrainConstraint) (info : BinWeightInfo) : DrainConstraint × BinWeightInfo :=
  let final := (ExpressionTree.mk constraint.expressionTree.assignmentTree
      constraint.expressionTree.metricsMap.clear).updated state order
    (calculation state constraint.consistency constraint.domain constraint.faultWeight)
    movementMaps shardIds ⟨constraint.domainFaultMap.clear, info⟩
  ({ constraint with expressionTree := final.1, domainFaultMap := final.2.domainFaultMap }, final.2.binWeightInfo)

theorem DrainConstraint.canaryMoves_eq (order : HashOrder) {state : SolvingState} {own : MovementMap}
    (present : state.movementMap = some own) (committedMoves canariedMoves : MovementMap) (constraint : DrainConstraint)
    (info : BinWeightInfo) (hasBin : constraint.expressionTree.assignmentTree.HasBin) :
    constraint.canaryMoves order state (some committedMoves) (some canariedMoves) info =
      .ok (constraint.canaried order state [own, committedMoves, canariedMoves]
        (order.ids canariedMoves.getAllMovements.keys) info) := by
  rw [canaryMoves, ExpressionTree.canaryMoves_eq state (calculates _ _ _ _) _ hasBin present]
  rfl

/-- What the two trees of `LoadBalancingConstraint` compute. -/
def LoadBalancingConstraint.calculation (state : SolvingState) (domain : Domain) (metric : Metric) (cmp : Int → Int → Bool) :
    Calculation (UnorderedSet DomainId) where
  value tree movementMaps node reading :=
    let children := tree.childNodes node movementMaps
    if node.1 = state.binDomain then
      toInt32 ((children.filter fun child => counted .after movementMaps child node.2).map
        (state.getShardMetric metric)).sum
    else
      match children.filterMap reading.view with
      | [] => 0
      | first :: rest => minElement cmp first rest
  effect node _ domainUpdatedSet := if node.1 = domain then domainUpdatedSet.insert node.2 () else domainUpdatedSet

theorem LoadBalancingConstraint.calculates (state : SolvingState) (domain : Domain) (metric : Metric)
    (cmp : Int → Int → Bool) :
    Calculates (calculate state domain metric cmp) (calculation state domain metric cmp) := by
  intro tree movementMaps metricsMap changedChildren node context mapped childDomain found
  simp only [calculate, tree.getChildren_eq node movementMaps found mapped.2, Checked.ok_bind, calculation]
  split
  · rw [binSum_eq]
    rfl
  · change (match childMetrics metricsMap childDomain (tree.childNodes node movementMaps) with
      | [] => _
      | first :: rest => _) = Except.ok (match childMetrics metricsMap childDomain (tree.childNodes node movementMaps) with
      | [] => _
      | first :: rest => _, _)
    cases childMetrics metricsMap childDomain (tree.childNodes node movementMaps) <;> rfl

def LoadBalancingConstraint.canaried (order : HashOrder) (state : SolvingState) (movementMaps : List MovementMap)
    (shardIds : List DomainId) (constraint : LoadBalancingConstraint) (info : BinWeightInfo) :
    LoadBalancingConstraint × BinWeightInfo :=
  let minFinal := (ExpressionTree.mk constraint.minExpressionTree.assignmentTree
      constraint.minExpressionTree.metricsMap.clear).updated state order
    (calculation state constraint.domain constraint.metric fun a b => decide (a < b)) movementMaps shardIds ∅
  let maxFinal := (ExpressionTree.mk constraint.maxExpressionTree.assignmentTree
      constraint.maxExpressionTree.metricsMap.clear).updated state order
    (calculation state constraint.domain constraint.metric fun a b => decide (a > b)) movementMaps shardIds minFinal.2
  let canaried : LoadBalancingConstraint :=
    { constraint with
      minExpressionTree := minFinal.1, maxExpressionTree := maxFinal.1, domainUpdatedSet := maxFinal.2
      domainFaultMap := constraint.domainFaultMap.clear }
  (canaried, canaried.updateWeights order info)

theorem LoadBalancingConstraint.canaryMoves_eq (order : HashOrder) {state : SolvingState} {own : MovementMap}
    (present : state.movementMap = some own) (committedMoves canariedMoves : MovementMap)
    (constraint : LoadBalancingConstraint) (info : BinWeightInfo)
    (minHasBin : constraint.minExpressionTree.assignmentTree.HasBin)
    (maxHasBin : constraint.maxExpressionTree.assignmentTree.HasBin) :
    constraint.canaryMoves order state (some committedMoves) (some canariedMoves) info =
      .ok (constraint.canaried order state [own, committedMoves, canariedMoves]
        (order.ids canariedMoves.getAllMovements.keys) info) := by
  rw [canaryMoves, minFunc, maxFunc, ExpressionTree.canaryMoves_eq state (calculates _ _ _ _) _ minHasBin present,
    Checked.ok_bind]
  simp only
  rw [ExpressionTree.canaryMoves_eq state (calculates _ _ _ _) _ maxHasBin present]
  rfl

/-- Every tree of the constraint contains a bin. -/
def Constraint.HasBin : Constraint → Prop
  | .metric constraint => constraint.expressionTree.assignmentTree.HasBin
  | .drain constraint => constraint.expressionTree.assignmentTree.HasBin
  | .loadBalancing constraint =>
    constraint.minExpressionTree.assignmentTree.HasBin ∧ constraint.maxExpressionTree.assignmentTree.HasBin

private theorem Constraint.hasBin_rollback (constraint : Constraint) :
    (LawfulConstraint.rollback constraint).HasBin ↔ constraint.HasBin := by cases constraint <;> rfl

variable {order : HashOrder} {state : SolvingState} {own : MovementMap}

variable (order) in
theorem Constraint.canaryMoves_defined (present : state.movementMap = some own) (committedMoves canariedMoves : MovementMap)
    (constraint : Constraint) (info : BinWeightInfo) (hasBin : constraint.HasBin) :
    ∃ after, ConstraintOps.canaryMoves order state (some committedMoves) (some canariedMoves) constraint info = .ok after := by
  change ∃ after, Constraint.canaryMoves _ _ _ _ _ _ = .ok after
  cases constraint with
  | metric constraint =>
    rw [Constraint.canaryMoves, MetricConstraint.canaryMoves_eq order present _ _ _ _ hasBin]
    exact ⟨_, rfl⟩
  | drain constraint =>
    rw [Constraint.canaryMoves, DrainConstraint.canaryMoves_eq order present _ _ _ _ hasBin]
    exact ⟨_, rfl⟩
  | loadBalancing constraint =>
    rw [Constraint.canaryMoves, LoadBalancingConstraint.canaryMoves_eq order present _ _ _ _ hasBin.1 hasBin.2]
    exact ⟨_, rfl⟩

namespace IterativeLocalSearch
variable {ι : Type} [DecidableEq ι] {constraints : List ι}

def HasBins (constraints : List ι) (world : World ι Constraint) : Prop :=
  ∀ constraint ∈ constraints, (world.objects constraint).HasBin

omit [DecidableEq ι] in
theorem SameCommitted.hasBins {first second : World ι Constraint} (same : SameCommitted constraints first second)
    (hasBins : HasBins constraints second) : HasBins constraints first := by
  intro constraint member
  rw [← Constraint.hasBin_rollback, same.listed constraint member, Constraint.hasBin_rollback]
  exact hasBins constraint member

variable (order) in
theorem updateWeights_defined (present : state.movementMap = some own) (committedMoves canariedMoves : MovementMap)
    (world : World ι Constraint) (hasBins : HasBins constraints world) :
    ∃ after, updateWeights order state constraints committedMoves canariedMoves world = .ok after := by
  suffices defined : ∃ after, updateWeights order state constraints committedMoves canariedMoves world = .ok after ∧
      HasBins constraints after by
    obtain ⟨after, done, _⟩ := defined
    exact ⟨after, done⟩
  refine Checked.foldlM_total (fun _ current => HasBins constraints current) ?_ hasBins
  intro handled constraint rest split current kept
  have listed : constraint ∈ constraints := by simp [split]
  obtain ⟨⟨object, info⟩, canaried⟩ := Constraint.canaryMoves_defined order present committedMoves canariedMoves
    (current.objects constraint) current.binWeightInfo (kept constraint listed)
  refine ⟨⟨Function.update current.objects constraint object, info⟩, ?_, ?_⟩
  · rw [canaried]
    rfl
  · intro other member
    by_cases here : other = constraint
    · subst here
      obtain ⟨same, _⟩ := LawfulConstraint.rollback_canaryMoves _ _ _ _ _ _ _ _ canaried
      have visited : object.HasBin := by
        rw [← Constraint.hasBin_rollback, same, Constraint.hasBin_rollback]
        exact kept other member
      simpa using visited
    · simpa [here] using kept other member

variable (order) in
theorem evaluate_defined (present : state.movementMap = some own) (committedMoves canariedMoves : MovementMap)
    (world : World ι Constraint) (hasBins : HasBins constraints world) :
    ∃ after, evaluate order state constraints committedMoves canariedMoves world = .ok after :=
  updateWeights_defined order present committedMoves canariedMoves ⟨world.objects, world.binWeightInfo.clear⟩ hasBins

/-- After any number of rejected candidates, evaluating a candidate gives the world
that it gives as the first one: same weights, same metrics, same faults. -/
theorem evaluate_after_rejected (order : HashOrder) (state : SolvingState) {own : MovementMap}
    (present : state.movementMap = some own) (constraints : List ι) (world : World ι Constraint)
    (hasBins : HasBins constraints world) (committedMoves : MovementMap) (rejected : List (HashOrder × MovementMap))
    (candidate : MovementMap) :
    ∃ later after,
      rejected.foldlM (fun world candidate =>
        evaluate candidate.1 state constraints committedMoves candidate.2 world) world = .ok later ∧
      evaluate order state constraints committedMoves candidate later = .ok after ∧
      evaluate order state constraints committedMoves candidate world = .ok after := by
  suffices defined : ∃ later, rejected.foldlM (fun world candidate =>
      evaluate candidate.1 state constraints committedMoves candidate.2 world) world = .ok later ∧
        HasBins constraints later by
    obtain ⟨later, done, _⟩ := defined
    obtain ⟨after, evaluated⟩ := evaluate_defined order present committedMoves candidate world hasBins
    refine ⟨later, after, done, ?_, evaluated⟩
    rw [(evaluations_keep rejected done).evaluate, evaluated]
  refine Checked.foldlM_total (fun _ current => HasBins constraints current) ?_ hasBins
  intro _ rejectedCandidate _ _ current kept
  obtain ⟨after, evaluated⟩ := evaluate_defined rejectedCandidate.1 present committedMoves rejectedCandidate.2
    current kept
  exact ⟨after, evaluated, (evaluate_keeps evaluated).hasBins kept⟩

theorem evaluate_after_rejected_twoBins :
    ∃ later after,
      [(HashOrder.insertion, MovementMap.addMovement {} 0 1), (.insertion, .addMovement {} 2 1)].foldlM
        (fun world candidate => evaluate candidate.1 .twoBins [()] {} candidate.2 world) drainedWorld = .ok later ∧
      evaluate .insertion .twoBins [()] {} (.addMovement {} 1 1) later = .ok after ∧
      evaluate .insertion .twoBins [()] {} (.addMovement {} 1 1) drainedWorld = .ok after := by
  have hasBin : (drainedBin.1.expressionTree.assignmentTree.parentToChildMap.lookup
    drainedBin.1.expressionTree.assignmentTree.binDomain).isSome = true := by decide +kernel
  exact evaluate_after_rejected .insertion .twoBins rfl [()] drainedWorld (fun _ _ => hasBin) {}
    [(.insertion, .addMovement {} 0 1), (.insertion, .addMovement {} 2 1)] (.addMovement {} 1 1)

end IterativeLocalSearch
end ShardManager
