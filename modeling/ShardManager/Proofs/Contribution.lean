import ShardManager.Proofs.Commits
import ShardManager.Proofs.Ledger

/-! What one constraint contributes to the shared weights. Nothing a constraint
computes depends on the weights it is given, so what it adds to them can be told
from any; the committed weights of a run are the sums of what was added. -/

namespace ShardManager
open Function

section Related
variable {σ : Type} {order : HashOrder} {calcMetricFunc : CalcMetricFunc σ} {state : SolvingState}

/-- The function computes the same from related contexts, and leaves related ones. -/
def Relates (calcMetricFunc : CalcMetricFunc σ) (related : σ → σ → Prop) : Prop :=
  ∀ tree movementMaps metricsMap changedChildren node context other val after, related context other →
    calcMetricFunc tree movementMaps metricsMap changedChildren node context = .ok (val, after) →
      ∃ next, calcMetricFunc tree movementMaps metricsMap changedChildren node other = .ok (val, next) ∧ related after next

def RelatedRounds (related : σ → σ → Prop) (round partner : Propagation σ) : Prop :=
  round.metricsMap = partner.metricsMap ∧ round.nextToUpdate = partner.nextToUpdate ∧ related round.context partner.context

variable {related : σ → σ → Prop} (relates : Relates calcMetricFunc related)
include relates

private theorem propagateChanges_related {tree : SparseMappingTree} {movementMaps : List MovementMapPtr} {rounds : Nat}
    {toUpdate : UpdateMap} {metricsMap final : MetricsMap} {context other after : σ} (begins : related context other)
    (finished : propagateChanges order calcMetricFunc tree movementMaps rounds toUpdate (metricsMap, context) =
      .ok (final, after)) :
    ∃ next, propagateChanges order calcMetricFunc tree movementMaps rounds toUpdate (metricsMap, other) = .ok (final, next) ∧
      related after next := by
  induction rounds generalizing toUpdate metricsMap context other with
  | zero =>
    cases finished
    exact ⟨other, rfl, begins⟩
  | succ rounds ih =>
    rw [propagateChanges] at finished
    obtain ⟨round, looped, rest⟩ := Checked.bind_ok finished
    have turn : ∃ partner, (order.nodes toUpdate.keys).foldlM (updateNode calcMetricFunc tree movementMaps toUpdate)
        ⟨metricsMap, ∅, other⟩ = .ok partner ∧ RelatedRounds related round partner := by
      have start : RelatedRounds related ⟨metricsMap, ∅, context⟩ ⟨metricsMap, ∅, other⟩ := ⟨rfl, rfl, begins⟩
      refine Checked.foldlM_related (RelatedRounds related) ?_ start looped
      rintro current node _ last ⟨metrics, next, partner⟩ ⟨sameMetrics, sameNext, held⟩ updated
      simp only at sameMetrics sameNext held
      obtain ⟨⟨val, written⟩, computed, stored⟩ := Checked.bind_ok updated
      obtain ⟨otherWritten, again, kept⟩ := relates _ _ _ _ _ _ _ _ _ held computed
      rw [sameMetrics] at again
      simp only at stored
      rw [updateNode, again, Checked.ok_bind]
      simp only
      rw [← sameMetrics]
      split at stored
      next same =>
        cases stored
        rw [if_pos same]
        exact ⟨_, rfl, rfl, sameNext, kept⟩
      next different =>
        obtain ⟨parents, found, stored⟩ := Checked.bind_ok stored
        cases stored
        rw [if_neg different, found, Checked.ok_bind]
        exact ⟨_, rfl, rfl, by rw [sameNext], kept⟩
    obtain ⟨partner, partnerLooped, sameMetrics, sameNext, held⟩ := turn
    rw [propagateChanges, partnerLooped, Checked.ok_bind, ← sameMetrics, ← sameNext]
    split at rest
    next last =>
      cases rest
      rw [if_pos last]
      exact ⟨_, rfl, held⟩
    next more =>
      rw [if_neg more]
      exact ih held rest

private theorem ExpressionTree.canaryMoves_related {tree final : ExpressionTree} {committedMoves canaryMoves : MovementMapPtr}
    {context other after : σ} (begins : related context other)
    (canaried : tree.canaryMoves order state calcMetricFunc committedMoves canaryMoves context = .ok (final, after)) :
    ∃ next, tree.canaryMoves order state calcMetricFunc committedMoves canaryMoves other = .ok (final, next) ∧
      related after next := by
  obtain ⟨moves, found, updated⟩ := Checked.bind_ok canaried
  obtain ⟨toUpdate, entered, updated⟩ := Checked.bind_ok updated
  obtain ⟨⟨metricsMap, last⟩, propagated, finished⟩ := Checked.bind_ok updated
  cases finished
  obtain ⟨next, again, held⟩ := propagateChanges_related relates begins propagated
  refine ⟨next, ?_, held⟩
  rw [ExpressionTree.canaryMoves, found, Checked.ok_bind, ExpressionTree.update, entered, Checked.ok_bind, again]
  rfl

end Related

/-- The weights differ by fixed amounts. -/
structure BinWeightInfo.Offset (total : Int) (bins : DomainId → Int) (info other : BinWeightInfo) : Prop where
  total : info.total = other.total + total
  bins : ∀ binId, info.binWeight binId = other.binWeight binId + bins binId

variable {total : Int} {bins : DomainId → Int} {state : SolvingState}

theorem BinWeightInfo.Offset.addTotalWeight {info other : BinWeightInfo} (offset : Offset total bins info other) (delta : Int) :
    Offset total bins (info.addTotalWeight delta) (other.addTotalWeight delta) where
  total := by
    rw [total_addTotalWeight, total_addTotalWeight, offset.total]
    omega
  bins := offset.bins

theorem BinWeightInfo.Offset.addBinWeight {info other : BinWeightInfo} (offset : Offset total bins info other)
    (domainId : DomainId) (delta : Int) :
    Offset total bins (info.addBinWeight domainId delta) (other.addBinWeight domainId delta) where
  total := by
    rw [total_addBinWeight, total_addBinWeight, offset.total]
    omega
  bins binId := by
    rw [binWeight_addBinWeight, binWeight_addBinWeight, offset.bins]
    omega

private theorem FaultRecord.record_offset (domain : Domain) (node : Node) (currentWeight : Int) {first second : FaultRecord}
    (same : first.domainFaultMap = second.domainFaultMap)
    (offset : first.binWeightInfo.Offset total bins second.binWeightInfo) :
    (first.record state domain node currentWeight).domainFaultMap = (second.record state domain node currentWeight).domainFaultMap ∧
    (first.record state domain node currentWeight).binWeightInfo.Offset total bins
      (second.record state domain node currentWeight).binWeightInfo := by
  unfold FaultRecord.record
  rw [same]
  split
  · simp only
    split
    · exact ⟨rfl, offset⟩
    · split
      · exact ⟨rfl, offset.addBinWeight _ _⟩
      · exact ⟨rfl, offset.addTotalWeight _⟩
  · exact ⟨same, offset⟩

def FaultRecord.Related (total : Int) (bins : DomainId → Int) (first second : FaultRecord) : Prop :=
  first.domainFaultMap = second.domainFaultMap ∧ first.binWeightInfo.Offset total bins second.binWeightInfo

theorem MetricConstraint.relates (consistency : MovementConsistency) (domain : Domain) (metric : Metric)
    (capacity faultWeight : Int) :
    Relates (calculate state consistency domain metric capacity faultWeight) (FaultRecord.Related total bins) := by
  rintro tree movementMaps metricsMap changedChildren node context other val after ⟨same, offset⟩ computed
  obtain ⟨sum, summed, finished⟩ := Checked.bind_ok computed
  cases finished
  refine ⟨_, ?_, FaultRecord.record_offset domain node (fault capacity faultWeight val) same offset⟩
  rw [calculate, summed]
  rfl

theorem DrainConstraint.relates (consistency : MovementConsistency) (domain : Domain) (faultWeight : Int) :
    Relates (calculate state consistency domain faultWeight) (FaultRecord.Related total bins) := by
  rintro tree movementMaps metricsMap changedChildren node context other val after ⟨same, offset⟩ computed
  obtain ⟨count, counted, finished⟩ := Checked.bind_ok computed
  cases finished
  refine ⟨_, ?_, FaultRecord.record_offset domain node (fault faultWeight val) same offset⟩
  rw [calculate, counted]
  rfl

private theorem LoadBalancingConstraint.updateWeights_offset (order : HashOrder) (constraint : LoadBalancingConstraint)
    {info other : BinWeightInfo} (offset : info.Offset total bins other) :
    (constraint.updateWeights order info).Offset total bins (constraint.updateWeights order other) := by
  unfold updateWeights
  simp only
  induction order.ids constraint.domainUpdatedSet.keys generalizing info other with
  | nil => exact offset
  | cons domainId domainIds ih => exact ih (offset.addBinWeight _ _)

private theorem Constraint.canaryMoves_offset {order : HashOrder} {committedMoves canariedMoves : MovementMapPtr}
    {constraint after : Constraint} {info other final : BinWeightInfo} (offset : info.Offset total bins other)
    (canaried : Constraint.canaryMoves order state committedMoves canariedMoves constraint info = .ok (after, final)) :
    ∃ last, Constraint.canaryMoves order state committedMoves canariedMoves constraint other = .ok (after, last) ∧
      final.Offset total bins last := by
  cases constraint with
  | metric constraint =>
    obtain ⟨⟨result, weights⟩, called, finished⟩ := Checked.bind_ok canaried
    cases finished
    obtain ⟨⟨expressionTree, record⟩, evaluated, finished⟩ := Checked.bind_ok called
    cases finished
    have start : FaultRecord.Related total bins ⟨constraint.domainFaultMap.clear, info⟩
      ⟨constraint.domainFaultMap.clear, other⟩ := ⟨rfl, offset⟩
    obtain ⟨next, again, same, later⟩ :=
      ExpressionTree.canaryMoves_related (MetricConstraint.relates _ _ _ _ _) start evaluated
    refine ⟨next.binWeightInfo, ?_, later⟩
    rw [Constraint.canaryMoves, MetricConstraint.canaryMoves, again, same]
    rfl
  | drain constraint =>
    obtain ⟨⟨result, weights⟩, called, finished⟩ := Checked.bind_ok canaried
    cases finished
    obtain ⟨⟨expressionTree, record⟩, evaluated, finished⟩ := Checked.bind_ok called
    cases finished
    have start : FaultRecord.Related total bins ⟨constraint.domainFaultMap.clear, info⟩
      ⟨constraint.domainFaultMap.clear, other⟩ := ⟨rfl, offset⟩
    obtain ⟨next, again, same, later⟩ :=
      ExpressionTree.canaryMoves_related (DrainConstraint.relates _ _ _) start evaluated
    refine ⟨next.binWeightInfo, ?_, later⟩
    rw [Constraint.canaryMoves, DrainConstraint.canaryMoves, again, same]
    rfl
  | loadBalancing constraint =>
    obtain ⟨⟨result, weights⟩, called, finished⟩ := Checked.bind_ok canaried
    cases finished
    obtain ⟨⟨minTree, updated⟩, evaluatedMin, finished⟩ := Checked.bind_ok called
    obtain ⟨⟨maxTree, updated⟩, evaluatedMax, finished⟩ := Checked.bind_ok finished
    cases finished
    refine ⟨_, ?_, LoadBalancingConstraint.updateWeights_offset order _ offset⟩
    rw [Constraint.canaryMoves, LoadBalancingConstraint.canaryMoves, evaluatedMin, Checked.ok_bind]
    simp only
    rw [evaluatedMax]
    rfl

namespace Constraint

/-- What canarying moves on a constraint adds to the weights, told from weights of 0. -/
def added (order : HashOrder) (state : SolvingState) (committedMoves canariedMoves : MovementMap) (constraint : Constraint) :
    BinWeightInfo :=
  match constraint.canaryMoves order state (some committedMoves) (some canariedMoves) .empty with
  | .ok (_, info) => info
  | .error _ => .empty

private theorem added_rollback {order : HashOrder} {committedMoves canariedMoves : MovementMap} {first second : Constraint}
    (same : LawfulConstraint.rollback first = LawfulConstraint.rollback second) :
    first.added order state committedMoves canariedMoves = second.added order state committedMoves canariedMoves := by
  have canaried : first.canaryMoves order state (some committedMoves) (some canariedMoves) .empty =
      second.canaryMoves order state (some committedMoves) (some canariedMoves) .empty := by
    refine (LawfulConstraint.canaryMoves_rollback order state _ _ first _).symm.trans ?_
    rw [same]
    exact LawfulConstraint.canaryMoves_rollback order state _ _ second _
  rw [added, added, canaried]

private theorem canaryMoves_added {order : HashOrder} {committedMoves canariedMoves : MovementMap} {constraint after : Constraint}
    {info final : BinWeightInfo}
    (canaried : ConstraintOps.canaryMoves order state (some committedMoves) (some canariedMoves) constraint info =
      .ok (after, final)) :
    final.Offset info.total info.binWeight (constraint.added order state committedMoves canariedMoves) := by
  have start : info.Offset info.total info.binWeight .empty :=
    ⟨(zero_add _).symm, fun binId => by simp [BinWeightInfo.binWeight, BinWeightInfo.empty]⟩
  obtain ⟨last, again, offset⟩ := canaryMoves_offset start canaried
  rw [added, again]
  exact offset

theorem added_share (account : Account state) {order : HashOrder} {committedMoves canariedMoves : MovementMap}
    {constraint after : Constraint} {info final : BinWeightInfo} (keepsFaults : constraint.KeepsFaults)
    (canaried : ConstraintOps.canaryMoves order state (some committedMoves) (some canariedMoves) constraint info =
      .ok (after, final)) :
    account.weight (constraint.added order state committedMoves canariedMoves) =
      account.shareOf after - account.shareOf (LawfulConstraint.rollback constraint) := by
  have start : info.Offset info.total info.binWeight .empty :=
    ⟨(zero_add _).symm, fun binId => by simp [BinWeightInfo.binWeight, BinWeightInfo.empty]⟩
  obtain ⟨last, again, _⟩ := canaryMoves_offset start canaried
  have balance : account.weight last - account.shareOf after =
    account.weight .empty - account.shareOf (LawfulConstraint.rollback constraint) :=
      Account.canaryMoves_share keepsFaults again
  rw [account.weight_empty] at balance
  rw [added, again]
  simp only
  omega

end Constraint

namespace IterativeLocalSearch
variable {ι : Type} [DecidableEq ι] {order : HashOrder} {constraints : List ι} {committedMoves canariedMoves : MovementMap}

theorem updateWeights_added {world after : World ι Constraint}
    (updated : updateWeights order state constraints committedMoves canariedMoves world = .ok after) :
    after.binWeightInfo.total = world.binWeightInfo.total + (constraints.map fun constraint =>
      ((world.objects constraint).added order state committedMoves canariedMoves).total).sum ∧
    ∀ binId, after.binWeightInfo.binWeight binId = world.binWeightInfo.binWeight binId + (constraints.map fun constraint =>
      ((world.objects constraint).added order state committedMoves canariedMoves).binWeight binId).sum := by
  induction constraints generalizing world with
  | nil =>
    cases updated
    simp
  | cons constraint constraints ih =>
    rw [updateWeights, List.foldlM_cons] at updated
    obtain ⟨middle, turn, rest⟩ := Checked.bind_ok updated
    obtain ⟨⟨object, info⟩, canaried, turn⟩ := Checked.bind_ok turn
    cases turn
    have offset := Constraint.canaryMoves_added canaried
    have kept : ∀ other, (update world.objects constraint object other).added order state committedMoves canariedMoves =
        (world.objects other).added order state committedMoves canariedMoves := by
      intro other
      by_cases here : other = constraint
      · subst here
        rw [update_self]
        exact Constraint.added_rollback (LawfulConstraint.rollback_canaryMoves _ _ _ _ _ _ _ _ canaried).1
      · rw [update_of_ne here]
    obtain ⟨total, bins⟩ := ih rest
    simp only [kept] at total bins
    rw [offset.total] at total
    refine ⟨?_, fun binId => ?_⟩
    · rw [total, List.map_cons, List.sum_cons]
      omega
    · have bin := bins binId
      rw [offset.bins] at bin
      rw [bin, List.map_cons, List.sum_cons]
      omega

theorem evaluate_added {world after : World ι Constraint}
    (evaluated : evaluate order state constraints committedMoves canariedMoves world = .ok after) :
    after.binWeightInfo.total = world.binWeightInfo.committedTotal + (constraints.map fun constraint =>
      ((world.objects constraint).added order state committedMoves canariedMoves).total).sum ∧
    ∀ binId, after.binWeightInfo.binWeight binId = world.binWeightInfo.committedBinWeight binId +
      (constraints.map fun constraint =>
        ((world.objects constraint).added order state committedMoves canariedMoves).binWeight binId).sum := by
  unfold evaluate at evaluated
  obtain ⟨total, bins⟩ := updateWeights_added evaluated
  refine ⟨total, fun binId => (bins binId).trans ?_⟩
  rw [BinWeightInfo.binWeight_clear]

/-- A commit commits what was added. -/
theorem CommitStep.added {before after : Search ι Constraint} {movement : MovementMap}
    (step : CommitStep order state constraints before movement after) :
    after.world.binWeightInfo.committedTotal = before.world.binWeightInfo.committedTotal + (constraints.map fun constraint =>
      ((before.world.objects constraint).added order state before.committedMoves movement).total).sum ∧
    ∀ binId, after.world.binWeightInfo.committedBinWeight binId = before.world.binWeightInfo.committedBinWeight binId +
      (constraints.map fun constraint =>
        ((before.world.objects constraint).added order state before.committedMoves movement).binWeight binId).sum := by
  obtain ⟨world, evaluated, committed⟩ := step.world
  obtain ⟨total, bins⟩ := evaluate_added evaluated
  rw [committed]
  cases constraints with
  | nil =>
    have weights := (evaluate_keeps evaluated).weights
    simp only [List.map_nil, List.sum_nil, add_zero] at total bins ⊢
    refine ⟨?_, fun binId => ?_⟩
    · rw [← BinWeightInfo.total_clear, ← BinWeightInfo.total_clear]
      exact congrArg BinWeightInfo.total weights
    · rw [← BinWeightInfo.binWeight_clear, ← BinWeightInfo.binWeight_clear]
      exact congrArg (BinWeightInfo.binWeight · binId) weights
  | cons first constraints =>
    obtain ⟨committedTotal, committedBins⟩ := commitAll_weights world (List.cons_ne_nil first constraints)
    exact ⟨committedTotal.trans total, fun binId => (committedBins binId).trans (bins binId)⟩

/-- What the commits of a run have added to a weight through one constraint. -/
def contributed (order : HashOrder) (state : SolvingState) (weight : BinWeightInfo → Int) (target : ι)
    (commits : List (Search ι Constraint × MovementMap × Search ι Constraint)) : Int :=
  (commits.map fun commit =>
    weight ((commit.1.world.objects target).added order state commit.1.committedMoves commit.2.1)).sum

def lastSearch (search : Search ι Constraint) (commits : List (Search ι Constraint × MovementMap × Search ι Constraint)) :
    Search ι Constraint :=
  commits.foldl (fun _ commit => commit.2.2) search

/-- The committed weights of a run are those it started with and what the
constraints contributed. -/
theorem follows_contributed {search : Search ι Constraint}
    {commits : List (Search ι Constraint × MovementMap × Search ι Constraint)}
    (follows : Follows (CommitStep order state constraints) search commits) :
    (lastSearch search commits).world.binWeightInfo.committedTotal = search.world.binWeightInfo.committedTotal +
      (constraints.map fun constraint => contributed order state BinWeightInfo.total constraint commits).sum ∧
    ∀ binId, (lastSearch search commits).world.binWeightInfo.committedBinWeight binId =
      search.world.binWeightInfo.committedBinWeight binId +
        (constraints.map fun constraint => contributed order state (·.binWeight binId) constraint commits).sum := by
  induction commits generalizing search with
  | nil => simp [lastSearch, contributed]
  | cons commit commits ih =>
    obtain ⟨before, movement, after⟩ := commit
    obtain ⟨rfl, step, later⟩ := follows
    obtain ⟨total, bins⟩ := step.added
    obtain ⟨laterTotal, laterBins⟩ := ih later
    refine ⟨?_, fun binId => ?_⟩
    · refine laterTotal.trans ?_
      simp only [contributed, List.map_cons, List.sum_cons, List.sum_map_add] at total ⊢
      omega
    · have here := bins binId
      refine (laterBins binId).trans ?_
      simp only [contributed, List.map_cons, List.sum_cons, List.sum_map_add] at here ⊢
      omega

section Chain
variable {step : Search ι Constraint → MovementMap → Search ι Constraint → Prop} {search : Search ι Constraint}
  {earlier later : List (Search ι Constraint × MovementMap × Search ι Constraint)}

omit [DecidableEq ι] in
theorem Follows.before (follows : Follows step search (earlier ++ later)) : Follows step search earlier := by
  induction earlier generalizing search with
  | nil => trivial
  | cons commit earlier ih => exact ⟨follows.1, follows.2.1, ih follows.2.2⟩

omit [DecidableEq ι] in
theorem Follows.last (invariant : Search ι Constraint → Prop)
    (preserved : ∀ before movement after, step before movement after → invariant before → invariant after)
    (follows : Follows step search earlier) (begins : invariant search) : invariant (lastSearch search earlier) := by
  induction earlier generalizing search with
  | nil => exact begins
  | cons commit earlier ih =>
    obtain ⟨before, movement, after⟩ := commit
    obtain ⟨rfl, taken, rest⟩ := follows
    exact ih rest (preserved _ _ _ taken begins)

end Chain

/-- A commit adds the change of the committed share. -/
theorem CommitStep.share (account : Account state) {target : ι} (listed : target ∈ constraints)
    {before after : Search ι Constraint} {movement : MovementMap} (step : CommitStep order state constraints before movement after)
    (keepsFaults : (before.world.objects target).KeepsFaults) :
    (after.world.objects target).KeepsFaults ∧
    account.weight ((before.world.objects target).added order state before.committedMoves movement) =
      account.shareOf (LawfulConstraint.rollback (after.world.objects target)) -
        account.shareOf (LawfulConstraint.rollback (before.world.objects target)) := by
  obtain ⟨object, info, final, count, canaried, committed⟩ := step.target listed
  have kept := (LawfulConstraint.rollback_canaryMoves _ _ _ _ _ _ _ _ canaried).1
  have still : object.KeepsFaults := by
    rw [← Constraint.keepsFaults_rollback, kept, Constraint.keepsFaults_rollback]
    exact keepsFaults
  have share := Constraint.added_share account keepsFaults canaried
  have shares : ∀ constraint : Constraint, account.shareOf (ConstraintOps.commitMoves constraint) = account.shareOf constraint ∧
      account.shareOf (LawfulConstraint.rollback (ConstraintOps.commitMoves constraint)) = account.shareOf constraint :=
    Account.commitMoves_share
  have repeated : ∀ count, (ConstraintOps.commitMoves^[count] (ConstraintOps.commitMoves object)).KeepsFaults ∧
      account.shareOf (LawfulConstraint.rollback (ConstraintOps.commitMoves^[count] (ConstraintOps.commitMoves object))) =
        account.shareOf object ∧
      account.shareOf (ConstraintOps.commitMoves^[count] (ConstraintOps.commitMoves object)) = account.shareOf object := by
    intro count
    induction count with
    | zero =>
      obtain ⟨same, sameCommitted⟩ := shares object
      exact ⟨by cases object <;> exact still, sameCommitted, same⟩
    | succ count ih =>
      obtain ⟨keeps, _, held⟩ := ih
      obtain ⟨same, sameCommitted⟩ := shares (ConstraintOps.commitMoves^[count] (ConstraintOps.commitMoves object))
      rw [Function.iterate_succ_apply']
      exact ⟨by cases found : ConstraintOps.commitMoves^[count] (ConstraintOps.commitMoves object) <;>
        rw [found] at keeps <;> exact keeps, sameCommitted.trans held, same.trans held⟩
  obtain ⟨keeps, held, _⟩ := repeated count
  rw [committed, share, held]
  exact ⟨keeps, rfl⟩

/-- What a constraint contributed is the change of its committed share. -/
theorem contributed_share (account : Account state) {target : ι} (listed : target ∈ constraints) {search : Search ι Constraint}
    {commits : List (Search ι Constraint × MovementMap × Search ι Constraint)}
    (follows : Follows (CommitStep order state constraints) search commits)
    (keepsFaults : (search.world.objects target).KeepsFaults) :
    contributed order state account.weight target commits =
      account.shareOf (LawfulConstraint.rollback ((lastSearch search commits).world.objects target)) -
        account.shareOf (LawfulConstraint.rollback (search.world.objects target)) := by
  induction commits generalizing search with
  | nil => simp [contributed, lastSearch]
  | cons commit commits ih =>
    obtain ⟨before, movement, after⟩ := commit
    obtain ⟨rfl, step, later⟩ := follows
    obtain ⟨still, share⟩ := step.share account listed keepsFaults
    have rest := ih later still
    change contributed order state account.weight target commits =
      account.shareOf (LawfulConstraint.rollback ((lastSearch after commits).world.objects target)) - _ at rest
    change account.weight _ + contributed order state account.weight target commits =
      account.shareOf (LawfulConstraint.rollback ((lastSearch after commits).world.objects target)) - _
    rw [share, rest]
    omega

end IterativeLocalSearch
end ShardManager
