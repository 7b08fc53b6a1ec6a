import ShardManager.Proofs.Agreement
import ShardManager.Proofs.LevelTree
import ShardManager.Proofs.MissingKeys

/-! Evaluation in any order. The nodes of one round are not read by that round, and
the weights are sums, so neither the traversals of hash containers nor the order of
the constraints shows in the metrics, the faults and the weights. -/

namespace ShardManager
open SparseMappingTree

/-- Two calls change the weights by the same amounts. -/
def SameChange (info final otherInfo otherFinal : BinWeightInfo) : Prop :=
  ∃ total bins, final.Offset total bins info ∧ otherFinal.Offset total bins otherInfo

theorem sameChange {info final otherInfo otherFinal : BinWeightInfo}
    (total : final.total - info.total = otherFinal.total - otherInfo.total)
    (bins : ∀ binId, final.binWeight binId - info.binWeight binId = otherFinal.binWeight binId - otherInfo.binWeight binId) :
    SameChange info final otherInfo otherFinal := by
  refine ⟨final.total - info.total, fun binId => final.binWeight binId - info.binWeight binId, ?_, ?_⟩
  · exact ⟨(add_sub_cancel _ _).symm, fun binId => (add_sub_cancel _ _).symm⟩
  · refine ⟨?_, fun binId => ?_⟩
    · rw [total, add_sub_cancel]
    · rw [bins, add_sub_cancel]

theorem SameChange.commit {info final otherInfo otherFinal : BinWeightInfo} (change : SameChange info final otherInfo otherFinal) :
    SameChange info final.commit otherInfo otherFinal.commit := by
  obtain ⟨total, bins, own, others⟩ := change
  exact ⟨total, bins, ⟨(BinWeightInfo.total_commit _).trans own.total, fun binId =>
      (BinWeightInfo.binWeight_commit _ binId).trans (own.bins binId)⟩,
    ⟨(BinWeightInfo.total_commit _).trans others.total, fun binId =>
      (BinWeightInfo.binWeight_commit _ binId).trans (others.bins binId)⟩⟩

namespace LoadBalancingConstraint
variable {state : SolvingState} {level : Nat → Domain} {tree : SparseMappingTree} {movementMaps others : List MovementMap}

theorem readsInside (bins : tree.binDomain = state.binDomain) (same : List.Forall₂ SameMoves movementMaps others)
    (domain : Domain) (metric : Metric) (cmp : Int → Int → Bool) :
    (calculation state domain metric cmp).ReadsInside (fun _ => True) level tree tree movementMaps others := by
  intro index domainId first second _ _ alike
  simp only [calculation, childNodes, bins]
  split
  · simp only [counted_same same]
    exact congrArg toInt32 ((((incoming_same same domainId).append_right _).filter _).map _).sum_eq
  · rw [funext fun child => alike.view child trivial]

/-- What decides what a constraint shows after an evaluation. -/
structure CommitsSame (first second : LoadBalancingConstraint) : Prop where
  minimum : ∀ node, first.minExpressionTree.metricsMap.getFromCommittedMap node =
    second.minExpressionTree.metricsMap.getFromCommittedMap node
  maximum : ∀ node, first.maxExpressionTree.metricsMap.getFromCommittedMap node =
    second.maxExpressionTree.metricsMap.getFromCommittedMap node
  faults : ∀ domainId, first.domainFaultMap.getFromCommittedMap domainId = second.domainFaultMap.getFromCommittedMap domainId

section Canaried
variable {domain : Domain} {metric : Metric} {maxDelta : Int} {faultWeightMultiplier : Int → Int}
  {minMetrics maxMetrics otherMin otherMax : MetricsMap} {updatedSet otherSet : UnorderedSet DomainId} {faults otherFaults : FaultMap}

private theorem canaried_same (layered : Layered tree level) (onLevel : ∃ index, level index = domain)
    (shards : tree.shardDomain = state.shardDomain) (bins : tree.binDomain = state.binDomain)
    (commitsSame : CommitsSame
      ⟨domain, SolvingState.kDomainLimit, metric, maxDelta, faultWeightMultiplier, ⟨tree, minMetrics⟩, ⟨tree, maxMetrics⟩,
        updatedSet, faults⟩
      ⟨domain, SolvingState.kDomainLimit, metric, maxDelta, faultWeightMultiplier, ⟨tree, otherMin⟩, ⟨tree, otherMax⟩,
        otherSet, otherFaults⟩)
    (order otherOrder : HashOrder) (same : List.Forall₂ SameMoves movementMaps others) {shardIds otherIds : List DomainId}
    (perm : shardIds.Perm otherIds) (info otherInfo : BinWeightInfo) :
    let after := canaried order state movementMaps shardIds ⟨domain, SolvingState.kDomainLimit, metric, maxDelta,
      faultWeightMultiplier, ⟨tree, minMetrics⟩, ⟨tree, maxMetrics⟩, updatedSet, faults⟩ info
    let otherAfter := canaried otherOrder state others otherIds ⟨domain, SolvingState.kDomainLimit, metric, maxDelta,
      faultWeightMultiplier, ⟨tree, otherMin⟩, ⟨tree, otherMax⟩, otherSet, otherFaults⟩ otherInfo
    after.1.minExpressionTree.metricsMap.get = otherAfter.1.minExpressionTree.metricsMap.get ∧
    after.1.maxExpressionTree.metricsMap.get = otherAfter.1.maxExpressionTree.metricsMap.get ∧
    after.1.domainFaultMap.get = otherAfter.1.domainFaultMap.get ∧
    SameChange info after.2 otherInfo otherAfter.2 := by
  intro after otherAfter
  have entered : ∀ binId, True → ((ExpressionTree.entered state tree movementMaps shardIds).changedChildren (level 0, binId)).Perm
      ((ExpressionTree.entered state tree others otherIds).changedChildren (level 0, binId)) := fun _ within =>
    ExpressionTree.entered_perm state (.refl level tree) layered.bins shards same perm within
  have update : ∀ (cmp : Int → Int → Bool) (metrics otherMetrics : MetricsMap) (evaluated otherEvaluated : UnorderedSet DomainId),
      (∀ node, metrics.getFromCommittedMap node = otherMetrics.getFromCommittedMap node) →
      (∀ domainId, evaluated.lookup domainId = otherEvaluated.lookup domainId) →
      let final := (ExpressionTree.mk tree metrics.clear).updated state order (calculation state domain metric cmp) movementMaps
        shardIds evaluated
      let otherFinal := (ExpressionTree.mk tree otherMetrics.clear).updated state otherOrder (calculation state domain metric cmp)
        others otherIds otherEvaluated
      final.1.metricsMap.get = otherFinal.1.metricsMap.get ∧
        ∀ domainId, final.2.lookup domainId = otherFinal.2.lookup domainId := by
    intro cmp metrics otherMetrics evaluated otherEvaluated committed begins
    have shown : ShowsSame (fun _ => True) metrics.clear otherMetrics.clear := by
      refine ⟨fun node _ => ?_, fun node _ => committed node⟩
      rw [CommittableMap.get_clear, CommittableMap.get_clear]
      exact committed node
    obtain ⟨metrics, slots⟩ := ExpressionTree.updated_agree state order otherOrder layered layered (.refl level tree) shards
      (readsInside bins same domain metric cmp) entered shown evaluated otherEvaluated
    exact ⟨funext fun node => metrics.get node trivial, fun domainId =>
      slots (Option Unit) domain (evaluatedSlot state domain metric cmp) domainId onLevel trivial (begins domainId)⟩
  obtain ⟨minimum, minimumSet⟩ := update (fun a b => decide (a < b)) minMetrics otherMin ∅ ∅ commitsSame.minimum fun _ => rfl
  obtain ⟨maximum, updated⟩ := update (fun a b => decide (a > b)) maxMetrics otherMax _ _ commitsSame.maximum minimumSet
  have faults : after.1.domainFaultMap.get = otherAfter.1.domainFaultMap.get := by
    funext domainId
    refine (CommittableMap.get_clear _ domainId).trans (.trans ?_ (CommittableMap.get_clear _ domainId).symm)
    exact commitsSame.faults domainId
  refine ⟨minimum, maximum, faults, ?_⟩
  obtain ⟨total, binWeights⟩ := updateWeights_changes order after.1 info
  obtain ⟨otherTotal, otherWeights⟩ := updateWeights_changes otherOrder otherAfter.1 otherInfo
  have listed : after.1.domainUpdatedSet.keys.Perm otherAfter.1.domainUpdatedSet.keys := UnorderedMap.keys_perm updated
  have weight : ∀ minMetric domainId, after.1.nodeWeight minMetric domainId = otherAfter.1.nodeWeight minMetric domainId := by
    intro minMetric domainId
    have own : after.1.maxExpressionTree.metricsMap.get (after.1.domain, domainId) =
      otherAfter.1.maxExpressionTree.metricsMap.get (otherAfter.1.domain, domainId) := congrFun maximum _
    rw [nodeWeight, own]
    rfl
  have lowest : after.1.minExpressionTree.metricsMap.get (after.1.loadBalancingDomain, 0) =
    otherAfter.1.minExpressionTree.metricsMap.get (otherAfter.1.loadBalancingDomain, 0) := congrFun minimum _
  simp only [weight, lowest, faults, List.toFinset_eq_of_perm _ _ listed, listed.mem_iff] at total binWeights
  exact ⟨_, _, ⟨total, binWeights⟩, ⟨otherTotal, otherWeights⟩⟩

end Canaried
end LoadBalancingConstraint

namespace Counter
variable {state : SolvingState} {inside : Node → Prop}

/-- The part of the state's tree that a counter is over, and how it records faults. -/
structure Over (state : SolvingState) (domainIds : List DomainId) (counter : Counter) : Prop where
  part : Part state.assignmentTree counter.part counter.domain domainIds
  records : RecordsValue counter.calculation state counter.domain counter.fault
  hasBin : counter.part.HasBin
  above : counter.domain ≠ 0

theorem Over.agree {domainIds otherIds : List DomainId} {first second : Counter} (shards : state.shardDomain = 0)
    (isOver : Over state domainIds first) (otherOver : Over state otherIds second) (calculation : first.calculation = second.calculation)
    (domain : first.domain = second.domain) (agree : AgreeOn inside binsUp first.part second.part)
    (reads : ∀ movementMaps others, List.Forall₂ SameMoves movementMaps others →
      first.calculation.ReadsInside inside binsUp first.part second.part movementMaps others) : Agree state inside binsUp first second := by
  obtain ⟨index, above⟩ := Nat.exists_eq_succ_of_ne_zero isOver.above
  exact ⟨calculation, domain, isOver.part.hierarchy.layered, otherOver.part.hierarchy.layered, agree,
    isOver.part.hierarchy.shards.trans shards.symm, ⟨_, isOver.records⟩, ⟨index, above.symm⟩, reads⟩

end Counter

namespace Constraint

/-- The constraint without any values. -/
def bare : Constraint → Constraint
  | .metric constraint => .metric
    { constraint with
      expressionTree := ⟨constraint.expressionTree.assignmentTree, .empty⟩, domainFaultMap := .empty }
  | .drain constraint => .drain
    { constraint with
      expressionTree := ⟨constraint.expressionTree.assignmentTree, .empty⟩, domainFaultMap := .empty }
  | .loadBalancing constraint => .loadBalancing
    { constraint with
      minExpressionTree := ⟨constraint.minExpressionTree.assignmentTree, .empty⟩
      maxExpressionTree := ⟨constraint.maxExpressionTree.assignmentTree, .empty⟩
      domainUpdatedSet := ∅, domainFaultMap := .empty }

/-- The constraint of the arguments, before anything is evaluated. -/
def Arguments.bare (state : SolvingState) : Arguments → Constraint
  | .metric consistency domain domainIds metricId capacity faultWeight => .metric
    { consistency, domain, metric := metricId, capacity, faultWeight
      expressionTree := ⟨state.assignmentTree.createPartialTree domain domainIds, .empty⟩, domainFaultMap := .empty }
  | .drain consistency domain domainIds faultWeight => .drain
    { consistency, domain, faultWeight
      expressionTree := ⟨state.assignmentTree.createPartialTree domain domainIds, .empty⟩, domainFaultMap := .empty }
  | .loadBalancing domain domainIds metricId maxDelta faultWeightMultiplier => .loadBalancing
    (LoadBalancingConstraint.initial state domainIds metricId maxDelta domain faultWeightMultiplier)

/-- The constraint has its members from the arguments, and any metrics and faults. -/
def Built (state : SolvingState) (arguments : Arguments) (constraint : Constraint) : Prop := constraint.bare = arguments.bare state

def metrics : Constraint → List (Node → Option Int)
  | .metric constraint => [constraint.expressionTree.metricsMap.get]
  | .drain constraint => [constraint.expressionTree.metricsMap.get]
  | .loadBalancing constraint => [constraint.minExpressionTree.metricsMap.get, constraint.maxExpressionTree.metricsMap.get]

/-- Nobody who reads metrics and faults can tell two constraints apart. -/
structure Identical (first second : Constraint) : Prop where
  metrics : first.metrics = second.metrics
  faults : first.domainFaultMap.get = second.domainFaultMap.get

theorem Identical.refl (constraint : Constraint) : Identical constraint constraint := ⟨rfl, rfl⟩

theorem Identical.symm {first second : Constraint} (identical : Identical first second) : Identical second first :=
  ⟨identical.metrics.symm, identical.faults.symm⟩

theorem Identical.trans {first second third : Constraint} (left : Identical first second) (right : Identical second third) :
    Identical first third :=
  ⟨left.metrics.trans right.metrics, left.faults.trans right.faults⟩

variable {state : SolvingState} {arguments : Arguments} {first second : Constraint}

@[simp] theorem bare_commitMoves (constraint : Constraint) : constraint.commitMoves.bare = constraint.bare := by
  cases constraint <;> rfl

@[simp] theorem bare_rollback (constraint : Constraint) : (LawfulConstraint.rollback constraint).bare = constraint.bare := by
  cases constraint <;> rfl

theorem counter_bare (constraint : Constraint) : constraint.bare.counter state =
    (constraint.counter state).map fun counter =>
      { counter with expressionTree := ⟨counter.part, .empty⟩, domainFaultMap := .empty } := by
  cases constraint <;> rfl

theorem Arguments.counter_bare (arguments : Arguments) : (arguments.bare state).counter state = arguments.counter state := by
  cases arguments <;> rfl

/-- A commit makes the committed version identical to what was shown. -/
theorem identical_commitMoves (constraint : Constraint) :
    Identical constraint.commitMoves constraint ∧
      Identical (LawfulConstraint.rollback constraint.commitMoves) constraint := by
  have get : ∀ metricsMap : MetricsMap, metricsMap.commit.get = metricsMap.get :=
    fun metricsMap => funext (CommittableMap.get_commit metricsMap)
  have faults : ∀ faultMap : FaultMap, faultMap.commit.get = faultMap.get :=
    fun faultMap => funext (CommittableMap.get_commit faultMap)
  cases constraint with
  | metric constraint =>
    have metrics : metrics (.metric constraint.commitMoves) = metrics (.metric constraint) :=
      congrArg (fun shown => [shown]) (get constraint.expressionTree.metricsMap)
    exact ⟨⟨metrics, faults _⟩, metrics, faults _⟩
  | drain constraint =>
    have metrics : metrics (.drain constraint.commitMoves) = metrics (.drain constraint) :=
      congrArg (fun shown => [shown]) (get constraint.expressionTree.metricsMap)
    exact ⟨⟨metrics, faults _⟩, metrics, faults _⟩
  | loadBalancing constraint =>
    have metrics : metrics (.loadBalancing constraint.commitMoves) = metrics (.loadBalancing constraint) :=
      congrArg₂ (fun least most => [least, most]) (get constraint.minExpressionTree.metricsMap)
        (get constraint.maxExpressionTree.metricsMap)
    exact ⟨⟨metrics, faults _⟩, metrics, faults _⟩

theorem shown_counter {constraint : Constraint} {counter : Counter} (found : constraint.counter state = some counter) :
    constraint.metrics = [counter.committed.metric] ∧ constraint.domainFaultMap.get = counter.committed.faults ∧
    (LawfulConstraint.rollback constraint).metrics = [counter.metric] ∧
    (LawfulConstraint.rollback constraint).domainFaultMap.get = counter.faults := by
  have cleared : ∀ {Map Keys : Type} [DecidableEq Keys] [NestedMap Map Keys Int] (map : CommittableMap Map Keys Int),
      map.clear.get = map.getFromCommittedMap := fun map => funext (CommittableMap.get_clear map)
  rw [Counter.metric_committed, Counter.faults_committed]
  cases constraint with
  | metric constraint =>
    cases found
    exact ⟨rfl, rfl, congrArg (fun shown => [shown]) (cleared constraint.expressionTree.metricsMap), cleared _⟩
  | drain constraint =>
    cases found
    exact ⟨rfl, rfl, congrArg (fun shown => [shown]) (cleared constraint.expressionTree.metricsMap), cleared _⟩
  | loadBalancing constraint => cases found

private theorem identical_counters {counter other : Counter} (found : first.counter state = some counter)
    (otherFound : second.counter state = some other) :
    (Identical first second ↔ counter.committed.CommitsSame (fun _ => True) other.committed) ∧
    (Identical (LawfulConstraint.rollback first) (LawfulConstraint.rollback second) ↔
      counter.CommitsSame (fun _ => True) other) := by
  obtain ⟨metrics, faults, committedMetrics, committedFaults⟩ := shown_counter found
  obtain ⟨otherMetrics, otherFaults, otherCommittedMetrics, otherCommittedFaults⟩ := shown_counter otherFound
  have told : ∀ {left right : Constraint} {shown otherShown : Counter}, left.metrics = [shown.metric] →
      right.metrics = [otherShown.metric] → left.domainFaultMap.get = shown.faults →
      right.domainFaultMap.get = otherShown.faults → (Identical left right ↔ shown.CommitsSame (fun _ => True) otherShown) := by
    intro left right shown otherShown metrics otherMetrics faults otherFaults
    constructor
    · rintro ⟨sameMetrics, sameFaults⟩
      rw [metrics, otherMetrics, List.singleton_inj] at sameMetrics
      rw [faults, otherFaults] at sameFaults
      exact ⟨fun node _ => congrFun sameMetrics node, fun domainId _ => congrFun sameFaults domainId⟩
    · rintro ⟨sameMetrics, sameFaults⟩
      refine ⟨?_, ?_⟩
      · rw [metrics, otherMetrics, funext fun node => sameMetrics node trivial]
      · rw [faults, otherFaults, funext fun domainId => sameFaults domainId trivial]
  exact ⟨told metrics otherMetrics faults otherFaults,
    told committedMetrics otherCommittedMetrics committedFaults otherCommittedFaults⟩

theorem Built.counter {kind : Counter} (counts : arguments.counter state = some kind) {constraint : Constraint}
    (built : Built state arguments constraint) : ∃ counter, constraint.counter state = some counter ∧ SameKind kind counter := by
  have emptied : constraint.bare.counter state = _ := counter_bare constraint
  rw [built, Arguments.counter_bare, counts] at emptied
  obtain ⟨counter, found, rfl⟩ := Option.map_eq_some_iff.mp emptied.symm
  exact ⟨counter, found, rfl, rfl, rfl, rfl⟩

theorem Built.keepsFaults {constraint : Constraint} (built : Built state arguments constraint) :
    constraint.KeepsFaults ↔ arguments.KeepFaults := by
  have kept : ∀ constraint : Constraint, constraint.bare.KeepsFaults ↔ constraint.KeepsFaults := by
    intro constraint
    cases constraint <;> rfl
  rw [← kept, built]
  cases arguments <;> rfl

theorem Built.domain {constraint : Constraint} (built : Built state arguments constraint) :
    constraint.domain = arguments.domain := by
  have kept : ∀ constraint : Constraint, constraint.bare.domain = constraint.domain := by
    intro constraint
    cases constraint <;> rfl
  rw [← kept, built]
  cases arguments <;> rfl

theorem Built.trees {constraint : Constraint} (built : Built state arguments constraint) :
    constraint.trees = constraint.trees.map fun _ => arguments.tree state := by
  have kept : ∀ constraint : Constraint, constraint.bare.trees = constraint.trees := by
    intro constraint
    cases constraint <;> rfl
  rw [← kept, built]
  cases arguments <;> rfl

theorem Built.hasBin {constraint : Constraint} (built : Built state arguments constraint)
    (hasBin : (arguments.tree state).HasBin) : constraint.HasBin := by
  rw [hasBin_iff_trees, built.trees]
  intro tree listed
  obtain ⟨_, _, rfl⟩ := List.mem_map.mp listed
  exact hasBin

open Counter in
theorem Arguments.counter_over (hierarchical : state.Hierarchical) (hasBin : (arguments.tree state).HasBin) {kind : Counter}
    (counts : arguments.counter state = some kind) :
    Over state arguments.domainIds kind ∧ ∀ {inside level tree other movementMaps others}, AgreeOn inside level tree other →
      List.Forall₂ SameMoves movementMaps others → kind.calculation.ReadsInside inside level tree other movementMaps others := by
  cases arguments with
  | metric consistency domain domainIds metric capacity faultWeight =>
    cases counts
    exact ⟨⟨createPartialTree_part hierarchical.hierarchy domain domainIds,
        MetricConstraint.recordsValue consistency domain capacity faultWeight, hasBin, domain_ne_zero hierarchical hasBin⟩,
      fun agree same => MetricConstraint.readsInside agree same consistency domain capacity faultWeight⟩
  | drain consistency domain domainIds faultWeight =>
    cases counts
    exact ⟨⟨createPartialTree_part hierarchical.hierarchy domain domainIds,
        DrainConstraint.recordsValue consistency domain faultWeight, hasBin, domain_ne_zero hierarchical hasBin⟩,
      fun _ same => DrainConstraint.readsInside same consistency domain faultWeight⟩
  | loadBalancing => cases counts

theorem Arguments.agree (hierarchical : state.Hierarchical) (hasBin : (arguments.tree state).HasBin) {kind first second : Counter}
    (counts : arguments.counter state = some kind) (same : SameKind kind first) (otherSame : SameKind kind second) :
    first.Agree state (fun _ => True) binsUp second := by
  obtain ⟨isOver, reads⟩ := Arguments.counter_over hierarchical hasBin counts
  have own : kind.Agree state (fun _ => True) binsUp kind :=
    isOver.agree hierarchical.shardDomain isOver rfl rfl (.refl _ _) fun movementMaps others same => reads (.refl _ _) same
  exact own.sameKind same otherSame

theorem Identical.shares (identical : Identical first second) (built : Built state arguments first)
    (otherBuilt : Built state arguments second) (keepFaults : arguments.KeepFaults) :
    (totalAccount state).shareOf first = (totalAccount state).shareOf second ∧
    ∀ binId, (binAccount state binId).shareOf first = (binAccount state binId).shareOf second :=
  IterativeLocalSearch.shareOf_same (built.keepsFaults.mpr keepFaults) (otherBuilt.keepsFaults.mpr keepFaults)
    (built.domain.trans otherBuilt.domain.symm) identical.faults

theorem Arguments.counted {kind : Counter} (counts : arguments.counter state = some kind) :
    arguments.KeepFaults ∧ kind.part = arguments.tree state := by
  cases arguments with
  | metric | drain =>
    cases counts
    exact ⟨trivial, rfl⟩
  | loadBalancing => cases counts

private theorem commitsSame_of_identical {least most : LoadBalancingConstraint} (identical : Identical
    (LawfulConstraint.rollback (.loadBalancing least)) (LawfulConstraint.rollback (.loadBalancing most))) :
    LoadBalancingConstraint.CommitsSame least most := by
  have cleared : ∀ {Map Keys : Type} [DecidableEq Keys] [NestedMap Map Keys Int] {map other : CommittableMap Map Keys Int},
      map.clear.get = other.clear.get → ∀ keys, map.getFromCommittedMap keys = other.getFromCommittedMap keys := by
    intro Map Keys _ _ map other same keys
    rw [← CommittableMap.get_clear, same, CommittableMap.get_clear]
  have metrics := List.cons_eq_cons.mp identical.metrics
  exact ⟨cleared metrics.1, cleared (List.cons_eq_cons.mp metrics.2).1, cleared identical.faults⟩

section Canaried
variable {order otherOrder : HashOrder} {committedMoves canariedMoves otherCommitted otherCanaried : MovementMap}
  {info otherInfo : BinWeightInfo} {after otherAfter : Constraint × BinWeightInfo}

theorem Built.canaried (built : Built state arguments first)
    (canaried : ConstraintOps.canaryMoves order state (some committedMoves) (some canariedMoves) first info = .ok after) :
    Built state arguments after.1 := by
  have kept := (LawfulConstraint.rollback_canaryMoves _ _ _ _ _ _ _ _ canaried).1
  rw [Built, ← bare_rollback, kept, bare_rollback]
  exact built

theorem Built.rollback (built : Built state arguments first) : Built state arguments (LawfulConstraint.rollback first) :=
  (bare_rollback first).trans built

/-- Recorded faults tell how the weights change. -/
theorem Identical.sameChange (built : Built state arguments first) (otherBuilt : Built state arguments second)
    (keepFaults : arguments.KeepFaults)
    (identical : Identical (LawfulConstraint.rollback first) (LawfulConstraint.rollback second))
    (shown : Identical after.1 otherAfter.1)
    (canaried : ConstraintOps.canaryMoves order state (some committedMoves) (some canariedMoves) first info = .ok after)
    (otherwise : ConstraintOps.canaryMoves otherOrder state (some otherCommitted) (some otherCanaried) second otherInfo =
      .ok otherAfter) : SameChange info after.2 otherInfo otherAfter.2 := by
  obtain ⟨total, bins⟩ := shown.shares (built.canaried canaried) (otherBuilt.canaried otherwise) keepFaults
  obtain ⟨committedTotal, committedBins⟩ := identical.shares built.rollback otherBuilt.rollback keepFaults
  have shares := fun account : Account state => account.canaryMoves_share (built.keepsFaults.mpr keepFaults) canaried
  have otherShares := fun account : Account state => account.canaryMoves_share (otherBuilt.keepsFaults.mpr keepFaults) otherwise
  refine ShardManager.sameChange ?_ fun binId => ?_
  · have own : after.2.total - _ = info.total - _ := shares (totalAccount state)
    have others : otherAfter.2.total - _ = otherInfo.total - _ := otherShares (totalAccount state)
    rw [total, committedTotal] at own
    omega
  · have own : after.2.binWeight binId - _ = info.binWeight binId - _ := shares (binAccount state binId)
    have others : otherAfter.2.binWeight binId - _ = otherInfo.binWeight binId - _ := otherShares (binAccount state binId)
    rw [bins, committedBins] at own
    omega

private theorem Identical.canaried_counter (hierarchical : state.Hierarchical) (hasBin : (arguments.tree state).HasBin) {kind : Counter}
    (counts : arguments.counter state = some kind) (built : Built state arguments first) (otherBuilt : Built state arguments second)
    (identical : Identical (LawfulConstraint.rollback first) (LawfulConstraint.rollback second))
    (sameCommitted : SameMoves committedMoves otherCommitted) (sameCanaried : SameMoves canariedMoves otherCanaried)
    (canaried : ConstraintOps.canaryMoves order state (some committedMoves) (some canariedMoves) first info = .ok after)
    (otherwise : ConstraintOps.canaryMoves otherOrder state (some otherCommitted) (some otherCanaried) second otherInfo =
      .ok otherAfter) : Identical after.1 otherAfter.1 := by
  obtain ⟨_, part⟩ := arguments.counted counts
  obtain ⟨counter, found, same⟩ := built.counter counts
  obtain ⟨other, otherFound, otherSame⟩ := otherBuilt.counter counts
  have agree := arguments.agree hierarchical hasBin counts same otherSame
  have maps : List.Forall₂ SameMoves [{}, committedMoves, canariedMoves] [{}, otherCommitted, otherCanaried] :=
    .cons (.refl {}) (.cons sameCommitted (.cons sameCanaried .nil))
  have moved := ((order.ids_perm _).trans sameCanaried.moved).trans (otherOrder.ids_perm _).symm
  have afterFound := (counter_canaryMoves hierarchical.movementMap found (by rw [same.part, part]; exact hasBin) canaried).1
  have otherAfterFound :=
    (counter_canaryMoves hierarchical.movementMap otherFound (by rw [otherSame.part, part]; exact hasBin) otherwise).1
  exact (identical_counters afterFound otherAfterFound).1.mpr
    (agree.canaried ((identical_counters found otherFound).2.mp identical) order otherOrder maps (agree.sameEntered maps moved) info otherInfo)

/-- Constraints that have committed the same show the same after the same moves, and
change the weights by the same amounts. -/
theorem Identical.canaried (hierarchical : state.Hierarchical) (hasBin : (arguments.tree state).HasBin)
    (built : Built state arguments first) (otherBuilt : Built state arguments second)
    (identical : Identical (LawfulConstraint.rollback first) (LawfulConstraint.rollback second))
    (sameCommitted : SameMoves committedMoves otherCommitted) (sameCanaried : SameMoves canariedMoves otherCanaried)
    (canaried : ConstraintOps.canaryMoves order state (some committedMoves) (some canariedMoves) first info = .ok after)
    (otherwise : ConstraintOps.canaryMoves otherOrder state (some otherCommitted) (some otherCanaried) second otherInfo =
      .ok otherAfter) : Identical after.1 otherAfter.1 ∧ SameChange info after.2 otherInfo otherAfter.2 := by
  cases arguments with
  | metric | drain =>
    have shown := identical.canaried_counter hierarchical hasBin rfl built otherBuilt sameCommitted sameCanaried canaried otherwise
    exact ⟨shown, identical.sameChange built otherBuilt trivial shown canaried otherwise⟩
  | loadBalancing domain domainIds metric maxDelta faultWeightMultiplier =>
    have inPart : (state.assignmentTree.createPartialTree domain domainIds).HasBin :=
      (LoadBalancingConstraint.partialTree_hasBin_iff hierarchical.hierarchy.bins domain domainIds).mp hasBin
    obtain ⟨listsBins, treeHasBin, level, layered, onLevel⟩ := partialTree_layered hierarchical inPart
    cases first with
    | metric | drain => cases built
    | loadBalancing first =>
      cases second with
      | metric | drain => cases otherBuilt
      | loadBalancing second =>
        obtain ⟨_, _, _, _, _, ⟨_, _⟩, ⟨_, _⟩, _, _⟩ := first
        obtain ⟨_, _, _, _, _, ⟨_, _⟩, ⟨_, _⟩, _, _⟩ := second
        simp only [Built, bare, Arguments.bare, LoadBalancingConstraint.initial, loadBalancing.injEq, LoadBalancingConstraint.mk.injEq,
          ExpressionTree.mk.injEq] at built otherBuilt
        obtain ⟨rfl, rfl, rfl, rfl, rfl, ⟨rfl, _⟩, ⟨rfl, _⟩, _⟩ := built
        obtain ⟨rfl, rfl, rfl, rfl, rfl, ⟨rfl, _⟩, ⟨rfl, _⟩, _⟩ := otherBuilt
        have maps : List.Forall₂ SameMoves [{}, committedMoves, canariedMoves] [{}, otherCommitted, otherCanaried] :=
          .cons (.refl {}) (.cons sameCommitted (.cons sameCanaried .nil))
        have moved := ((order.ids_perm _).trans sameCanaried.moved).trans (otherOrder.ids_perm _).symm
        change Constraint.canaryMoves _ _ _ _ _ _ = _ at canaried otherwise
        rw [canaryMoves, LoadBalancingConstraint.canaryMoves_eq _ hierarchical.movementMap _ _ _ _ treeHasBin treeHasBin]
          at canaried otherwise
        cases canaried
        cases otherwise
        obtain ⟨minimum, maximum, faults, change⟩ := LoadBalancingConstraint.canaried_same layered onLevel
          (listsBins.shards.trans hierarchical.shardDomain.symm) (listsBins.bins.trans hierarchical.binDomain.symm)
          (commitsSame_of_identical identical) order otherOrder maps moved info otherInfo
        exact ⟨⟨congrArg₂ (fun least most => [least, most]) minimum maximum, faults⟩, change⟩

end Canaried

section New
variable {order otherOrder : HashOrder} {info otherInfo : BinWeightInfo} {made otherMade : Constraint × BinWeightInfo}

/-- A constructor ends with a commit. -/
theorem Built.new (present : state.movementMap = some {}) (called : new order state info arguments = .ok made) :
    Built state arguments made.1 ∧ made.2.clear = made.2 ∧ Identical made.1 (LawfulConstraint.rollback made.1) := by
  cases arguments with
  | metric consistency domain domainIds metric capacity faultWeight =>
    rw [Constraint.new, MetricConstraint.new, ExpressionTree.new_eq state
      (MetricConstraint.calculates state consistency domain metric capacity faultWeight)
      (state.assignmentTree.createPartialTree domain domainIds) present (resolves_unmoved _)] at called
    cases called
    exact ⟨rfl, rfl, .refl _⟩
  | drain consistency domain domainIds faultWeight =>
    rw [Constraint.new, DrainConstraint.new, ExpressionTree.new_eq state
      (DrainConstraint.calculates state consistency domain faultWeight)
      (state.assignmentTree.createPartialTree domain domainIds) present (resolves_unmoved _)] at called
    cases called
    exact ⟨rfl, rfl, .refl _⟩
  | loadBalancing domain domainIds metric maxDelta faultWeightMultiplier =>
    rw [Constraint.new, LoadBalancingConstraint.new_eq domainIds metric maxDelta order info present domain
      faultWeightMultiplier (resolves_unmoved _)] at called
    cases called
    exact ⟨rfl, rfl, (identical_commitMoves (.loadBalancing _)).1.trans (identical_commitMoves (.loadBalancing _)).2.symm⟩

private theorem Identical.sameChange_new (hierarchical : state.Hierarchical) (shown : Identical made.1 otherMade.1)
    (called : new order state info arguments = .ok made) (otherwise : new otherOrder state otherInfo arguments = .ok otherMade)
    (keepFaults : arguments.KeepFaults) : SameChange info made.2 otherInfo otherMade.2 := by
  obtain ⟨total, bins⟩ := shown.shares (Built.new hierarchical.movementMap called).1 (Built.new hierarchical.movementMap otherwise).1 keepFaults
  have shares := fun account : Account state => (account.new_share keepFaults called).1
  have otherShares := fun account : Account state => (account.new_share keepFaults otherwise).1
  refine ShardManager.sameChange ?_ fun binId => ?_
  · have own : made.2.total = info.total + _ := shares (totalAccount state)
    have others : otherMade.2.total = otherInfo.total + _ := otherShares (totalAccount state)
    rw [total] at own
    omega
  · have own : made.2.binWeight binId = info.binWeight binId + _ := shares (binAccount state binId)
    have others : otherMade.2.binWeight binId = otherInfo.binWeight binId + _ := otherShares (binAccount state binId)
    rw [bins] at own
    omega

/-- Constructors make constraints that show the same, whatever the weights are, and
change the weights by the same amounts. -/
theorem identical_new (hierarchical : state.Hierarchical) (hasBin : (arguments.tree state).HasBin)
    (called : new order state info arguments = .ok made) (otherwise : new otherOrder state otherInfo arguments = .ok otherMade) :
    Identical made.1 otherMade.1 ∧ SameChange info made.2 otherInfo otherMade.2 := by
  have settled := (Built.new hierarchical.movementMap called).2.2
  have otherSettled := (Built.new hierarchical.movementMap otherwise).2.2
  have maps : List.Forall₂ SameMoves [{}] [{}] := .cons (.refl {}) .nil
  have all : ∀ ids, (order.ids ids).Perm (otherOrder.ids ids) := fun ids => (order.ids_perm ids).trans (otherOrder.ids_perm ids).symm
  have counted : ∀ kind, arguments.counter state = some kind →
      Identical (LawfulConstraint.rollback made.1) (LawfulConstraint.rollback otherMade.1) := by
    intro kind counts
    have resolves : kind.part.Resolves [{}] := resolves_unmoved _
    have found := (counter_new hierarchical.movementMap kind counts resolves called).1
    have otherFound := (counter_new hierarchical.movementMap kind counts resolves otherwise).1
    have kinds : SameKind kind kind := ⟨rfl, rfl, rfl, rfl⟩
    have agree := arguments.agree hierarchical hasBin counts kinds kinds
    exact (identical_counters found otherFound).2.mpr (agree.canaried ⟨fun _ _ => rfl, fun _ _ => rfl⟩ order otherOrder maps
      (agree.sameEntered maps (all _)) info otherInfo)
  cases arguments with
  | metric | drain =>
    have shown := settled.trans ((counted _ rfl).trans otherSettled.symm)
    exact ⟨shown, shown.sameChange_new hierarchical called otherwise trivial⟩
  | loadBalancing domain domainIds metric maxDelta faultWeightMultiplier =>
    have inPart : (state.assignmentTree.createPartialTree domain domainIds).HasBin :=
      (LoadBalancingConstraint.partialTree_hasBin_iff hierarchical.hierarchy.bins domain domainIds).mp hasBin
    obtain ⟨listsBins, treeHasBin, level, layered, onLevel⟩ := partialTree_layered hierarchical inPart
    rw [Constraint.new, LoadBalancingConstraint.new_eq domainIds metric maxDelta _ _ hierarchical.movementMap domain
      faultWeightMultiplier (resolves_unmoved _)] at called otherwise
    have unset : LoadBalancingConstraint.CommitsSame
        (LoadBalancingConstraint.initial state domainIds metric maxDelta domain faultWeightMultiplier)
        (LoadBalancingConstraint.initial state domainIds metric maxDelta domain faultWeightMultiplier) :=
      ⟨fun _ => rfl, fun _ => rfl, fun _ => rfl⟩
    obtain ⟨minimum, maximum, faults, change⟩ := LoadBalancingConstraint.canaried_same layered onLevel
      (listsBins.shards.trans hierarchical.shardDomain.symm) (listsBins.bins.trans hierarchical.binDomain.symm)
      unset order otherOrder maps (all ((LoadBalancingConstraint.partialTree state domain domainIds).getAllDomainIds state.shardDomain))
      info otherInfo
    cases called
    cases otherwise
    have shown : Identical (.loadBalancing _) (.loadBalancing _) :=
      ⟨congrArg₂ (fun least most => [least, most]) minimum maximum, faults⟩
    exact ⟨(identical_commitMoves (.loadBalancing _)).1.trans (shown.trans (identical_commitMoves (.loadBalancing _)).1.symm), change.commit⟩

end New
end Constraint
end ShardManager
