import ShardManager.Proofs.Tally

/-! `MetricConstraint` and `DrainConstraint` as one kind of object: a calculation
over an expression tree and the faults of one domain. -/

namespace ShardManager
open SparseMappingTree

structure Counter where
  domain : Domain
  fault : Int → Int
  calculation : Calculation FaultRecord
  expressionTree : ExpressionTree
  domainFaultMap : FaultMap

def MetricConstraint.newCounter (state : SolvingState) (consistency : MovementConsistency) (domain : Domain)
    (domainIds : List DomainId) (capacity faultWeight : Int) : Counter where
  domain
  fault := fault capacity faultWeight
  calculation := calculation state consistency domain capacity faultWeight
  expressionTree := ⟨state.assignmentTree.createPartialTree domain domainIds, .empty⟩
  domainFaultMap := .empty

def DrainConstraint.newCounter (state : SolvingState) (consistency : MovementConsistency) (domain : Domain)
    (domainIds : List DomainId) (faultWeight : Int) : Counter where
  domain
  fault := fault faultWeight
  calculation := calculation state consistency domain faultWeight
  expressionTree := ⟨state.assignmentTree.createPartialTree domain domainIds, .empty⟩
  domainFaultMap := .empty

namespace Constraint

def counter (state : SolvingState) : Constraint → Option Counter
  | .metric constraint => some
    { domain := constraint.domain
      fault := MetricConstraint.fault constraint.capacity constraint.faultWeight
      calculation := MetricConstraint.calculation state constraint.consistency constraint.domain constraint.capacity
        constraint.faultWeight
      expressionTree := constraint.expressionTree
      domainFaultMap := constraint.domainFaultMap }
  | .drain constraint => some
    { domain := constraint.domain
      fault := DrainConstraint.fault constraint.faultWeight
      calculation := DrainConstraint.calculation state constraint.consistency constraint.domain constraint.faultWeight
      expressionTree := constraint.expressionTree
      domainFaultMap := constraint.domainFaultMap }
  | .loadBalancing _ => none

def Arguments.counter (state : SolvingState) : Arguments → Option Counter
  | .metric consistency domain domainIds _ capacity faultWeight =>
    some (MetricConstraint.newCounter state consistency domain domainIds capacity faultWeight)
  | .drain consistency domain domainIds faultWeight =>
    some (DrainConstraint.newCounter state consistency domain domainIds faultWeight)
  | .loadBalancing .. => none

end Constraint

namespace Counter

def part (counter : Counter) : SparseMappingTree := counter.expressionTree.assignmentTree

def metric (counter : Counter) : Node → Option Int := counter.expressionTree.metricsMap.getFromCommittedMap

def faults (counter : Counter) : DomainId → Option Int := counter.domainFaultMap.getFromCommittedMap

def residues (counter : Counter) (level : Nat) (domainId : DomainId) : Residue :=
  ((counter.metric (level + 1, domainId)).getD 0 : Int)

def canaried (order : HashOrder) (state : SolvingState) (movementMaps : List MovementMap) (shardIds : List DomainId)
    (counter : Counter) (info : BinWeightInfo) : Counter × BinWeightInfo :=
  let final := (ExpressionTree.mk counter.part counter.expressionTree.metricsMap.clear).updated state order
    counter.calculation movementMaps shardIds ⟨counter.domainFaultMap.clear, info⟩
  ({ counter with expressionTree := final.1, domainFaultMap := final.2.domainFaultMap }, final.2.binWeightInfo)

def committed (counter : Counter) : Counter :=
  { counter with
    expressionTree := counter.expressionTree.commitMoves
    domainFaultMap := counter.domainFaultMap.commit }

def Tallies (counter : Counter) : Prop := Tally counter.part counter.domain counter.fault counter.metric counter.faults

theorem tallies_empty (counter : Counter) (metrics : counter.metric = fun _ => none) (faults : counter.faults = fun _ => none) :
    counter.Tallies := by
  rw [Tallies, metrics, faults]
  exact tally_empty _ _ _

@[simp] theorem metric_committed (counter : Counter) :
    counter.committed.metric = counter.expressionTree.metricsMap.get := by
  funext node
  exact CommittableMap.committed_commit _ node

@[simp] theorem faults_committed (counter : Counter) : counter.committed.faults = counter.domainFaultMap.get := by
  funext domainId
  exact CommittableMap.committed_commit _ domainId

theorem committed_committed (counter : Counter) :
    counter.committed.committed.metric = counter.committed.metric ∧
    counter.committed.committed.faults = counter.committed.faults := by
  constructor
  · funext node
    rw [metric_committed, metric_committed]
    exact CommittableMap.get_commit _ node
  · funext domainId
    rw [faults_committed, faults_committed]
    exact CommittableMap.get_commit _ domainId

section Canaried
variable {state : SolvingState} {counter : Counter} {consistency : MovementConsistency} {weight : DomainId → Int}
  (order : HashOrder) (movementMaps : List MovementMap) (shardIds : List DomainId) (info : BinWeightInfo)

theorem part_canaried : (counter.canaried order state movementMaps shardIds info).1.committed.part = counter.part := rfl

theorem canaried_tallies (hierarchy : Hierarchy counter.part) (shards : state.shardDomain = 0)
    (records : RecordsValue counter.calculation state counter.domain counter.fault) (above : counter.domain ≠ 0)
    (tallies : counter.Tallies) : (counter.canaried order state movementMaps shardIds info).1.committed.Tallies := by
  have start : Tally counter.part counter.domain counter.fault counter.expressionTree.metricsMap.clear.get
      counter.domainFaultMap.clear.get := by
    have metrics : counter.expressionTree.metricsMap.clear.get = counter.metric := funext fun node => by simp [metric]
    have faults : counter.domainFaultMap.clear.get = counter.faults := funext fun domainId => by simp [Counter.faults]
    rw [metrics, faults]
    exact tallies
  unfold Tallies
  rw [metric_committed, faults_committed]
  exact updated_tally order ⟨counter.part, counter.expressionTree.metricsMap.clear⟩ movementMaps shardIds
    ⟨counter.domainFaultMap.clear, info⟩ hierarchy shards records above start

theorem canaried_patched (hierarchy : Hierarchy counter.part) (shards : state.shardDomain = 0)
    (adds : Adds counter.calculation consistency weight counter.part) :
    Patched (childrenAt counter.part)
      (fun binId => ((binChange consistency weight movementMaps ((ExpressionTree.entered state counter.part movementMaps
        shardIds).changedChildren (1, binId)) binId : Int) : Residue))
      counter.residues (counter.canaried order state movementMaps shardIds info).1.committed.residues := by
  have start : (ExpressionTree.mk counter.part counter.expressionTree.metricsMap.clear).metricsMap.residues =
      counter.residues := by
    funext level domainId
    simp [MetricsMap.residues, residues, metric]
  have final : (counter.canaried order state movementMaps shardIds info).1.committed.residues =
      (counter.canaried order state movementMaps shardIds info).1.expressionTree.metricsMap.residues := by
    funext level domainId
    rw [residues, metric_committed]
    rfl
  rw [← start, final]
  exact updated_patched order ⟨counter.part, counter.expressionTree.metricsMap.clear⟩ movementMaps shardIds
    ⟨counter.domainFaultMap.clear, info⟩ hierarchy shards adds fun node => by simp

theorem canaried_bin (hierarchy : Hierarchy counter.part) (shards : state.shardDomain = 0) (binId : DomainId) :
    ((counter.canaried order state movementMaps shardIds info).1.committed.metric (1, binId)).isSome ↔
      (counter.metric (1, binId)).isSome ∨
      (ExpressionTree.entered state counter.part movementMaps shardIds).changedChildren (1, binId) ≠ [] := by
  have bin := updated_bin counter.calculation order ⟨counter.part, counter.expressionTree.metricsMap.clear⟩ movementMaps shardIds
    ⟨counter.domainFaultMap.clear, info⟩ hierarchy shards binId
  rw [CommittableMap.get_clear] at bin
  rw [metric_committed]
  exact bin

end Canaried
end Counter

section Constraints
variable {order : HashOrder} {state : SolvingState} {own : MovementMap}

theorem Constraint.counter_commitMoves (constraint : Constraint) :
    (ConstraintOps.commitMoves constraint).counter state = (constraint.counter state).map Counter.committed := by
  cases constraint <;> rfl

/-- Canarying moves on a constraint is canarying them on its counter. -/
theorem Constraint.counter_canaryMoves (present : state.movementMap = some own) {constraint after : Constraint}
    {counter : Counter} (found : constraint.counter state = some counter) (hasBin : counter.part.HasBin)
    {committedMoves canariedMoves : MovementMap} {info final : BinWeightInfo}
    (canaried : ConstraintOps.canaryMoves order state (some committedMoves) (some canariedMoves) constraint info =
      .ok (after, final)) :
    after.counter state = some (counter.canaried order state [own, committedMoves, canariedMoves]
      (order.ids canariedMoves.getAllMovements.keys) info).1 ∧
    final = (counter.canaried order state [own, committedMoves, canariedMoves]
      (order.ids canariedMoves.getAllMovements.keys) info).2 := by
  change Constraint.canaryMoves _ _ _ _ _ _ = .ok _ at canaried
  cases constraint with
  | metric constraint =>
    cases found
    rw [Constraint.canaryMoves, MetricConstraint.canaryMoves_eq order present _ _ _ _ hasBin] at canaried
    cases canaried
    exact ⟨rfl, rfl⟩
  | drain constraint =>
    cases found
    rw [Constraint.canaryMoves, DrainConstraint.canaryMoves_eq order present _ _ _ _ hasBin] at canaried
    cases canaried
    exact ⟨rfl, rfl⟩
  | loadBalancing constraint => cases found

/-- A constructor canaries the presence of all shards of the part, and commits. -/
theorem Constraint.counter_new (present : state.movementMap = some own) {arguments : Arguments} {constraint : Constraint}
    (counter : Counter) (found : arguments.counter state = some counter) (resolves : counter.part.Resolves [own])
    {info final : BinWeightInfo} (made : Constraint.new order state info arguments = .ok (constraint, final)) :
    constraint.counter state = some (counter.canaried order state [own]
      (order.ids (counter.part.getAllDomainIds state.shardDomain)) info).1.committed ∧
    final = (counter.canaried order state [own]
      (order.ids (counter.part.getAllDomainIds state.shardDomain)) info).2.commit := by
  cases arguments with
  | metric consistency domain domainIds metric capacity faultWeight =>
    cases found
    rw [Constraint.new, MetricConstraint.new, ExpressionTree.new_eq state
      (MetricConstraint.calculates state consistency domain metric capacity faultWeight)
      (state.assignmentTree.createPartialTree domain domainIds) present resolves] at made
    cases made
    exact ⟨rfl, rfl⟩
  | drain consistency domain domainIds faultWeight =>
    cases found
    rw [Constraint.new, DrainConstraint.new, ExpressionTree.new_eq state
      (DrainConstraint.calculates state consistency domain faultWeight) (state.assignmentTree.createPartialTree domain domainIds)
      present resolves] at made
    cases made
    exact ⟨rfl, rfl⟩
  | loadBalancing domain domainIds metric maxDelta faultWeightMultiplier => cases found

theorem MetricConstraint.adds (shards : state.shardDomain = 0) (bins : state.binDomain = 1)
    (consistency : MovementConsistency) (domain : Domain) (capacity faultWeight : Int) {tree : SparseMappingTree}
    (hierarchy : Hierarchy tree) :
    Adds (calculation state consistency domain capacity faultWeight) consistency (state.getShardMetric 0) tree where
  bins movementMaps binId reading := by
    have childDomain : (tree.getChildDomain 1).getD 0 = 0 := by
      cases found : tree.getChildDomain 1 with
      | none => rfl
      | some childDomain =>
        have below := hierarchy.below 1 childDomain found
        rw [Option.getD_some]
        grind
    simp [calculation, childMetric, addedChild, childDomain, shards, bins]
  above level domainId mapped movementMaps reading := by
    obtain ⟨childDomain, found⟩ := Option.isSome_iff_exists.mp mapped.1
    have below := hierarchy.below _ childDomain found
    have child : childDomain ≠ 0 := by grind
    simp [calculation, childMetric, addedChild, signed, found, shards, bins, child]

theorem MetricConstraint.recordsValue (consistency : MovementConsistency) (domain : Domain) (capacity faultWeight : Int) :
    RecordsValue (calculation state consistency domain capacity faultWeight) state domain (fault capacity faultWeight) :=
  ⟨fun _ _ _ => rfl, fun _ _ _ _ _ => toInt32_fits _⟩

theorem DrainConstraint.addsShards (bins : state.binDomain = 1) (consistency : MovementConsistency) (domain : Domain)
    (faultWeight : Int) (tree : SparseMappingTree) :
    AddsShards (calculation state consistency domain faultWeight) consistency (fun _ => 1) tree where
  bins movementMaps binId reading := by simp [calculation, addedChild, bins]

theorem DrainConstraint.adds (bins : state.binDomain = 1) (consistency : MovementConsistency) (domain : Domain)
    (faultWeight : Int) {tree : SparseMappingTree} (top : ∀ level domainId, ¬ tree.Mapped (level + 2, domainId)) :
    Adds (calculation state consistency domain faultWeight) consistency (fun _ => 1) tree where
  bins := (addsShards bins consistency domain faultWeight tree).bins
  above level domainId mapped := absurd mapped (top level domainId)

theorem DrainConstraint.recordsValue (consistency : MovementConsistency) (domain : Domain) (faultWeight : Int) :
    RecordsValue (calculation state consistency domain faultWeight) state domain (fault faultWeight) :=
  ⟨fun _ _ _ => rfl, fun _ _ _ _ _ => toInt32_fits _⟩

end Constraints

section Tracking
variable {state : SolvingState} {consistency : MovementConsistency} {weight : DomainId → Int}

/-- A counter of the same constraint. -/
structure SameKind (first counter : Counter) : Prop where
  part : counter.part = first.part
  calculation : counter.calculation = first.calculation
  domain : counter.domain = first.domain
  fault : counter.fault = first.fault

theorem SameKind.symm {first second : Counter} (same : SameKind first second) : SameKind second first :=
  ⟨same.part.symm, same.calculation.symm, same.domain.symm, same.fault.symm⟩

theorem SameKind.trans {first second third : Counter} (left : SameKind first second) (right : SameKind second third) :
    SameKind first third :=
  ⟨right.part.trans left.part, right.calculation.trans left.calculation, right.domain.trans left.domain,
    right.fault.trans left.fault⟩

theorem SameKind.committed (counter : Counter) : SameKind counter counter.committed := ⟨rfl, rfl, rfl, rfl⟩

theorem SameKind.canaried {first counter : Counter} (same : SameKind first counter) (order : HashOrder)
    (movementMaps : List MovementMap) (shardIds : List DomainId) (info : BinWeightInfo) :
    SameKind first (counter.canaried order state movementMaps shardIds info).1.committed :=
  ⟨same.part, same.calculation, same.domain, same.fault⟩

/-- What an evaluation needs to know about a counter. -/
structure Additive (state : SolvingState) (consistency : MovementConsistency) (weight : DomainId → Int) (counter : Counter) :
    Prop where
  hierarchy : Hierarchy counter.part
  adds : Adds counter.calculation consistency weight counter.part
  records : RecordsValue counter.calculation state counter.domain counter.fault
  above : counter.domain ≠ 0

theorem SameKind.additive {first counter : Counter} (same : SameKind first counter)
    (additive : Additive state consistency weight first) : Additive state consistency weight counter := by
  obtain ⟨part, calculation, domain, fault⟩ := same
  exact ⟨part ▸ additive.hierarchy, by rw [calculation, part]; exact additive.adds,
    by rw [calculation, domain, fault]; exact additive.records, domain ▸ additive.above⟩

open IterativeLocalSearch in
def TracksCounter (state : SolvingState) (first : Counter) (holds : MovementMap → Counter → Prop) (moves : MovementMap)
    (constraint : Constraint) : Prop :=
  ∃ counter, constraint.counter state = some counter ∧ SameKind first counter ∧ holds moves counter

open IterativeLocalSearch in
/-- To track a constraint through a run it is enough to follow its counter's committed
version through one candidate. -/
theorem tracks_counter (order : HashOrder) {own : MovementMap} (present : state.movementMap = some own) {first : Counter}
    (hasBin : first.part.HasBin) {holds : MovementMap → Counter → Prop}
    (accepted : ∀ moves shard nextBin counter info, Candidate state moves shard nextBin → SameKind first counter →
      holds moves counter → holds (moves.addMovements (.addMovement {} shard nextBin))
        (counter.canaried order state [own, moves, .addMovement {} shard nextBin] (order.ids [shard]) info).1.committed)
    (views : ∀ moves counter other, SameKind counter other → other.metric = counter.metric → other.faults = counter.faults →
      holds moves counter → holds moves other) : Tracks order state (TracksCounter state first holds) where
  accepted := by
    rintro moves shard nextBin object info after final candidate ⟨counter, found, same, held⟩ canaried
    obtain ⟨canary, _⟩ := Constraint.counter_canaryMoves present found (same.part ▸ hasBin) canaried
    refine ⟨_, by rw [Constraint.counter_commitMoves, canary, Option.map_some], same.canaried _ _ _ _, ?_⟩
    exact accepted moves shard nextBin counter info candidate same held
  again := by
    rintro moves object ⟨counter, found, same, held⟩
    rw [Constraint.counter_commitMoves] at found
    obtain ⟨before, objectFound, rfl⟩ := Option.map_eq_some_iff.mp found
    obtain ⟨metrics, faults⟩ := before.committed_committed
    refine ⟨before.committed.committed, ?_, ⟨same.part, same.calculation, same.domain, same.fault⟩, ?_⟩
    · rw [Constraint.counter_commitMoves, Constraint.counter_commitMoves, objectFound, Option.map_some, Option.map_some]
    · exact views moves before.committed _ ⟨rfl, rfl, rfl, rfl⟩ metrics faults held

end Tracking
end ShardManager
