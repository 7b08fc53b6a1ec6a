import ShardManager.Proofs.Contribution
import ShardManager.Proofs.TreeOverBins

/-! What a `LoadBalancingConstraint` over bins adds to the weights over a run. Its
`domainFaultMap_` is read, cleared and committed but never set: the bins that a move
touches are weighed on top of what they weighed before, and no others. -/

namespace ShardManager
open SparseMappingTree IterativeLocalSearch

namespace LoadBalancingConstraint
section Terms
variable (state : SolvingState) (domainIds : List DomainId) (metric : Metric) (maxDelta multiplier : Int)

def lowestLoad (moves : MovementMap) : Int :=
  (domainIds.map fun binId => state.load (state.getShardMetric metric) moves (state.binDomain, binId)).min?.getD 0

/-- The weight a listed bin should have: how far its load is from the lowest, beyond `maxDelta`. -/
def term (moves : MovementMap) (binId : DomainId) : Int :=
  max 0 (|state.load (state.getShardMetric metric) moves (state.binDomain, binId) - lowestLoad state domainIds metric moves| -
    maxDelta) * multiplier

/-- The minimum of the 32-bit loads of the listed bins that have shards. -/
def lowestOccupied (moves : MovementMap) : Int :=
  ((state.occupied domainIds moves).map fun binId =>
    toInt32 (state.load (state.getShardMetric metric) moves (state.binDomain, binId))).min?.getD 0

/-- The weight of a bin that a move touches, before anything is subtracted. -/
def touchedWeight (moves : MovementMap) (binId : DomainId) : Int :=
  let delta := toInt32 |toInt32 (state.load (state.getShardMetric metric) moves (state.binDomain, binId) -
    lowestOccupied state domainIds metric moves)|
  if delta ≥ maxDelta then integerMultiplier multiplier (toInt32 (delta - maxDelta)) else 0

/-- The move takes a shard from the bin that lists it, or brings one to it. -/
def Touches (movement : MovementMap) (binId : DomainId) : Prop :=
  ∃ shard ∈ movement.getAllMovements.keys,
    shard ∈ state.assignmentTree.children state.binDomain binId ∨ movement.getNextBin shard = some binId

instance (movement : MovementMap) (binId : DomainId) : Decidable (Touches state movement binId) :=
  inferInstanceAs (Decidable (∃ shard ∈ movement.getAllMovements.keys,
    shard ∈ state.assignmentTree.children state.binDomain binId ∨ movement.getNextBin shard = some binId))

end Terms

section Weights
variable (order : HashOrder) (constraint : LoadBalancingConstraint) (info : BinWeightInfo)

private theorem foldl_addBinWeight (weight : DomainId → Int) (domainIds : List DomainId) (distinct : domainIds.Nodup) :
    (domainIds.foldl (fun info domainId => info.addBinWeight domainId (weight domainId)) info).total =
      info.total + ∑ domainId ∈ domainIds.toFinset, weight domainId ∧
    ∀ binId, (domainIds.foldl (fun info domainId => info.addBinWeight domainId (weight domainId)) info).binWeight binId =
      info.binWeight binId + if binId ∈ domainIds then weight binId else 0 := by
  induction domainIds generalizing info with
  | nil => simp
  | cons domainId domainIds ih =>
    obtain ⟨fresh, distinct⟩ := List.nodup_cons.mp distinct
    obtain ⟨total, bins⟩ := ih (info.addBinWeight domainId (weight domainId)) distinct
    constructor
    · rw [List.foldl_cons, total, BinWeightInfo.total_addBinWeight, List.toFinset_cons,
        Finset.sum_insert (by simpa using fresh), add_assoc]
    · intro binId
      rw [List.foldl_cons, bins, BinWeightInfo.binWeight_addBinWeight]
      by_cases here : binId = domainId
      · subst here
        simp [fresh]
      · simp [here]

theorem updateWeights_changes :
    let change := fun domainId =>
      constraint.nodeWeight ((constraint.minExpressionTree.metricsMap.get (constraint.loadBalancingDomain, 0)).getD 0) domainId -
        (constraint.domainFaultMap.get domainId).getD 0
    (constraint.updateWeights order info).total =
      info.total + ∑ domainId ∈ constraint.domainUpdatedSet.keys.toFinset, change domainId ∧
    ∀ binId, (constraint.updateWeights order info).binWeight binId =
      info.binWeight binId + if binId ∈ constraint.domainUpdatedSet.keys then change binId else 0 := by
  intro change
  have visited := order.ids_perm constraint.domainUpdatedSet.keys
  obtain ⟨total, bins⟩ := foldl_addBinWeight info change (order.ids constraint.domainUpdatedSet.keys)
    (visited.nodup_iff.mpr (AList.keys_nodup _))
  rw [List.toFinset_eq_of_perm _ _ visited] at total
  simp only [visited.mem_iff] at bins
  exact ⟨total, bins⟩

theorem updateWeights_adds (unset : ∀ binId, constraint.domainFaultMap.get binId = none) :
    let minMetric := (constraint.minExpressionTree.metricsMap.get (constraint.loadBalancingDomain, 0)).getD 0
    (constraint.updateWeights order info).total =
      info.total + ∑ binId ∈ constraint.domainUpdatedSet.keys.toFinset, constraint.nodeWeight minMetric binId ∧
    ∀ binId, (constraint.updateWeights order info).binWeight binId =
      info.binWeight binId + if binId ∈ constraint.domainUpdatedSet.keys then constraint.nodeWeight minMetric binId else 0 := by
  simpa only [unset, Option.getD_none, sub_zero] using updateWeights_changes order constraint info

end Weights

theorem canaryMoves_single {state : SolvingState} (hierarchical : state.Hierarchical) (constraint : LoadBalancingConstraint)
    (minHasBin : constraint.minExpressionTree.assignmentTree.HasBin)
    (maxHasBin : constraint.maxExpressionTree.assignmentTree.HasBin) (moves : MovementMap) (shard nextBin : DomainId)
    (order : HashOrder) (info : BinWeightInfo) :
    constraint.canaryMoves order state (some moves) (some (.addMovement {} shard nextBin)) info =
      .ok (constraint.canaried order state [{}, moves, .addMovement {} shard nextBin] [shard] info) := by
  have single : order.ids (MovementMap.addMovement {} shard nextBin).getAllMovements.keys = [shard] :=
    order.ids_singleton shard
  rw [canaryMoves_eq order hierarchical.movementMap _ _ _ _ minHasBin maxHasBin, single]

/-- The ids that an update evaluates in the domain of the constraint. -/
def evaluatedSlot (state : SolvingState) (domain : Domain) (metric : Metric) (cmp : Int → Int → Bool) :
    Slot (calculation state domain metric cmp) domain (Option Unit) where
  read updatedSet := updatedSet.lookup
  written _ := some ()
  read_effect := by
    rintro ⟨nodeDomain, nodeId⟩ val updatedSet domainId
    by_cases here : nodeDomain = domain
    · subst here
      simp [calculation, UnorderedMap.lookup_insert, eq_comm (a := nodeId)]
    · simp [calculation, here]

def updatedSlot (state : SolvingState) (metric : Metric) (cmp : Int → Int → Bool) :
    Slot (calculation state 1 metric cmp) 1 (Option Unit) := evaluatedSlot state 1 metric cmp

/-- What a constraint shows after some moves, no fault having been recorded. -/
structure Shows (state : SolvingState) (domainIds : List DomainId) (metric : Metric) (maxDelta multiplier : Int)
    (moves : MovementMap) (constraint : LoadBalancingConstraint) : Prop where
  overBins : constraint.domain = 1
  overAll : constraint.loadBalancingDomain = 10
  sameMetric : constraint.metric = metric
  sameDelta : constraint.maxDelta = maxDelta
  integer : constraint.faultWeightMultiplier = integerMultiplier multiplier
  minTree : constraint.minExpressionTree.assignmentTree = partialTree state 1 domainIds
  maxTree : constraint.maxExpressionTree.assignmentTree = partialTree state 1 domainIds
  minimum : Measures state domainIds metric (fun a b => decide (a < b)) moves constraint.minExpressionTree.metricsMap.get
  maximum : Measures state domainIds metric (fun a b => decide (a > b)) moves constraint.maxExpressionTree.metricsMap.get
  unset : ∀ binId, constraint.domainFaultMap.get binId = none

section Shows
variable {state : SolvingState} {domainIds : List DomainId} {metric : Metric} {maxDelta multiplier : Int}
  {moves : MovementMap} {constraint : LoadBalancingConstraint}

/-- Only what the maps show counts. -/
theorem Shows.views (shows : Shows state domainIds metric maxDelta multiplier moves constraint) {minMetrics maxMetrics : MetricsMap}
    {faults : FaultMap} (minimum : ∀ node, minMetrics.get node = constraint.minExpressionTree.metricsMap.get node)
    (maximum : ∀ node, maxMetrics.get node = constraint.maxExpressionTree.metricsMap.get node)
    (unset : ∀ binId, faults.get binId = constraint.domainFaultMap.get binId) (updatedSet : UnorderedSet DomainId) :
    Shows state domainIds metric maxDelta multiplier moves
      { constraint with
        minExpressionTree := ⟨constraint.minExpressionTree.assignmentTree, minMetrics⟩
        maxExpressionTree := ⟨constraint.maxExpressionTree.assignmentTree, maxMetrics⟩
        domainUpdatedSet := updatedSet, domainFaultMap := faults } where
  overBins := shows.overBins
  overAll := shows.overAll
  sameMetric := shows.sameMetric
  sameDelta := shows.sameDelta
  integer := shows.integer
  minTree := shows.minTree
  maxTree := shows.maxTree
  minimum := by
    rw [funext minimum]
    exact shows.minimum
  maximum := by
    rw [funext maximum]
    exact shows.maximum
  unset binId := (unset binId).trans (shows.unset binId)

theorem Shows.committed (shows : Shows state domainIds metric maxDelta multiplier moves constraint) :
    Shows state domainIds metric maxDelta multiplier moves constraint.commitMoves.rollback :=
  shows.views (by simp [commitMoves, ExpressionTree.commitMoves]) (by simp [commitMoves, ExpressionTree.commitMoves])
    (by simp [commitMoves]) ∅

theorem Shows.again (shows : Shows state domainIds metric maxDelta multiplier moves constraint.commitMoves.rollback) :
    Shows state domainIds metric maxDelta multiplier moves constraint.commitMoves.commitMoves.rollback :=
  shows.views (by simp [commitMoves, rollback, ExpressionTree.rollback, ExpressionTree.commitMoves])
    (by simp [commitMoves, rollback, ExpressionTree.rollback, ExpressionTree.commitMoves]) (by simp [commitMoves, rollback]) ∅

theorem Shows.nodeWeight (hierarchical : state.Hierarchical)
    (shows : Shows state domainIds metric maxDelta multiplier moves constraint) {binId : DomainId}
    (occupied : binId ∈ state.occupied domainIds moves) :
    constraint.nodeWeight ((constraint.minExpressionTree.metricsMap.get (constraint.loadBalancingDomain, 0)).getD 0) binId =
      touchedWeight state domainIds metric maxDelta multiplier moves binId := by
  have lowest : (constraint.minExpressionTree.metricsMap.get (constraint.loadBalancingDomain, 0)).getD 0 =
      lowestOccupied state domainIds metric moves := by
    rw [shows.overAll, lowestOccupied, hierarchical.binDomain, ← extreme_min, ← shows.minimum.top_occupied]
  have own : (constraint.maxExpressionTree.metricsMap.get (constraint.domain, binId)).getD 0 =
      toInt32 (state.load (state.getShardMetric metric) moves (state.binDomain, binId)) := by
    rw [shows.overBins, hierarchical.binDomain, shows.maximum.bins, if_pos occupied, Option.getD_some]
  rw [LoadBalancingConstraint.nodeWeight, lowest, own, shows.sameDelta, shows.integer, toInt32_sub_left,
    touchedWeight]

section Canaried
variable (order : HashOrder) (movementMaps : List MovementMap) (shardIds : List DomainId) (info : BinWeightInfo)

private theorem mem_updatedSet (hierarchical : state.Hierarchical) {tree : SparseMappingTree} (overBins : OverBins state domainIds tree)
    {touched : DomainId → Prop} (entered : ∀ binId,
      (ExpressionTree.entered state tree movementMaps shardIds).changedChildren (1, binId) ≠ [] ↔ binId ∈ domainIds ∧ touched binId)
    (minMetrics maxMetrics : MetricsMap) (binId : DomainId) :
    binId ∈ ((ExpressionTree.mk tree maxMetrics).updated state order (calculation state 1 metric fun a b => decide (a > b))
      movementMaps shardIds ((ExpressionTree.mk tree minMetrics).updated state order
        (calculation state 1 metric fun a b => decide (a < b)) movementMaps shardIds ∅).2).2.keys ↔
        binId ∈ domainIds ∧ touched binId := by
  have update : ∀ (cmp : Int → Int → Bool) (metricsMap : MetricsMap) (updatedSet : UnorderedSet DomainId),
      binId ∈ ((ExpressionTree.mk tree metricsMap).updated state order (calculation state 1 metric cmp) movementMaps shardIds
        updatedSet).2.keys ↔ (binId ∈ domainIds ∧ touched binId) ∨ binId ∈ updatedSet.keys := by
    intro cmp metricsMap updatedSet
    obtain ⟨changed, _, lowest, slots⟩ := ExpressionTree.updated_settled state order (calculation state 1 metric cmp)
      ⟨tree, metricsMap⟩ overBins.layered (overBins.shards.trans hierarchical.shardDomain.symm) movementMaps shardIds updatedSet
    have read := slots (Option Unit) 0 (updatedSlot state metric cmp) binId
    rw [lowest] at read
    change ((ExpressionTree.mk tree metricsMap).updated state order (calculation state 1 metric cmp) movementMaps shardIds
      updatedSet).2.lookup binId = if (ExpressionTree.entered state tree movementMaps shardIds).changedChildren (1, binId) = []
        then updatedSet.lookup binId else some () at read
    rw [← entered, UnorderedMap.mem_keys_iff, UnorderedMap.mem_keys_iff, read]
    split
    next idle => simp [idle]
    next occupied => simp [occupied]
  rw [update, update]
  simp

variable {order movementMaps shardIds info}

/-- Every bin that is entered adds its whole weight. -/
theorem canaried_adds (hierarchical : state.Hierarchical) {touched : DomainId → Prop} [DecidablePred touched]
    (overBins : OverBins state domainIds (partialTree state 1 domainIds))
    (shows : Shows state domainIds metric maxDelta multiplier moves (constraint.canaried order state movementMaps shardIds info).1)
    (entered : ∀ binId, (ExpressionTree.entered state (partialTree state 1 domainIds) movementMaps shardIds).changedChildren
      (1, binId) ≠ [] ↔ binId ∈ domainIds ∧ touched binId)
    (occupied : ∀ binId ∈ domainIds, touched binId → binId ∈ state.occupied domainIds moves) :
    (constraint.canaried order state movementMaps shardIds info).2.total = info.total + ∑ binId ∈ domainIds.toFinset,
      (if touched binId then touchedWeight state domainIds metric maxDelta multiplier moves binId else 0) ∧
    ∀ binId ∈ domainIds, (constraint.canaried order state movementMaps shardIds info).2.binWeight binId = info.binWeight binId +
      if touched binId then touchedWeight state domainIds metric maxDelta multiplier moves binId else 0 := by
  obtain ⟨total, bins⟩ := updateWeights_adds order (constraint.canaried order state movementMaps shardIds info).1 info shows.unset
  have updated : ∀ binId, binId ∈ (constraint.canaried order state movementMaps shardIds info).1.domainUpdatedSet.keys ↔
      binId ∈ domainIds ∧ touched binId := by
    intro binId
    have same : constraint.domain = 1 := shows.overBins
    have sameMetric : constraint.metric = metric := shows.sameMetric
    have minTree : constraint.minExpressionTree.assignmentTree = partialTree state 1 domainIds := shows.minTree
    have maxTree : constraint.maxExpressionTree.assignmentTree = partialTree state 1 domainIds := shows.maxTree
    rw [canaried, same, sameMetric, minTree, maxTree]
    exact mem_updatedSet order movementMaps shardIds hierarchical overBins entered _ _ binId
  have weight : ∀ binId ∈ domainIds, touched binId → nodeWeight _ _ binId = _ := fun binId listed touches =>
    shows.nodeWeight hierarchical (occupied binId listed touches)
  constructor
  · refine total.trans (congrArg (info.total + ·) ?_)
    rw [← Finset.sum_filter]
    refine Finset.sum_congr (Finset.ext fun binId => ?_) fun binId member => ?_
    · rw [List.mem_toFinset, updated, Finset.mem_filter, List.mem_toFinset]
    · rw [Finset.mem_filter, List.mem_toFinset] at member
      exact weight binId member.1 member.2
  · intro binId listed
    refine (bins binId).trans (congrArg (info.binWeight binId + ·) ?_)
    simp only [updated, listed, true_and]
    split
    next touches => exact weight binId listed touches
    next => rfl

end Canaried

theorem shows_candidate (hierarchical : state.Hierarchical) (overBins : OverBins state domainIds (partialTree state 1 domainIds))
    (valid : ValidReassignment state moves) {shard nextBin : DomainId} (candidate : Candidate state moves shard nextBin)
    (shows : Shows state domainIds metric maxDelta multiplier moves constraint.rollback) (order : HashOrder) (info : BinWeightInfo) :
    Shows state domainIds metric maxDelta multiplier (moves.addMovements (.addMovement {} shard nextBin))
      (constraint.canaried order state [{}, moves, .addMovement {} shard nextBin] [shard] info).1 := by
  have same : constraint.domain = 1 := shows.overBins
  have sameMetric : constraint.metric = metric := shows.sameMetric
  have minTree : constraint.minExpressionTree.assignmentTree = partialTree state 1 domainIds := shows.minTree
  have maxTree : constraint.maxExpressionTree.assignmentTree = partialTree state 1 domainIds := shows.maxTree
  refine ⟨shows.overBins, shows.overAll, shows.sameMetric, shows.sameDelta, shows.integer, shows.minTree, shows.maxTree, ?_, ?_,
    shows.unset⟩
  · rw [canaried, same, sameMetric, minTree]
    exact measures_candidate order hierarchical overBins valid candidate shows.minimum _
  · rw [canaried, same, sameMetric, maxTree]
    exact measures_candidate order hierarchical overBins valid candidate shows.maximum _

section New
variable (order : HashOrder) (state) (domainIds) (metric) (maxDelta) (info : BinWeightInfo)

def initial (domain : Domain) (faultWeightMultiplier : Int → Int) : LoadBalancingConstraint where
  domain
  loadBalancingDomain := SolvingState.kDomainLimit
  metric
  maxDelta
  faultWeightMultiplier
  minExpressionTree := ⟨partialTree state domain domainIds, .empty⟩
  maxExpressionTree := ⟨partialTree state domain domainIds, .empty⟩
  domainUpdatedSet := ∅
  domainFaultMap := .empty

variable {state} in
theorem new_eq {own : MovementMap} (present : state.movementMap = some own) (domain : Domain) (faultWeightMultiplier : Int → Int)
    (resolves : (partialTree state domain domainIds).Resolves [own]) :
    new order state domain domainIds metric maxDelta faultWeightMultiplier info =
      .ok (((initial state domainIds metric maxDelta domain faultWeightMultiplier).canaried order state [own]
          (order.ids ((partialTree state domain domainIds).getAllDomainIds state.shardDomain)) info).1.commitMoves,
        ((initial state domainIds metric maxDelta domain faultWeightMultiplier).canaried order state [own]
          (order.ids ((partialTree state domain domainIds).getAllDomainIds state.shardDomain)) info).2.commit) := by
  rw [new, minFunc, maxFunc]
  simp only [ExpressionTree.new_eq state (calculates state domain metric _) _ present resolves, Checked.ok_bind]
  rfl

end New

theorem new_adds (hierarchical : state.Hierarchical) (hasBin : (state.assignmentTree.createPartialTree 1 domainIds).HasBin)
    {order : HashOrder} {info weights : BinWeightInfo}
    (made : new order state 1 domainIds metric maxDelta (integerMultiplier multiplier) info = .ok (constraint, weights)) :
    Shows state domainIds metric maxDelta multiplier {} constraint.rollback ∧
    weights.total = info.total + ∑ binId ∈ domainIds.toFinset, (if state.assignmentTree.children 1 binId ≠ [] then
      touchedWeight state domainIds metric maxDelta multiplier {} binId else 0) ∧
    ∀ binId ∈ domainIds, weights.binWeight binId = info.binWeight binId + if state.assignmentTree.children 1 binId ≠ [] then
      touchedWeight state domainIds metric maxDelta multiplier {} binId else 0 := by
  have shards := hierarchical.shardDomain
  have overBins := overBins_partialTree hierarchical hasBin
  rw [new_eq domainIds metric maxDelta order info hierarchical.movementMap 1 _ (overBins.hasBin.resolves _), Except.ok.injEq, Prod.mk.injEq] at made
  obtain ⟨rfl, rfl⟩ := made
  have all := order.ids_perm ((partialTree state 1 domainIds).getAllDomainIds state.shardDomain)
  have measured : ∀ cmp updatedSet, Measures state domainIds metric cmp {} ((ExpressionTree.mk (partialTree state 1 domainIds)
      .empty).updated state order (calculation state 1 metric cmp) [{}]
        (order.ids ((partialTree state 1 domainIds).getAllDomainIds state.shardDomain)) updatedSet).1.metricsMap.get :=
    fun cmp updatedSet => measures_new order hierarchical overBins (by rw [← shards]; exact all) updatedSet
  have shows : Shows state domainIds metric maxDelta multiplier {} ((initial state domainIds metric maxDelta 1
      (integerMultiplier multiplier)).canaried order state [{}]
        (order.ids ((partialTree state 1 domainIds).getAllDomainIds state.shardDomain)) info).1 :=
    ⟨rfl, rfl, rfl, rfl, rfl, rfl, rfl, measured _ _, measured _ _, fun _ => rfl⟩
  have entered : ∀ binId, (ExpressionTree.entered state (partialTree state 1 domainIds) [{}]
      (order.ids ((partialTree state 1 domainIds).getAllDomainIds state.shardDomain))).changedChildren (1, binId) ≠ [] ↔
        binId ∈ domainIds ∧ state.assignmentTree.children 1 binId ≠ [] := by
    intro binId
    rw [entered_initial state overBins.toGrounded shards (by rw [← shards]; exact all), overBins.children]
    simp
  have occupied : ∀ binId ∈ domainIds, state.assignmentTree.children 1 binId ≠ [] → binId ∈ state.occupied domainIds {} := by
    intro binId listed lists
    exact (SolvingState.mem_occupied hierarchical MovementMap.agrees_empty binId).mpr ⟨listed, .inl lists⟩
  obtain ⟨total, bins⟩ := canaried_adds hierarchical overBins shows entered occupied
  refine ⟨shows.committed, (BinWeightInfo.total_commit _).trans total, fun binId listed => ?_⟩
  exact (BinWeightInfo.binWeight_commit _ binId).trans (bins binId listed)

end Shows
end LoadBalancingConstraint
end ShardManager
