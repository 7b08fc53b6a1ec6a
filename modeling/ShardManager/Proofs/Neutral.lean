import ShardManager.Proofs.Surcharge

/-! Moves that no reader can tell from none once they are canaried: where every node over
a moved shard has recorded the value computed for it, nothing is computed anew above, and
what load balancing adds to the weights has to cancel out. -/

namespace ShardManager
open SparseMappingTree

section Kept
variable {σ : Type} (calculation : Calculation σ) (tree : SparseMappingTree) (movementMaps : List MovementMap)
  (recorded : Node → Option Int) (shards : List DomainId)

/-- The value computed for a node over moved shards. -/
def valueOver (node : Node) : Int :=
  calculation.value tree movementMaps node ⟨recorded node, fun child => recorded (tree.shardDomain, child),
    fun child => recorded (tree.shardDomain, child), tree.movedUnder movementMaps shards node⟩

/-- Every node over a moved shard has recorded its value. -/
def Kept : Prop :=
  ∀ node, tree.movedUnder movementMaps shards node ≠ [] →
    recorded node = some (valueOver calculation tree movementMaps recorded shards node)

/-- The parents of the moved shards. -/
def movedOver : List Node := shards.flatMap fun shard => tree.parentNodes tree.shardDomain shard movementMaps

private theorem mem_movedOver {node : Node} :
    node ∈ movedOver tree movementMaps shards ↔ tree.movedUnder movementMaps shards node ≠ [] := by
  rw [movedOver, SparseMappingTree.movedUnder, List.mem_flatMap, ne_eq, List.flatMap_eq_nil_iff]
  push Not
  simp only [ne_eq, List.replicate_eq_nil_iff, List.count_eq_zero, not_not]

instance : Decidable (Kept calculation tree movementMaps recorded shards) :=
  decidable_of_iff (∀ node ∈ movedOver tree movementMaps shards,
      recorded node = some (valueOver calculation tree movementMaps recorded shards node))
    (forall_congr' fun _ => imp_congr_left (mem_movedOver tree movementMaps shards))

variable {calculation tree movementMaps recorded shards} {state : SolvingState} {level : Nat → Domain}

private theorem renewed_moved (unordered : calculation.Unordered) (layered : Layered tree level) (sameShards : tree.shardDomain = state.shardDomain)
    {node : Node} (moved : tree.movedUnder movementMaps shards node ≠ []) :
    renewed calculation tree movementMaps recorded shards node =
      some (valueOver calculation tree movementMaps recorded shards node) := by
  have lowest : ∀ node, tree.movedUnder movementMaps shards node ≠ [] → node.1 = level 0 ∧ tree.Mapped node :=
    fun node => movedUnder_lowest layered sameShards
  obtain ⟨inLowest, mapped⟩ := lowest node moved
  obtain ⟨childDomain, found⟩ := Option.isSome_iff_exists.mp mapped.1
  obtain rfl : childDomain = tree.shardDomain := layered.below childDomain (inLowest ▸ found)
  have shard : ∀ child, (renewal calculation tree movementMaps recorded shards node.1 (tree.shardDomain, child)).or
      (recorded (tree.shardDomain, child)) = recorded (tree.shardDomain, child) := by
    intro child
    rw [renewal_outside layered lowest node.1 (tree.shardDomain, child) fun index => (layered.shards index).symm, Option.none_or]
  refine renewal_changed unordered found shard moved ?_
  rw [List.filter_eq_nil_iff.mpr, List.append_nil]
  simp

private theorem moved_of_mem_entered (sameShards : tree.shardDomain = state.shardDomain) {shardIds : List DomainId} (same : shardIds.Perm shards)
    {node : Node} (member : node ∈ (ExpressionTree.entered state tree movementMaps shardIds).keys) :
    tree.movedUnder movementMaps shards node ≠ [] := by
  intro none
  have changed : ((ExpressionTree.entered state tree movementMaps shardIds).changedChildren node).Perm
      (tree.movedUnder movementMaps shards node) := movedUnder_entered sameShards same node
  rw [none, List.perm_nil] at changed
  exact (ExpressionTree.proper_entered state tree movementMaps shardIds node).mp member changed

/-- An update changes nothing but the context if the nodes over the moved shards have
recorded their values. -/
private theorem ExpressionTree.updated_same (order : HashOrder) (unordered : calculation.Unordered) (layered : Layered tree level)
    (sameShards : tree.shardDomain = state.shardDomain) {metricsMap : MetricsMap} (before : ∀ node, metricsMap.get node = recorded node)
    (committed : ∀ node, metricsMap.getFromCommittedMap node = recorded node) {shardIds : List DomainId} (same : shardIds.Perm shards)
    (kept : Kept calculation tree movementMaps recorded shards) (context : σ) :
    (ExpressionTree.mk tree metricsMap).updated state order calculation movementMaps shardIds context =
      (⟨tree, metricsMap⟩, (order.nodes (entered state tree movementMaps shardIds).keys).foldl
        (fun context node => calculation.effect node (valueOver calculation tree movementMaps recorded shards node) context) context) := by
  refine updated_kept state order metricsMap shardIds context ?_ ?_
  · intro node member
    obtain ⟨inLowest, mapped⟩ := movedUnder_lowest layered sameShards (moved_of_mem_entered sameShards same member)
    obtain ⟨childDomain, found⟩ := Option.isSome_iff_exists.mp mapped.1
    obtain rfl : childDomain = tree.shardDomain := layered.below childDomain (inLowest ▸ found)
    rw [MetricsMap.reading, found, Option.getD_some, unordered _ _ _ _ _ (movedUnder_entered sameShards same node)]
    simp only [before, committed]
    rfl
  · intro node member
    rw [before]
    exact kept node (moved_of_mem_entered sameShards same member)

end Kept

private theorem FaultRecord.record_same (state : SolvingState) {domain : Domain} {node : Node} {currentWeight : Int} {record : FaultRecord}
    (recorded : node.1 = domain → record.domainFaultMap.get node.2 = some currentWeight) :
    (record.record state domain node currentWeight).domainFaultMap.get = record.domainFaultMap.get ∧
      (record.record state domain node currentWeight).binWeightInfo = record.binWeightInfo := by
  unfold FaultRecord.record
  split
  next here =>
    have shown := recorded here
    simp only [shown, Option.getD_some, sub_self, if_true, and_true]
    funext domainId
    rw [CommittableMap.get_set_canary]
    split
    next same => rw [same, shown]
    next => rfl
  next => exact ⟨rfl, rfl⟩

namespace Counter
variable (movementMaps : List MovementMap) (shards : List DomainId) (counter : Counter)

/-- The nodes over the moved shards have recorded the values computed for them, and their faults. -/
def Keeps : Prop :=
  Kept counter.calculation counter.part movementMaps counter.metric shards ∧
    ∀ domainId, counter.part.movedUnder movementMaps shards (counter.domain, domainId) ≠ [] →
      counter.faults domainId =
        some (counter.fault (valueOver counter.calculation counter.part movementMaps counter.metric shards (counter.domain, domainId)))

instance : Decidable (counter.Keeps movementMaps shards) :=
  @instDecidableAnd _ _ _ (decidable_of_iff (∀ node ∈ movedOver counter.part movementMaps shards, node.1 = counter.domain →
      counter.faults node.2 = some (counter.fault (valueOver counter.calculation counter.part movementMaps counter.metric shards node)))
    ⟨fun recorded domainId moved => recorded (counter.domain, domainId) ((mem_movedOver _ _ _).mpr moved) rfl, by
      rintro recorded ⟨domain, domainId⟩ member rfl
      exact recorded domainId ((mem_movedOver _ _ _).mp member)⟩)

variable {movementMaps shards counter} {state : SolvingState} {level : Nat → Domain}

private theorem keeps_of_same (layers : HasLayers counter.part counter.domain level) (shardDomain : state.shardDomain = 0)
    (unordered : counter.calculation.Unordered)
    (metrics : ∀ node, (counter.anew movementMaps shards node).or (counter.metric node) = counter.metric node)
    (faults : ∀ domainId, ((counter.anew movementMaps shards (counter.domain, domainId)).map counter.fault).or (counter.faults domainId) =
      counter.faults domainId) : counter.Keeps movementMaps shards := by
  have anew : ∀ {node : Node}, counter.part.movedUnder movementMaps shards node ≠ [] → counter.anew movementMaps shards node =
      some (valueOver counter.calculation counter.part movementMaps counter.metric shards node) :=
    fun moved => renewed_moved unordered layers.layered (layers.shards.trans shardDomain.symm) moved
  refine ⟨fun node moved => ?_, fun domainId moved => ?_⟩
  · rw [← metrics, anew moved]
    rfl
  · rw [← faults, anew moved]
    rfl

/-- A canary of moves that keep everything changes neither the counter nor the weights. -/
private theorem canaried_kept (order : HashOrder) (layers : HasLayers counter.part counter.domain level) (shardDomain : state.shardDomain = 0)
    (unordered : counter.calculation.Unordered) (records : RecordsValue counter.calculation state counter.domain counter.fault)
    {shardIds : List DomainId} (same : shardIds.Perm shards) (info : BinWeightInfo) (keeps : counter.Keeps movementMaps shards) :
    let after := counter.canaried order state movementMaps shardIds info
    after.1.committed.metric = counter.metric ∧ after.1.committed.faults = counter.faults ∧ after.2 = info := by
  intro after
  have sameShards := layers.shards.trans shardDomain.symm
  have updated := ExpressionTree.updated_same order unordered layers.layered sameShards
    (fun node => CommittableMap.get_clear counter.expressionTree.metricsMap node) (fun node => CommittableMap.committed_clear _ node)
    same keeps.1 (⟨counter.domainFaultMap.clear, info⟩ : FaultRecord)
  simp only [after, metric_committed, faults_committed, canaried, updated]
  refine ⟨funext (CommittableMap.get_clear counter.expressionTree.metricsMap), ?_⟩
  refine Checked.foldl_invariant
    (fun _ (record : FaultRecord) => record.domainFaultMap.get = counter.faults ∧ record.binWeightInfo = info) ?_
    ⟨funext (CommittableMap.get_clear counter.domainFaultMap), rfl⟩
  rintro handled node rest split record ⟨faults, weights⟩
  have moved : counter.part.movedUnder movementMaps shards node ≠ [] :=
    moved_of_mem_entered sameShards same ((order.nodes_perm _).mem_iff.mp (by rw [split]; simp))
  have recorded : node.1 = counter.domain → record.domainFaultMap.get node.2 =
      some (counter.fault (valueOver counter.calculation counter.part movementMaps counter.metric shards node)) := by
    obtain ⟨domain, domainId⟩ := node
    rintro rfl
    rw [faults]
    exact keeps.2 domainId moved
  obtain ⟨sameFaults, sameWeights⟩ := FaultRecord.record_same state recorded
  rw [records.effect]
  exact ⟨sameFaults.trans faults, sameWeights.trans weights⟩

private theorem surcharge_kept (order : HashOrder) (layers : HasLayers counter.part counter.domain level) (shardDomain : state.shardDomain = 0)
    (unordered : counter.calculation.Unordered) (records : RecordsValue counter.calculation state counter.domain counter.fault)
    (keeps : counter.Keeps movementMaps shards) (domainId : DomainId) : counter.surcharge movementMaps shards domainId = 0 := by
  obtain ⟨_, anew⟩ := canaried_anew order layers shardDomain unordered records (.refl shards) .empty
  obtain ⟨_, faults, _⟩ := canaried_kept order layers shardDomain unordered records (.refl shards) .empty keeps
  rw [surcharge_eq, ← anew, faults, sub_self]

end Counter

private theorem BinWeightInfo.foldl_addBinWeight_present (info : BinWeightInfo) (change : DomainId → Int) (domainIds : List DomainId) :
    let final := domainIds.foldl (fun info domainId => info.addBinWeight domainId (change domainId)) info
    (final.totalWeight.get.isSome ↔ info.totalWeight.get.isSome ∨ domainIds ≠ []) ∧
    ∀ binId, (final.binWeightMap.get binId).isSome ↔ (info.binWeightMap.get binId).isSome ∨ binId ∈ domainIds := by
  induction domainIds generalizing info with
  | nil => simp
  | cons domainId domainIds ih =>
    obtain ⟨total, bins⟩ := ih (info.addBinWeight domainId (change domainId))
    refine ⟨total.trans ?_, fun binId => (bins binId).trans ?_⟩
    · simp [addBinWeight, addTotalWeight]
    · have written : (info.addBinWeight domainId (change domainId)).binWeightMap.get binId =
          if binId = domainId then some ((info.binWeightMap.get domainId).getD 0 + change domainId)
          else info.binWeightMap.get binId := CommittableMap.get_set_canary _ _ _ _
      rw [written]
      by_cases here : binId = domainId <;> simp [here]

namespace LoadBalancingConstraint
variable (state : SolvingState) (movementMaps : List MovementMap) (shards : List DomainId) (constraint : LoadBalancingConstraint)

/-- The nodes over the moved shards have recorded the least and the greatest load computed for them. -/
def Keeps : Prop :=
  Kept (calculation state constraint.domain constraint.metric fun a b => decide (a < b))
      constraint.minExpressionTree.assignmentTree movementMaps constraint.minExpressionTree.metricsMap.getFromCommittedMap shards ∧
    Kept (calculation state constraint.domain constraint.metric fun a b => decide (a > b))
      constraint.maxExpressionTree.assignmentTree movementMaps constraint.maxExpressionTree.metricsMap.getFromCommittedMap shards

instance : Decidable (constraint.Keeps state movementMaps shards) := inferInstanceAs (Decidable (_ ∧ _))

variable {state movementMaps shards constraint} {tree : SparseMappingTree} {level : Nat → Domain}
  (minTree : constraint.minExpressionTree.assignmentTree = tree) (maxTree : constraint.maxExpressionTree.assignmentTree = tree)
include minTree maxTree

/-- A canary shows the recorded values exactly if the moves keep them. -/
private theorem canaried_same_iff (order : HashOrder) (layers : HasLayers tree constraint.domain level) (shardDomain : state.shardDomain = 0)
    {shardIds : List DomainId} (same : shardIds.Perm shards) (info : BinWeightInfo) :
    let after := (constraint.canaried order state movementMaps shardIds info).1
    (after.minExpressionTree.metricsMap.get = constraint.minExpressionTree.metricsMap.getFromCommittedMap ∧
      after.maxExpressionTree.metricsMap.get = constraint.maxExpressionTree.metricsMap.getFromCommittedMap) ↔
        constraint.Keeps state movementMaps shards := by
  intro after
  obtain ⟨minimum, maximum, _⟩ := canaried_anew minTree maxTree order layers shardDomain same info
  have sameShards := layers.shards.trans shardDomain.symm
  have kept : ∀ (cmp : Int → Int → Bool) {recorded shown : Node → Option Int},
      (∀ node, shown node = (renewed (calculation state constraint.domain constraint.metric cmp) tree movementMaps recorded shards node).or
        (recorded node)) → shown = recorded →
          Kept (calculation state constraint.domain constraint.metric cmp) tree movementMaps recorded shards := by
    rintro cmp recorded shown anew rfl node moved
    rw [anew, renewed_moved (unordered state constraint.domain constraint.metric cmp) layers.layered sameShards moved]
    rfl
  have still : ∀ (cmp : Int → Int → Bool) {metricsMap : MetricsMap},
      Kept (calculation state constraint.domain constraint.metric cmp) tree movementMaps metricsMap.getFromCommittedMap shards →
        ∀ updatedSet, ((ExpressionTree.mk tree metricsMap.clear).updated state order
          (calculation state constraint.domain constraint.metric cmp) movementMaps shardIds updatedSet).1.metricsMap.get =
            metricsMap.getFromCommittedMap := by
    intro cmp metricsMap kept updatedSet
    rw [ExpressionTree.updated_same order (unordered state constraint.domain constraint.metric cmp) layers.layered sameShards
      (fun node => CommittableMap.get_clear metricsMap node) (fun node => CommittableMap.committed_clear metricsMap node) same kept]
    exact funext (CommittableMap.get_clear metricsMap)
  constructor
  · rintro ⟨least, greatest⟩
    refine ⟨?_, ?_⟩
    · rw [minTree]
      exact kept _ (minTree ▸ minimum) least
    · rw [maxTree]
      exact kept _ (maxTree ▸ maximum) greatest
  · rintro ⟨least, greatest⟩
    rw [minTree] at least
    rw [maxTree] at greatest
    obtain ⟨_, _, _, _, _, ⟨lower, minMetrics⟩, ⟨upper, maxMetrics⟩, _, _⟩ := constraint
    obtain rfl : lower = tree := minTree
    obtain rfl : upper = lower := maxTree
    exact ⟨still _ least _, still _ greatest _⟩

/-- The weights that are present after a canary are those of the nodes that are weighed. -/
private theorem canaried_present (order : HashOrder) (layers : HasLayers tree constraint.domain level) (shardDomain : state.shardDomain = 0)
    {shardIds : List DomainId} (same : shardIds.Perm shards) (info : BinWeightInfo) :
    let final := (constraint.canaried order state movementMaps shardIds info).2
    (final.totalWeight.get.isSome ↔ info.totalWeight.get.isSome ∨ ∃ domainId, constraint.Weighed state movementMaps shards domainId) ∧
    ∀ binId, (final.binWeightMap.get binId).isSome ↔
      (info.binWeightMap.get binId).isSome ∨ constraint.Weighed state movementMaps shards binId := by
  intro final
  obtain ⟨_, _, updated⟩ := canaried_anew minTree maxTree order layers shardDomain same info
  have visited := order.ids_perm (constraint.canaried order state movementMaps shardIds info).1.domainUpdatedSet.keys
  obtain ⟨total, bins⟩ := BinWeightInfo.foldl_addBinWeight_present info
    (fun domainId =>
      (constraint.canaried order state movementMaps shardIds info).1.nodeWeight
          (((constraint.canaried order state movementMaps shardIds info).1.minExpressionTree.metricsMap.get
            (constraint.loadBalancingDomain, 0)).getD 0) domainId -
        ((constraint.canaried order state movementMaps shardIds info).1.domainFaultMap.get domainId).getD 0)
    (order.ids (constraint.canaried order state movementMaps shardIds info).1.domainUpdatedSet.keys)
  refine ⟨total.trans (or_congr_right ?_), fun binId => (bins binId).trans (or_congr_right ?_)⟩
  · constructor
    · intro some
      obtain ⟨domainId, member⟩ := List.exists_mem_of_ne_nil _ some
      exact ⟨domainId, (updated domainId).mp (visited.mem_iff.mp member)⟩
    · rintro ⟨domainId, weighed⟩
      exact List.ne_nil_of_mem (visited.mem_iff.mpr ((updated domainId).mpr weighed))
  · exact visited.mem_iff.trans (updated binId)

end LoadBalancingConstraint

namespace Constraint
variable (state : SolvingState) (movementMaps : List MovementMap) (shards : List DomainId)

/-- The nodes over the moved shards have recorded what is computed for them. -/
def Keeps (constraint : Constraint) : Prop :=
  match constraint with
  | .loadBalancing constraint => constraint.Keeps state movementMaps shards
  | counted => (counted.counter state).elim True fun counter => counter.Keeps movementMaps shards

/-- The constraint weighs the node whether or not its load has changed. -/
def Weighs (constraint : Constraint) (domainId : DomainId) : Prop :=
  match constraint with
  | .loadBalancing constraint => constraint.Weighed state movementMaps shards domainId
  | _ => False

instance : ∀ constraint, Decidable (Keeps state movementMaps shards constraint)
  | .metric _ | .drain _ => inferInstanceAs (Decidable (Counter.Keeps _ _ _))
  | .loadBalancing constraint => inferInstanceAs (Decidable (constraint.Keeps _ _ _))

instance (domainId : DomainId) : ∀ constraint, Decidable (Weighs state movementMaps shards constraint domainId)
  | .metric _ | .drain _ => inferInstanceAs (Decidable False)
  | .loadBalancing constraint => inferInstanceAs (Decidable (constraint.Weighed _ _ _ _))

/-- The nodes that a constraint can weigh. -/
def domainIds (constraint : Constraint) : List DomainId :=
  constraint.trees.flatMap fun tree => tree.getAllDomainIds constraint.domain

variable {state movementMaps shards} {arguments : Arguments} {constraint after : Constraint} {committedMoves canariedMoves : MovementMap}
  {order : HashOrder} {info final : BinWeightInfo}

theorem Weighs.listed {domainId : DomainId} (weighs : constraint.Weighs state movementMaps shards domainId) :
    domainId ∈ constraint.domainIds := by
  cases constraint with
  | metric | drain => exact weighs.elim
  | loadBalancing balance =>
    rw [domainIds, trees, List.flatMap_cons, List.flatMap_singleton]
    exact List.mem_append.mpr (LoadBalancingConstraint.Weighed.listed weighs)

theorem surcharge_listed {domainId : DomainId} (some : constraint.surcharge state movementMaps shards domainId ≠ 0) :
    domainId ∈ constraint.domainIds := by
  cases constraint with
  | metric | drain =>
    rw [domainIds, trees, List.flatMap_singleton]
    exact Counter.surcharge_listed some
  | loadBalancing balance =>
    have weighed : balance.Weighed state movementMaps shards domainId := by
      by_contra idle
      exact some (if_neg idle)
    rw [domainIds, trees, List.flatMap_cons, List.flatMap_singleton]
    exact List.mem_append.mpr weighed.listed

@[simp] theorem keeps_rollback (constraint : Constraint) :
    (LawfulConstraint.rollback constraint).Keeps state movementMaps shards ↔ constraint.Keeps state movementMaps shards := by
  cases constraint <;> rfl

@[simp] theorem weighs_rollback (constraint : Constraint) (domainId : DomainId) :
    (LawfulConstraint.rollback constraint).Weighs state movementMaps shards domainId ↔
      constraint.Weighs state movementMaps shards domainId := by
  cases constraint <;> rfl

private theorem keeps_counter {counter : Counter} (found : constraint.counter state = some counter) :
    constraint.Keeps state movementMaps shards ↔ counter.Keeps movementMaps shards := by
  cases constraint with
  | metric | drain =>
    cases found
    rfl
  | loadBalancing => cases found

section Canaried
variable (numbered : state.Numbered) (hasBin : (arguments.tree state).HasBin) (built : Built state arguments constraint)
include numbered hasBin built

/-- A canary shows the recorded metrics and faults exactly if the moves keep them. -/
private theorem Built.identical_iff
    (canaried : ConstraintOps.canaryMoves order state (some committedMoves) (some canariedMoves) constraint info = .ok (after, final)) :
    Identical after (LawfulConstraint.rollback constraint) ↔
      constraint.Keeps state [{}, committedMoves, canariedMoves] canariedMoves.getAllMovements.keys := by
  rcases built.canary_cases numbered hasBin canaried with
    ⟨counter, level, found, layers, unordered, records, afterFound, _⟩ | ⟨balance, level, rfl, layers, minTree, maxTree, rfl, _⟩
  · have same := order.ids_perm canariedMoves.getAllMovements.keys
    obtain ⟨metrics, faults, _⟩ := shown_counter afterFound
    obtain ⟨_, _, recorded, recordedFaults⟩ := shown_counter found
    rw [keeps_counter found]
    constructor
    · rintro ⟨sameMetrics, sameFaults⟩
      rw [metrics, recorded, List.singleton_inj] at sameMetrics
      rw [faults, recordedFaults] at sameFaults
      obtain ⟨anew, anewFaults⟩ := Counter.canaried_anew order layers numbered.shardDomain unordered records same info
      refine Counter.keeps_of_same layers numbered.shardDomain unordered (fun node => ?_) fun domainId => ?_
      · exact (anew node).symm.trans (congrFun sameMetrics node)
      · exact (anewFaults domainId).symm.trans (congrFun sameFaults domainId)
    · intro keeps
      obtain ⟨sameMetrics, sameFaults, _⟩ := Counter.canaried_kept order layers numbered.shardDomain unordered records same info keeps
      exact ⟨by rw [metrics, recorded, sameMetrics], by rw [faults, recordedFaults, sameFaults]⟩
  · refine Iff.trans ?_ (LoadBalancingConstraint.canaried_same_iff minTree maxTree order layers numbered.shardDomain
      (order.ids_perm _) info)
    have recorded : ∀ metricsMap : MetricsMap, metricsMap.clear.get = metricsMap.getFromCommittedMap :=
      fun metricsMap => funext (CommittableMap.get_clear metricsMap)
    have trees : (LawfulConstraint.rollback (loadBalancing balance)).metrics =
        [balance.minExpressionTree.metricsMap.getFromCommittedMap, balance.maxExpressionTree.metricsMap.getFromCommittedMap] :=
      congrArg₂ (fun least most => [least, most]) (recorded _) (recorded _)
    constructor
    · rintro ⟨same, _⟩
      rw [trees] at same
      obtain ⟨least, rest⟩ := List.cons.inj same
      exact ⟨least, List.singleton_inj.mp rest⟩
    · rintro ⟨least, greatest⟩
      refine ⟨?_, rfl⟩
      rw [trees, metrics, least, greatest]

/-- A canary of moves that keep everything gives a weight only to what load balancing weighs. -/
private theorem Built.keeps_present
    (canaried : ConstraintOps.canaryMoves order state (some committedMoves) (some canariedMoves) constraint info = .ok (after, final))
    (keeps : constraint.Keeps state [{}, committedMoves, canariedMoves] canariedMoves.getAllMovements.keys) :
    let weighs := constraint.Weighs state [{}, committedMoves, canariedMoves] canariedMoves.getAllMovements.keys
    (final.totalWeight.get.isSome ↔ info.totalWeight.get.isSome ∨ ∃ domainId, weighs domainId) ∧
    ∀ binId, (final.binWeightMap.get binId).isSome ↔ (info.binWeightMap.get binId).isSome ∨ weighs binId := by
  intro weighs
  rcases built.canary_cases numbered hasBin canaried with
    ⟨counter, level, found, layers, unordered, records, _, weights⟩ | ⟨balance, level, rfl, layers, minTree, maxTree, _, rfl⟩
  · obtain ⟨_, _, same⟩ := Counter.canaried_kept order layers numbered.shardDomain unordered records (order.ids_perm _) info
      ((keeps_counter found).mp keeps)
    obtain rfl : final = info := weights.trans same
    have none : ∀ domainId, ¬ weighs domainId := by
      intro domainId
      cases constraint with
      | metric | drain => exact id
      | loadBalancing => cases found
    simp [none]
  · exact LoadBalancingConstraint.canaried_present minTree maxTree order layers numbered.shardDomain (order.ids_perm _) info

/-- Moves that keep everything add to a bin what load balancing adds. -/
private theorem Built.added_binWeight
    (keeps : constraint.Keeps state [{}, committedMoves, canariedMoves] canariedMoves.getAllMovements.keys) (binId : DomainId) :
    (constraint.added order state committedMoves canariedMoves).binWeight binId =
      constraint.surcharge state [{}, committedMoves, canariedMoves] canariedMoves.getAllMovements.keys binId := by
  obtain ⟨_, canaried⟩ := built.canaried_added numbered hasBin order committedMoves canariedMoves
  rcases built.canary_cases numbered hasBin canaried with
    ⟨counter, level, found, layers, unordered, records, _, weights⟩ | ⟨balance, level, rfl, layers, minTree, maxTree, _, weights⟩
  · have kept := (keeps_counter found).mp keeps
    obtain ⟨_, _, same⟩ := Counter.canaried_kept order layers numbered.shardDomain unordered records (order.ids_perm _) .empty kept
    rw [weights, same, surcharge_counter found, Counter.surcharge_kept order layers numbered.shardDomain unordered records kept]
    rfl
  · rw [weights]
    exact ((LoadBalancingConstraint.canaried_surcharge minTree maxTree order layers numbered.shardDomain (order.ids_perm _) .empty).2
      binId).trans (zero_add _)

end Canaried
end Constraint

namespace IterativeLocalSearch
variable {ι : Type} (state : SolvingState) (constraints : List ι) (world : World ι Constraint) (committedMoves canariedMoves : MovementMap)

/-- Moves after which nothing shows: all constraints keep their metrics and faults, what load
balancing adds cancels out for the total and for every bin, and it adds to no weight that
is absent. -/
structure Neutral : Prop where
  keeps : ∀ constraint ∈ constraints,
    (world.objects constraint).Keeps state [{}, committedMoves, canariedMoves] canariedMoves.getAllMovements.keys
  total : (constraints.map fun constraint =>
    (world.objects constraint).surcharges state [{}, committedMoves, canariedMoves] canariedMoves.getAllMovements.keys).sum = 0
  bins : ∀ binId, (constraints.map fun constraint =>
    (world.objects constraint).surcharge state [{}, committedMoves, canariedMoves] canariedMoves.getAllMovements.keys binId).sum = 0
  present : ∀ constraint ∈ constraints, ∀ binId,
    (world.objects constraint).Weighs state [{}, committedMoves, canariedMoves] canariedMoves.getAllMovements.keys binId →
      world.binWeightInfo.totalWeight.committedVal.isSome ∧ (world.binWeightInfo.binWeightMap.getFromCommittedMap binId).isSome

instance : Decidable (Neutral state constraints world committedMoves canariedMoves) :=
  decidable_of_iff
    ((∀ constraint ∈ constraints,
        (world.objects constraint).Keeps state [{}, committedMoves, canariedMoves] canariedMoves.getAllMovements.keys) ∧
      (constraints.map fun constraint =>
        (world.objects constraint).surcharges state [{}, committedMoves, canariedMoves] canariedMoves.getAllMovements.keys).sum = 0 ∧
      (∀ binId ∈ constraints.flatMap fun constraint => (world.objects constraint).domainIds, (constraints.map fun constraint =>
        (world.objects constraint).surcharge state [{}, committedMoves, canariedMoves] canariedMoves.getAllMovements.keys binId).sum = 0) ∧
      ∀ constraint ∈ constraints, ∀ binId ∈ (world.objects constraint).domainIds,
        (world.objects constraint).Weighs state [{}, committedMoves, canariedMoves] canariedMoves.getAllMovements.keys binId →
          world.binWeightInfo.totalWeight.committedVal.isSome ∧ (world.binWeightInfo.binWeightMap.getFromCommittedMap binId).isSome)
    ⟨fun ⟨keeps, total, bins, present⟩ => by
      refine ⟨keeps, total, fun binId => ?_, fun constraint member binId weighs => present constraint member binId weighs.listed weighs⟩
      by_contra some
      obtain ⟨change, mapped, different⟩ := List.exists_mem_ne_zero_of_sum_ne_zero some
      obtain ⟨constraint, member, rfl⟩ := List.mem_map.mp mapped
      exact some (bins binId (List.mem_flatMap.mpr ⟨constraint, member, Constraint.surcharge_listed different⟩)),
    fun ⟨keeps, total, bins, present⟩ =>
      ⟨keeps, total, fun binId _ => bins binId, fun constraint member binId _ => present constraint member binId⟩⟩

variable {state constraints world committedMoves canariedMoves} [DecidableEq ι] {order : HashOrder} {after : World ι Constraint}
  (numbered : state.Numbered) (moves : canariedMoves.getAllMovements.keys ≠ [])
include numbered moves

/-- Evaluating moves that keep everything gives a weight only to what load balancing weighs. -/
private theorem updateWeights_present {first : World ι Constraint} (built : EachBuilt state constraints world)
    (updated : updateWeights order state constraints committedMoves canariedMoves first = .ok after)
    (alike : ∀ constraint ∈ constraints,
      LawfulConstraint.rollback (first.objects constraint) = LawfulConstraint.rollback (world.objects constraint))
    (keeps : ∀ constraint ∈ constraints,
      (world.objects constraint).Keeps state [{}, committedMoves, canariedMoves] canariedMoves.getAllMovements.keys) :
    let weighs := fun constraint =>
      (world.objects constraint).Weighs state [{}, committedMoves, canariedMoves] canariedMoves.getAllMovements.keys
    (after.binWeightInfo.totalWeight.get.isSome ↔
      first.binWeightInfo.totalWeight.get.isSome ∨ ∃ constraint ∈ constraints, ∃ binId, weighs constraint binId) ∧
    ∀ binId, (after.binWeightInfo.binWeightMap.get binId).isSome ↔
      (first.binWeightInfo.binWeightMap.get binId).isSome ∨ ∃ constraint ∈ constraints, weighs constraint binId := by
  intro weighs
  induction constraints generalizing first with
  | nil =>
    cases updated
    simp
  | cons constraint constraints ih =>
    rw [updateWeights, List.foldlM_cons] at updated
    obtain ⟨middle, turn, rest⟩ := Checked.bind_ok updated
    obtain ⟨⟨object, info⟩, canaried, turn⟩ := Checked.bind_ok turn
    cases turn
    have here := alike constraint (by simp)
    obtain ⟨arguments, own⟩ := built constraint (by simp)
    have ownBuilt : Constraint.Built state arguments (first.objects constraint) := by
      rw [Constraint.Built, ← Constraint.bare_rollback, here, Constraint.bare_rollback]
      exact own
    have ownKeeps : (first.objects constraint).Keeps state [{}, committedMoves, canariedMoves] canariedMoves.getAllMovements.keys := by
      rw [← Constraint.keeps_rollback, here, Constraint.keeps_rollback]
      exact keeps constraint (by simp)
    have hasBin := ownBuilt.hasBin_of_canaryMoves numbered moves canaried
    obtain ⟨total, bins⟩ := ownBuilt.keeps_present numbered hasBin canaried ownKeeps
    have ownWeighs : ∀ binId, (first.objects constraint).Weighs state [{}, committedMoves, canariedMoves]
        canariedMoves.getAllMovements.keys binId ↔ weighs constraint binId := by
      intro binId
      rw [← Constraint.weighs_rollback, here, Constraint.weighs_rollback]
    obtain ⟨kept, _⟩ := LawfulConstraint.rollback_canaryMoves _ _ _ _ _ _ _ _ canaried
    have still : ∀ other ∈ constraints, LawfulConstraint.rollback (Function.update first.objects constraint object other) =
        LawfulConstraint.rollback (world.objects other) := by
      intro other member
      by_cases same : other = constraint
      · subst same
        rw [Function.update_self, kept, here]
      · rw [Function.update_of_ne same]
        exact alike other (by simp [member])
    obtain ⟨restTotal, restBins⟩ := ih (fun other member => built other (by simp [member])) rest still
      (fun other member => keeps other (by simp [member]))
    simp only [ownWeighs] at total bins
    refine ⟨?_, fun binId => ?_⟩
    · rw [restTotal, total, List.exists_mem_cons_iff, or_assoc]
    · rw [restBins, bins, List.exists_mem_cons_iff, or_assoc]

private theorem EachBuilt.evaluate_present (built : EachBuilt state constraints world)
    (keeps : ∀ constraint ∈ constraints,
      (world.objects constraint).Keeps state [{}, committedMoves, canariedMoves] canariedMoves.getAllMovements.keys)
    (evaluated : evaluate order state constraints committedMoves canariedMoves world = .ok after) :
    let weighs := fun constraint =>
      (world.objects constraint).Weighs state [{}, committedMoves, canariedMoves] canariedMoves.getAllMovements.keys
    (after.binWeightInfo.totalWeight.get.isSome ↔
      world.binWeightInfo.totalWeight.committedVal.isSome ∨ ∃ constraint ∈ constraints, ∃ binId, weighs constraint binId) ∧
    ∀ binId, (after.binWeightInfo.binWeightMap.get binId).isSome ↔
      (world.binWeightInfo.binWeightMap.getFromCommittedMap binId).isSome ∨ ∃ constraint ∈ constraints, weighs constraint binId := by
  intro weighs
  have updated : updateWeights order state constraints committedMoves canariedMoves ⟨world.objects, world.binWeightInfo.clear⟩ =
    .ok after := evaluated
  obtain ⟨total, bins⟩ := updateWeights_present numbered moves built updated (fun _ _ => rfl) keeps
  refine ⟨total, fun binId => (bins binId).trans ?_⟩
  rw [BinWeightInfo.clear, CommittableMap.get_clear]

/-- After an evaluation, everything shows its committed version exactly if the moves are neutral. -/
theorem EachBuilt.evaluate_neutral_iff (built : EachBuilt state constraints world)
    (evaluated : evaluate order state constraints committedMoves canariedMoves world = .ok after) :
    (after.binWeightInfo.totalWeight.get = world.binWeightInfo.totalWeight.committedVal ∧
      (∀ binId, after.binWeightInfo.binWeightMap.get binId = world.binWeightInfo.binWeightMap.getFromCommittedMap binId) ∧
      ∀ constraint ∈ constraints,
        (after.objects constraint).Identical (LawfulConstraint.rollback (world.objects constraint))) ↔
      Neutral state constraints world committedMoves canariedMoves := by
  have options : ∀ {first second : Option Int}, first = second ↔ first.getD 0 = second.getD 0 ∧ (first.isSome ↔ second.isSome) := by
    intro first second
    cases first <;> cases second <;> simp
  have each : ∀ constraint ∈ constraints, ∃ arguments info final, Constraint.Built state arguments (world.objects constraint) ∧
      (arguments.tree state).HasBin ∧ ConstraintOps.canaryMoves order state (some committedMoves) (some canariedMoves)
        (world.objects constraint) info = .ok (after.objects constraint, final) := by
    intro constraint member
    obtain ⟨arguments, own⟩ := built constraint member
    obtain ⟨info, final, canaried⟩ := evaluate_target evaluated member
    exact ⟨arguments, info, final, own, own.hasBin_of_canaryMoves numbered moves canaried, canaried⟩
  have identical : ∀ constraint ∈ constraints, (after.objects constraint).Identical (LawfulConstraint.rollback (world.objects constraint)) ↔
      (world.objects constraint).Keeps state [{}, committedMoves, canariedMoves] canariedMoves.getAllMovements.keys := by
    intro constraint member
    obtain ⟨_, _, _, own, hasBin, canaried⟩ := each constraint member
    exact own.identical_iff numbered hasBin canaried
  have total : after.binWeightInfo.total = totalFor state constraints world committedMoves canariedMoves :=
    built.evaluate_total numbered moves evaluated
  have bins : (∀ constraint ∈ constraints, (world.objects constraint).Keeps state [{}, committedMoves, canariedMoves]
      canariedMoves.getAllMovements.keys) → ∀ binId, after.binWeightInfo.binWeight binId = world.binWeightInfo.committedBinWeight binId +
        (constraints.map fun constraint => (world.objects constraint).surcharge state [{}, committedMoves, canariedMoves]
          canariedMoves.getAllMovements.keys binId).sum := by
    intro keeps binId
    refine ((evaluate_added evaluated).2 binId).trans (congrArg (_ + List.sum ·) (List.map_congr_left fun constraint member => ?_))
    obtain ⟨_, _, _, own, hasBin, _⟩ := each constraint member
    exact own.added_binWeight numbered hasBin (keeps constraint member) binId
  have present : (∀ constraint ∈ constraints, (world.objects constraint).Keeps state [{}, committedMoves, canariedMoves]
      canariedMoves.getAllMovements.keys) → _ := fun keeps => built.evaluate_present numbered moves keeps evaluated
  constructor
  · rintro ⟨sameTotal, sameBins, same⟩
    have keeps := fun constraint member => (identical constraint member).mp (same constraint member)
    obtain ⟨totalPresent, binsPresent⟩ := present keeps
    refine ⟨keeps, ?_, fun binId => ?_, fun constraint member binId weighs => ⟨?_, ?_⟩⟩
    · have weight : after.binWeightInfo.total = world.binWeightInfo.committedTotal := congrArg (Option.getD · 0) sameTotal
      rw [total, totalFor] at weight
      omega
    · have weight : after.binWeightInfo.binWeight binId = world.binWeightInfo.committedBinWeight binId :=
        congrArg (Option.getD · 0) (sameBins binId)
      rw [bins keeps] at weight
      omega
    · rw [← sameTotal, totalPresent]
      exact .inr ⟨constraint, member, binId, weighs⟩
    · rw [← sameBins, binsPresent]
      exact .inr ⟨constraint, member, weighs⟩
  · rintro ⟨keeps, sameTotal, sameBins, absent⟩
    obtain ⟨totalPresent, binsPresent⟩ := present keeps
    refine ⟨options.mpr ⟨?_, ?_⟩, fun binId => options.mpr ⟨?_, ?_⟩, fun constraint member =>
      (identical constraint member).mpr (keeps constraint member)⟩
    · refine total.trans ?_
      rw [totalFor, sameTotal, add_zero]
      rfl
    · rw [totalPresent, or_iff_left_of_imp]
      rintro ⟨constraint, member, binId, weighs⟩
      exact (absent constraint member binId weighs).1
    · refine (bins keeps binId).trans ?_
      rw [sameBins, add_zero]
      rfl
    · rw [binsPresent, or_iff_left_of_imp]
      rintro ⟨constraint, member, weighs⟩
      exact (absent constraint member binId weighs).2

end IterativeLocalSearch
end ShardManager
