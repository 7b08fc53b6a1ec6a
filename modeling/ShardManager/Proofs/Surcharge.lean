import ShardManager.Proofs.PartLayers
import ShardManager.Proofs.Renewal
import ShardManager.Proofs.Reordered

/-! What an evaluation adds to the shared weights, told from the committed metrics and
faults and from the moves: at every node that is computed anew, the new fault less the
fault recorded before. -/

namespace ShardManager
open SparseMappingTree

section Renewed
variable {σ : Type} {calculation : Calculation σ} {tree : SparseMappingTree} {movementMaps : List MovementMap}
  {recorded : Node → Option Int} {shards : List DomainId}

private theorem parent_of_mem_movedUnder {node : Node} {child : DomainId} (member : child ∈ tree.movedUnder movementMaps shards node) :
    child ∈ shards ∧ node ∈ tree.parentNodes tree.shardDomain child movementMaps := by
  obtain ⟨shard, moved, repeated⟩ := List.mem_flatMap.mp member
  obtain ⟨occurs, rfl⟩ := List.mem_replicate.mp repeated
  exact ⟨moved, List.count_pos_iff.mp (Nat.pos_of_ne_zero occurs)⟩

theorem static_of_mem_movedUnder {node : Node} {child : DomainId} (member : child ∈ tree.movedUnder [{}] shards node) :
    node ∈ tree.staticParents tree.shardDomain child := by
  rcases List.mem_append.mp (parent_of_mem_movedUnder member).2 with static | moved
  · exact static
  · rw [if_pos rfl] at moved
    cases moved

theorem mapped_of_renewed {node : Node} {val : Int}
    (anew : renewed calculation tree movementMaps recorded shards node = some val) : tree.Mapped node := by
  by_contra unmapped
  have unmoved : tree.movedUnder movementMaps shards node = [] := List.eq_nil_iff_forall_not_mem.mpr fun child member =>
    unmapped (tree.mapped_of_mem_parentNodes (parent_of_mem_movedUnder member).2)
  rw [renewed, renewal_unchanged unmoved fun childDomain child parent =>
    absurd (tree.mapped_of_mem_staticParents parent).2 unmapped] at anew
  cases anew

end Renewed

theorem MetricConstraint.unordered (state : SolvingState) (consistency : MovementConsistency) (domain : Domain)
    (capacity faultWeight : Int) : (calculation state consistency domain capacity faultWeight).Unordered := by
  intro tree movementMaps node reading changedChildren same
  simp only [calculation]
  rw [(same.map _).sum_eq]

theorem DrainConstraint.unordered (state : SolvingState) (consistency : MovementConsistency) (domain : Domain)
    (faultWeight : Int) : (calculation state consistency domain faultWeight).Unordered := by
  intro tree movementMaps node reading changedChildren same
  simp only [calculation]
  rw [(same.map _).sum_eq]

theorem LoadBalancingConstraint.unordered (state : SolvingState) (domain : Domain) (metric : Metric) (cmp : Int → Int → Bool) :
    (calculation state domain metric cmp).Unordered := fun _ _ _ _ _ _ => rfl

namespace Counter
variable (movementMaps : List MovementMap) (shards : List DomainId) (counter : Counter)

def anew (node : Node) : Option Int := renewed counter.calculation counter.part movementMaps counter.metric shards node

/-- The new fault of a node less the one recorded, if the node is computed anew. -/
def surcharge (domainId : DomainId) : Int :=
  ((counter.anew movementMaps shards (counter.domain, domainId)).map fun val =>
    counter.fault val - (counter.faults domainId).getD 0).getD 0

variable {movementMaps shards counter} {state : SolvingState} {level : Nat → Domain}

/-- A canary shows the new value of every node, and the faults of the nodes computed anew. -/
theorem canaried_anew (order : HashOrder) (layers : HasLayers counter.part counter.domain level) (shardDomain : state.shardDomain = 0)
    (unordered : counter.calculation.Unordered) (records : RecordsValue counter.calculation state counter.domain counter.fault)
    {shardIds : List DomainId} (same : shardIds.Perm shards) (info : BinWeightInfo) :
    let after := (counter.canaried order state movementMaps shardIds info).1
    (∀ node, after.committed.metric node = (counter.anew movementMaps shards node).or (counter.metric node)) ∧
    ∀ domainId, after.committed.faults domainId =
      ((counter.anew movementMaps shards (counter.domain, domainId)).map counter.fault).or (counter.faults domainId) := by
  intro after
  let cleared : ExpressionTree := ⟨counter.part, counter.expressionTree.metricsMap.clear⟩
  have before : ∀ node, cleared.metricsMap.get node = counter.metric node := fun node => CommittableMap.get_clear _ node
  have committed : ∀ node, cleared.metricsMap.getFromCommittedMap node = counter.metric node :=
    fun node => CommittableMap.committed_clear _ node
  obtain ⟨metrics, slots⟩ := ExpressionTree.updated_renewed movementMaps order unordered cleared layers.layered layers.climbs
    (layers.shards.trans shardDomain.symm) before committed same (⟨counter.domainFaultMap.clear, info⟩ : FaultRecord)
  refine ⟨fun node => ?_, fun domainId => ?_⟩
  · rw [metric_committed]
    exact metrics node
  · rw [faults_committed]
    have read : after.domainFaultMap.get domainId = _ := slots (Option Int) counter.domain records.slot domainId layers.own
    rw [read]
    change ((counter.anew movementMaps shards _).map records.slot.written).getD _ = _
    cases counter.anew movementMaps shards (counter.domain, domainId) with
    | none => exact CommittableMap.get_clear counter.domainFaultMap domainId
    | some val => rfl

theorem surcharge_eq (domainId : DomainId) :
    counter.surcharge movementMaps shards domainId =
      ((((counter.anew movementMaps shards (counter.domain, domainId)).map counter.fault).or (counter.faults domainId)).getD 0) -
        (counter.faults domainId).getD 0 := by
  rw [surcharge]
  cases counter.anew movementMaps shards (counter.domain, domainId) with
  | none => simp
  | some val => rfl

theorem surcharge_listed {domainId : DomainId} (some : counter.surcharge movementMaps shards domainId ≠ 0) :
    domainId ∈ counter.part.getAllDomainIds counter.domain := by
  rw [surcharge] at some
  cases anew : counter.anew movementMaps shards (counter.domain, domainId) with
  | none => simp [anew] at some
  | some val => exact (mapped_of_renewed anew).listed

end Counter

namespace LoadBalancingConstraint
variable (state : SolvingState) (movementMaps : List MovementMap) (shards : List DomainId) (constraint : LoadBalancingConstraint)

/-- The least load under a node, if it is computed anew for the moved shards. -/
def anewMin (node : Node) : Option Int :=
  renewed (calculation state constraint.domain constraint.metric fun a b => decide (a < b))
    constraint.minExpressionTree.assignmentTree movementMaps constraint.minExpressionTree.metricsMap.getFromCommittedMap shards node

/-- The greatest load under a node, if it is computed anew for the moved shards. -/
def anewMax (node : Node) : Option Int :=
  renewed (calculation state constraint.domain constraint.metric fun a b => decide (a > b))
    constraint.maxExpressionTree.assignmentTree movementMaps constraint.maxExpressionTree.metricsMap.getFromCommittedMap shards node

/-- The node is weighed again. -/
def Weighed (domainId : DomainId) : Prop :=
  (constraint.anewMin state movementMaps shards (constraint.domain, domainId)).isSome ∨
    (constraint.anewMax state movementMaps shards (constraint.domain, domainId)).isSome

instance (domainId : DomainId) : Decidable (constraint.Weighed state movementMaps shards domainId) :=
  inferInstanceAs (Decidable (_ ∨ _))

/-- How far the greatest load under a node is from the least under all, in 32 bits. -/
def distance (domainId : DomainId) : Int :=
  let greatest := ((constraint.anewMax state movementMaps shards (constraint.domain, domainId)).or
    (constraint.maxExpressionTree.metricsMap.getFromCommittedMap (constraint.domain, domainId))).getD 0
  let least := ((constraint.anewMin state movementMaps shards (constraint.loadBalancingDomain, 0)).or
    (constraint.minExpressionTree.metricsMap.getFromCommittedMap (constraint.loadBalancingDomain, 0))).getD 0
  toInt32 |toInt32 (greatest - least)|

/-- What the distance beyond `maxDelta` weighs. -/
def excess (domainId : DomainId) : Int :=
  let distance := constraint.distance state movementMaps shards domainId
  if distance ≥ constraint.maxDelta then constraint.faultWeightMultiplier (toInt32 (distance - constraint.maxDelta)) else 0

/-- The weight of a node that is weighed again, less the fault recorded for it. -/
def surcharge (domainId : DomainId) : Int :=
  if constraint.Weighed state movementMaps shards domainId then
    constraint.excess state movementMaps shards domainId - (constraint.domainFaultMap.getFromCommittedMap domainId).getD 0
  else 0

variable {state movementMaps shards constraint}

theorem Weighed.listed {domainId : DomainId} (weighed : constraint.Weighed state movementMaps shards domainId) :
    domainId ∈ constraint.minExpressionTree.assignmentTree.getAllDomainIds constraint.domain ∨
      domainId ∈ constraint.maxExpressionTree.assignmentTree.getAllDomainIds constraint.domain := by
  rcases weighed with anew | anew
  · obtain ⟨val, anew⟩ := Option.isSome_iff_exists.mp anew
    exact .inl (mapped_of_renewed anew).listed
  · obtain ⟨val, anew⟩ := Option.isSome_iff_exists.mp anew
    exact .inr (mapped_of_renewed anew).listed

variable {tree : SparseMappingTree} {level : Nat → Domain} (minTree : constraint.minExpressionTree.assignmentTree = tree)
  (maxTree : constraint.maxExpressionTree.assignmentTree = tree)
include minTree maxTree

/-- A canary shows the new values of both trees, and weighs the nodes computed anew in either. -/
theorem canaried_anew (order : HashOrder) (layers : HasLayers tree constraint.domain level) (shardDomain : state.shardDomain = 0)
    {shardIds : List DomainId} (same : shardIds.Perm shards) (info : BinWeightInfo) :
    let after := (constraint.canaried order state movementMaps shardIds info).1
    (∀ node, after.minExpressionTree.metricsMap.get node = (constraint.anewMin state movementMaps shards node).or
      (constraint.minExpressionTree.metricsMap.getFromCommittedMap node)) ∧
    (∀ node, after.maxExpressionTree.metricsMap.get node = (constraint.anewMax state movementMaps shards node).or
      (constraint.maxExpressionTree.metricsMap.getFromCommittedMap node)) ∧
    ∀ domainId, domainId ∈ after.domainUpdatedSet.keys ↔ constraint.Weighed state movementMaps shards domainId := by
  intro after
  have update : ∀ (cmp : Int → Int → Bool) (metricsMap : MetricsMap) (updatedSet : UnorderedSet DomainId),
      let final := (ExpressionTree.mk tree metricsMap.clear).updated state order
        (calculation state constraint.domain constraint.metric cmp) movementMaps shardIds updatedSet
      let anew := renewed (calculation state constraint.domain constraint.metric cmp) tree movementMaps
        metricsMap.getFromCommittedMap shards
      (∀ node, final.1.metricsMap.get node = (anew node).or (metricsMap.getFromCommittedMap node)) ∧
      ∀ domainId, domainId ∈ final.2.keys ↔ (anew (constraint.domain, domainId)).isSome ∨ domainId ∈ updatedSet.keys := by
    intro cmp metricsMap updatedSet final anew
    obtain ⟨metrics, slots⟩ := ExpressionTree.updated_renewed movementMaps order (unordered state constraint.domain constraint.metric cmp)
      ⟨tree, metricsMap.clear⟩ layers.layered layers.climbs (layers.shards.trans shardDomain.symm)
      (fun node => CommittableMap.get_clear metricsMap node) (fun node => CommittableMap.committed_clear metricsMap node) same updatedSet
    refine ⟨metrics, fun domainId => ?_⟩
    have read : final.2.lookup domainId = ((anew (constraint.domain, domainId)).map fun _ => some ()).getD (updatedSet.lookup domainId) :=
      slots (Option Unit) constraint.domain (evaluatedSlot state constraint.domain constraint.metric cmp) domainId layers.own
    rw [UnorderedMap.mem_keys_iff, UnorderedMap.mem_keys_iff, read]
    cases anew (constraint.domain, domainId) with
    | none => simp
    | some val => simp
  obtain ⟨_, _, _, _, _, ⟨least, minMetrics⟩, ⟨most, maxMetrics⟩, _, _⟩ := constraint
  obtain rfl : least = tree := minTree
  obtain rfl : most = least := maxTree
  obtain ⟨minimum, minimumSet⟩ := update (fun a b => decide (a < b)) minMetrics ∅
  obtain ⟨maximum, maximumSet⟩ := update (fun a b => decide (a > b)) maxMetrics _
  refine ⟨minimum, maximum, fun domainId => (maximumSet domainId).trans ?_⟩
  rw [minimumSet, Weighed, or_comm]
  simp [anewMin, anewMax]

/-- Every node that is weighed adds its surcharge, and to the bin of its id. -/
theorem canaried_surcharge (order : HashOrder) (layers : HasLayers tree constraint.domain level) (shardDomain : state.shardDomain = 0)
    {shardIds : List DomainId} (same : shardIds.Perm shards) (info : BinWeightInfo) :
    let final := (constraint.canaried order state movementMaps shardIds info).2
    final.total = info.total + ∑ domainId ∈ (tree.getAllDomainIds constraint.domain).toFinset,
      constraint.surcharge state movementMaps shards domainId ∧
    ∀ binId, final.binWeight binId = info.binWeight binId + constraint.surcharge state movementMaps shards binId := by
  intro final
  obtain ⟨minimum, maximum, updated⟩ := canaried_anew minTree maxTree order layers shardDomain same info
  have after : (constraint.canaried order state movementMaps shardIds info).1.domain = constraint.domain ∧
      (constraint.canaried order state movementMaps shardIds info).1.loadBalancingDomain = constraint.loadBalancingDomain := ⟨rfl, rfl⟩
  obtain ⟨total, bins⟩ := updateWeights_changes order (constraint.canaried order state movementMaps shardIds info).1 info
  have weighs : ∀ domainId,
      (constraint.canaried order state movementMaps shardIds info).1.nodeWeight
          (((constraint.canaried order state movementMaps shardIds info).1.minExpressionTree.metricsMap.get
            (constraint.loadBalancingDomain, 0)).getD 0) domainId -
        ((constraint.canaried order state movementMaps shardIds info).1.domainFaultMap.get domainId).getD 0 =
      constraint.excess state movementMaps shards domainId - (constraint.domainFaultMap.getFromCommittedMap domainId).getD 0 := by
    intro domainId
    have faults : (constraint.canaried order state movementMaps shardIds info).1.domainFaultMap.get domainId =
      constraint.domainFaultMap.getFromCommittedMap domainId := CommittableMap.get_clear constraint.domainFaultMap domainId
    rw [nodeWeight, minimum, maximum, faults]
    rfl
  simp only [after, weighs, updated] at total bins
  refine ⟨total.trans (congrArg (info.total + ·) ?_), bins⟩
  have within : (constraint.canaried order state movementMaps shardIds info).1.domainUpdatedSet.keys.toFinset ⊆
      (tree.getAllDomainIds constraint.domain).toFinset := by
    intro domainId member
    have listed := ((updated domainId).mp (List.mem_toFinset.mp member)).listed
    rw [minTree, maxTree, or_self] at listed
    exact List.mem_toFinset.mpr listed
  rw [← Finset.sum_subset within]
  · refine Finset.sum_congr rfl fun domainId member => ?_
    rw [surcharge, if_pos ((updated domainId).mp (List.mem_toFinset.mp member))]
  · intro domainId _ absent
    rw [List.mem_toFinset, updated] at absent
    exact if_neg absent

end LoadBalancingConstraint

namespace Constraint
variable (state : SolvingState) (movementMaps : List MovementMap) (shards : List DomainId)

/-- What a node of the constraint adds to the weights. -/
def surcharge (constraint : Constraint) (domainId : DomainId) : Int :=
  match constraint with
  | .loadBalancing constraint => constraint.surcharge state movementMaps shards domainId
  | counted => ((counted.counter state).map fun counter => counter.surcharge movementMaps shards domainId).getD 0

def tree : Constraint → SparseMappingTree
  | .metric constraint => constraint.expressionTree.assignmentTree
  | .drain constraint => constraint.expressionTree.assignmentTree
  | .loadBalancing constraint => constraint.minExpressionTree.assignmentTree

/-- What all nodes of the constraint add to the total weight. -/
def surcharges (constraint : Constraint) : Int :=
  ∑ domainId ∈ (constraint.tree.getAllDomainIds constraint.domain).toFinset,
    constraint.surcharge state movementMaps shards domainId

variable {state movementMaps shards} {arguments : Arguments} {constraint after : Constraint} {committedMoves canariedMoves : MovementMap}
  {order : HashOrder} {info final : BinWeightInfo}

theorem Built.tree (built : Built state arguments constraint) : constraint.tree = arguments.tree state := by
  have kept : ∀ constraint : Constraint, constraint.bare.tree = constraint.tree := by
    intro constraint
    cases constraint <;> rfl
  rw [← kept, built]
  cases arguments <;> rfl

theorem Built.hasBin_of_canaryMoves (numbered : state.Numbered) (built : Built state arguments constraint)
    (moves : canariedMoves.getAllMovements.keys ≠ [])
    (canaried : ConstraintOps.canaryMoves order state (some committedMoves) (some canariedMoves) constraint info = .ok (after, final)) :
    (arguments.tree state).HasBin := by
  by_contra binless
  have domains : (arguments.tree state).shardDomain = state.shardDomain := by
    rw [numbered.shardDomain]
    cases arguments <;> simp [Arguments.tree, LoadBalancingConstraint.partialTree, numbered.treeShards]
  have missing : ConstraintOps.canaryMoves order state (some committedMoves) (some canariedMoves) constraint info = .error .outOfRange :=
    canaryMoves_binless numbered.movementMap domains binless built.trees moves committedMoves info
  rw [missing] at canaried
  cases canaried

theorem surcharge_counter {counter : Counter} (found : constraint.counter state = some counter) (domainId : DomainId) :
    constraint.surcharge state movementMaps shards domainId = counter.surcharge movementMaps shards domainId := by
  cases constraint with
  | metric | drain =>
    cases found
    rfl
  | loadBalancing => cases found

theorem counted {counter : Counter} (found : constraint.counter state = some counter) :
    counter.part = constraint.tree ∧ counter.domain = constraint.domain ∧ constraint.KeepsFaults := by
  cases constraint with
  | metric | drain =>
    cases found
    exact ⟨rfl, rfl, trivial⟩
  | loadBalancing => cases found

private theorem Arguments.counter_records {kind : Counter} (counts : arguments.counter state = some kind) :
    kind.calculation.Unordered ∧ RecordsValue kind.calculation state kind.domain kind.fault := by
  cases arguments with
  | metric consistency domain domainIds metric capacity faultWeight =>
    cases counts
    exact ⟨MetricConstraint.unordered state consistency domain capacity faultWeight,
      MetricConstraint.recordsValue consistency domain capacity faultWeight⟩
  | drain consistency domain domainIds faultWeight =>
    cases counts
    exact ⟨DrainConstraint.unordered state consistency domain faultWeight, DrainConstraint.recordsValue consistency domain faultWeight⟩
  | loadBalancing => cases counts

theorem Built.balances {balance : LoadBalancingConstraint} (built : Built state arguments (.loadBalancing balance)) :
    balance.minExpressionTree.assignmentTree = arguments.tree state ∧ balance.maxExpressionTree.assignmentTree = arguments.tree state := by
  cases arguments with
  | metric | drain => cases built
  | loadBalancing domain domainIds metric maxDelta faultWeightMultiplier =>
    simp only [Built, bare, Arguments.bare, LoadBalancingConstraint.initial, loadBalancing.injEq, LoadBalancingConstraint.mk.injEq,
      ExpressionTree.mk.injEq] at built
    exact ⟨built.2.2.2.2.2.1.1, built.2.2.2.2.2.2.1.1⟩

/-- A canary evaluates a counter over a tree in layers, or the two trees of load balancing. -/
theorem Built.canary_cases (numbered : state.Numbered) (hasBin : (arguments.tree state).HasBin) (built : Built state arguments constraint)
    (canaried : ConstraintOps.canaryMoves order state (some committedMoves) (some canariedMoves) constraint info = .ok (after, final)) :
    (∃ counter level, constraint.counter state = some counter ∧ HasLayers counter.part counter.domain level ∧
      counter.calculation.Unordered ∧ RecordsValue counter.calculation state counter.domain counter.fault ∧
      let result := counter.canaried order state [{}, committedMoves, canariedMoves] (order.ids canariedMoves.getAllMovements.keys) info
      after.counter state = some result.1 ∧ final = result.2) ∨
    ∃ balance level, constraint = .loadBalancing balance ∧ HasLayers (arguments.tree state) balance.domain level ∧
      balance.minExpressionTree.assignmentTree = arguments.tree state ∧ balance.maxExpressionTree.assignmentTree = arguments.tree state ∧
      let result := balance.canaried order state [{}, committedMoves, canariedMoves] (order.ids canariedMoves.getAllMovements.keys) info
      after = .loadBalancing result.1 ∧ final = result.2 := by
  obtain ⟨level, layers⟩ := numbered.tree_layers hasBin
  cases found : constraint.counter state with
  | some counter =>
    obtain ⟨kind, counts⟩ : ∃ kind, arguments.counter state = some kind := by
      cases arguments with
      | metric | drain => exact ⟨_, rfl⟩
      | loadBalancing => exact absurd (built.keepsFaults.mp (counted found).2.2) id
    obtain ⟨other, otherFound, same⟩ := built.counter counts
    obtain rfl := Option.some.inj (otherFound.symm.trans found)
    obtain ⟨unordered, records⟩ := arguments.counter_records counts
    obtain ⟨_, part⟩ := arguments.counted counts
    rw [← part, ← same.part, ← built.domain, ← (counted found).2.1] at layers
    rw [← part, ← same.part] at hasBin
    rw [← same.calculation] at unordered
    rw [← same.calculation, ← same.domain, ← same.fault] at records
    exact .inl ⟨other, level, rfl, layers, unordered, records, counter_canaryMoves numbered.movementMap found hasBin canaried⟩
  | none =>
    cases constraint with
    | metric | drain => cases found
    | loadBalancing balance =>
      obtain ⟨minTree, maxTree⟩ := built.balances
      change Constraint.canaryMoves _ _ _ _ _ _ = _ at canaried
      rw [canaryMoves, LoadBalancingConstraint.canaryMoves_eq order numbered.movementMap committedMoves canariedMoves balance info
        (minTree ▸ hasBin) (maxTree ▸ hasBin)] at canaried
      cases canaried
      rw [← built.domain] at layers
      exact .inr ⟨balance, level, rfl, layers, minTree, maxTree, rfl, rfl⟩

private theorem shareOf_faults (keepsFaults : constraint.KeepsFaults) :
    (totalAccount state).shareOf constraint = ∑ᶠ domainId, (constraint.domainFaultMap.get domainId).getD 0 := by
  cases constraint with
  | metric | drain => rfl
  | loadBalancing => cases keepsFaults

/-- An evaluation adds the surcharges of the nodes to the total weight. -/
private theorem Built.canaryMoves_surcharges (numbered : state.Numbered) (hasBin : (arguments.tree state).HasBin)
    (built : Built state arguments constraint)
    (canaried : ConstraintOps.canaryMoves order state (some committedMoves) (some canariedMoves) constraint info = .ok (after, final)) :
    final.total = info.total +
      constraint.surcharges state [{}, committedMoves, canariedMoves] canariedMoves.getAllMovements.keys := by
  rcases built.canary_cases numbered hasBin canaried with
    ⟨counter, level, found, layers, unordered, records, afterFound, weights⟩ | ⟨balance, level, rfl, layers, minTree, maxTree, _, rfl⟩
  · obtain ⟨_, faults⟩ := Counter.canaried_anew order layers numbered.shardDomain unordered records
      (order.ids_perm canariedMoves.getAllMovements.keys) info
    obtain ⟨part, domain, keeps⟩ := counted found
    have share : final.total - _ = info.total - _ := (totalAccount state).canaryMoves_share keeps canaried
    rw [shareOf_faults (counted afterFound).2.2, shareOf_faults ((keepsFaults_rollback constraint).mpr keeps)] at share
    have each : ∀ domainId, (after.domainFaultMap.get domainId).getD 0 -
        ((LawfulConstraint.rollback constraint).domainFaultMap.get domainId).getD 0 =
          constraint.surcharge state [{}, committedMoves, canariedMoves] canariedMoves.getAllMovements.keys domainId := by
      intro domainId
      rw [(shown_counter afterFound).2.1, faults, (shown_counter found).2.2.2, surcharge_counter found, Counter.surcharge_eq]
    have listed : Function.support (constraint.surcharge state [{}, committedMoves, canariedMoves] canariedMoves.getAllMovements.keys) ⊆
        ((constraint.tree.getAllDomainIds constraint.domain).toFinset : Set DomainId) := by
      intro domainId some
      rw [Function.mem_support, surcharge_counter found] at some
      rw [← part, ← domain, Finset.mem_coe, List.mem_toFinset]
      exact Counter.surcharge_listed some
    have difference := finsum_sub_distrib after.domainFaultMap.finite_support
      (LawfulConstraint.rollback constraint).domainFaultMap.finite_support
    rw [finsum_congr each, finsum_eq_sum_of_support_subset _ listed] at difference
    rw [surcharges]
    omega
  · rw [surcharges, built.tree]
    exact (LoadBalancingConstraint.canaried_surcharge minTree maxTree order layers numbered.shardDomain (order.ids_perm _) info).1

/-- What a canary adds is what it makes of weights of 0. -/
theorem Built.canaried_added (numbered : state.Numbered) (hasBin : (arguments.tree state).HasBin) (built : Built state arguments constraint)
    (order : HashOrder) (committedMoves canariedMoves : MovementMap) :
    ∃ after, ConstraintOps.canaryMoves order state (some committedMoves) (some canariedMoves) constraint .empty =
      .ok (after, constraint.added order state committedMoves canariedMoves) := by
  obtain ⟨⟨after, final⟩, canaried⟩ := canaryMoves_defined order numbered.movementMap committedMoves canariedMoves constraint .empty
    (built.hasBin hasBin)
  have same : constraint.added order state committedMoves canariedMoves = final := by
    change constraint.canaryMoves order state _ _ _ = _ at canaried
    rw [added, canaried]
  exact ⟨after, same ▸ canaried⟩

private theorem Built.added_total (numbered : state.Numbered) (hasBin : (arguments.tree state).HasBin) (built : Built state arguments constraint)
    (order : HashOrder) (committedMoves canariedMoves : MovementMap) :
    (constraint.added order state committedMoves canariedMoves).total =
      constraint.surcharges state [{}, committedMoves, canariedMoves] canariedMoves.getAllMovements.keys := by
  obtain ⟨_, canaried⟩ := built.canaried_added numbered hasBin order committedMoves canariedMoves
  exact (built.canaryMoves_surcharges numbered hasBin canaried).trans (zero_add _)

end Constraint

namespace IterativeLocalSearch
variable {ι : Type} (state : SolvingState) (constraints : List ι) (world : World ι Constraint)

/-- Every constraint has its members from arguments of a constructor. -/
def EachBuilt : Prop := ∀ constraint ∈ constraints, ∃ arguments, (world.objects constraint).Built state arguments

/-- The total weight for some moves: what is committed, and what the constraints add. -/
def totalFor (committedMoves canariedMoves : MovementMap) : Int :=
  world.binWeightInfo.committedTotal + (constraints.map fun constraint =>
    (world.objects constraint).surcharges state [{}, committedMoves, canariedMoves] canariedMoves.getAllMovements.keys).sum

variable {state constraints world} [DecidableEq ι] {after : World ι Constraint}

omit [DecidableEq ι] in
theorem EachBuilt.sameCommitted (built : EachBuilt state constraints world) (same : SameCommitted constraints after world) :
    EachBuilt state constraints after := by
  intro constraint member
  obtain ⟨arguments, own⟩ := built constraint member
  refine ⟨arguments, ?_⟩
  rw [Constraint.Built, ← Constraint.bare_rollback, same.listed constraint member, Constraint.bare_rollback]
  exact own

theorem EachBuilt.commitAll (built : EachBuilt state constraints world) : EachBuilt state constraints (commitAll constraints world) := by
  intro constraint member
  obtain ⟨arguments, own⟩ := built constraint member
  refine ⟨arguments, ?_⟩
  rw [commitAll_target]
  generalize constraints.count constraint = count
  induction count with
  | zero => exact own
  | succ count ih =>
    rw [Function.iterate_succ_apply']
    exact (Constraint.bare_commitMoves _).trans ih

theorem EachBuilt.evaluate_total (numbered : state.Numbered) (built : EachBuilt state constraints world) {order : HashOrder}
    {committedMoves canariedMoves : MovementMap} (moves : canariedMoves.getAllMovements.keys ≠ [])
    (evaluated : evaluate order state constraints committedMoves canariedMoves world = .ok after) :
    after.binWeightInfo.total = totalFor state constraints world committedMoves canariedMoves := by
  refine (evaluate_added evaluated).1.trans (congrArg (world.binWeightInfo.committedTotal + List.sum ·) ?_)
  refine List.map_congr_left fun constraint member => ?_
  obtain ⟨arguments, own⟩ := built constraint member
  obtain ⟨_, _, canaried⟩ := evaluate_target evaluated member
  exact own.added_total numbered (own.hasBin_of_canaryMoves numbered moves canaried) order committedMoves canariedMoves

end IterativeLocalSearch
end ShardManager
