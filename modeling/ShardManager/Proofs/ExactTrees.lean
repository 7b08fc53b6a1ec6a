import ShardManager.Lib.Extremum
import ShardManager.Proofs.Reweighed

/-! The trees of a `LoadBalancingConstraint` over any domain: through every run of the
search each node has the least or greatest load of the bins under it. -/

namespace ShardManager
open SparseMappingTree IterativeLocalSearch

/-- The bin is the node, or is under it. -/
inductive SparseMappingTree.Over (tree : SparseMappingTree) : Node → DomainId → Prop
  | bin (binId : DomainId) : Over tree (tree.binDomain, binId) binId
  | above {node : Node} {childDomain : Domain} {child binId : DomainId} (mapped : tree.getChildDomain node.1 = some childDomain)
      (listed : child ∈ tree.children node.1 node.2) (below : Over tree (childDomain, child) binId) : Over tree node binId

namespace LoadBalancingConstraint

/-- The loads of the bins under a node that have had shards. -/
def loadsUnder (state : SolvingState) (metric : Metric) (tree : SparseMappingTree) (moves : MovementMap) (node : Node) : Set Int :=
  {load | ∃ binId, tree.Over node binId ∧ Hosts state moves binId ∧
    load = state.load (state.getShardMetric metric) moves (state.binDomain, binId)}

/-- The values of the two trees of a constraint after some moves. -/
structure Exact (state : SolvingState) (metric : Metric) (tree : SparseMappingTree) (moves : MovementMap)
    (minimum maximum : Node → Option Int) : Prop where
  bins : ∀ binId, tree.Mapped (state.binDomain, binId) → Hosts state moves binId →
    minimum (state.binDomain, binId) = some (state.load (state.getShardMetric metric) moves (state.binDomain, binId)) ∧
    maximum (state.binDomain, binId) = some (state.load (state.getShardMetric metric) moves (state.binDomain, binId))
  unrecorded : ∀ binId, ¬ Hosts state moves binId →
    minimum (state.binDomain, binId) = none ∧ maximum (state.binDomain, binId) = none
  minimum : ∀ node, tree.Mapped node → ∀ val, minimum node = some val ↔ IsLeast (loadsUnder state metric tree moves node) val
  maximum : ∀ node, tree.Mapped node → ∀ val, maximum node = some val ↔ IsGreatest (loadsUnder state metric tree moves node) val

/-- Every node above the bins has the extreme of the values of its children. -/
structure MeasuresLevels (state : SolvingState) (metric : Metric) (tree : SparseMappingTree) (level : Nat → Domain)
    (cmp : Int → Int → Bool) (moves : MovementMap) (values : Node → Option Int) : Prop where
  bins : MeasuresBins state metric tree moves values
  above : ∀ index domainId, values (level (index + 1), domainId) =
    extreme cmp ((tree.children (level (index + 1)) domainId).filterMap fun child => values (level index, child))

section Levels
variable {state : SolvingState} {tree : SparseMappingTree} {domain : Domain} {metric : Metric} {level : Nat → Domain}
  {cmp : Int → Int → Bool} {le : Int → Int → Prop} {moves : MovementMap}

private theorem settled_levels (bins : state.binDomain = 1) (levels : LevelTree state level tree) {movementMaps : List MovementMap}
    {start final : MetricsMap} {changed : Nat → DomainId → List DomainId}
    (settled : Settled (calculation state domain metric cmp) tree movementMaps level start changed final)
    (before : ∀ index domainId, start.get (level (index + 1), domainId) =
      extreme cmp ((tree.children (level (index + 1)) domainId).filterMap fun child => start.get (level index, child)))
    (index : Nat) (domainId : DomainId) : final.get (level (index + 1), domainId) =
      extreme cmp ((tree.children (level (index + 1)) domainId).filterMap fun child => final.get (level index, child)) := by
  have lowest : level 0 = 1 := levels.layered.bins.trans levels.bins
  refine settled_extreme bins levels.bins settled index domainId ?_ (levels.upper index domainId) (before index domainId)
  intro same
  exact absurd (levels.layered.injective (same.trans lowest.symm)) (Nat.succ_ne_zero index)

private theorem over_iff (node : Node) (binId : DomainId) : tree.Over node binId ↔ node = (tree.binDomain, binId) ∨
    ∃ childDomain, tree.getChildDomain node.1 = some childDomain ∧
      ∃ child ∈ tree.children node.1 node.2, tree.Over (childDomain, child) binId := by
  constructor
  · intro below
    cases below with
    | bin => exact .inl rfl
    | above mapped listed below => exact .inr ⟨_, mapped, _, listed, below⟩
  · rintro (rfl | ⟨childDomain, mapped, child, listed, below⟩)
    · exact .bin binId
    · exact .above mapped listed below

private theorem over_bin (levels : LevelTree state level tree) (domainId binId : DomainId) : tree.Over (1, domainId) binId ↔ binId = domainId := by
  have lowest : level 0 = 1 := levels.layered.bins.trans levels.bins
  rw [over_iff, levels.bins, Prod.mk.injEq]
  constructor
  · rintro (⟨_, same⟩ | ⟨childDomain, mapped, child, _, below⟩)
    · exact same.symm
    · obtain rfl : childDomain = 0 := (levels.layered.below childDomain (lowest ▸ mapped)).trans levels.shards
      rw [over_iff, levels.bins, levels.leaf] at below
      obtain top | ⟨_, ⟨⟩, _⟩ := below
      cases top
  · rintro rfl
    exact .inl ⟨rfl, rfl⟩

private theorem over_above (levels : LevelTree state level tree) {index : Nat} {domainId : DomainId}
    (mapped : tree.Mapped (level (index + 1), domainId)) (binId : DomainId) :
    tree.Over (level (index + 1), domainId) binId ↔
      ∃ child ∈ tree.children (level (index + 1)) domainId, tree.Over (level index, child) binId := by
  rw [over_iff, levels.childDomain index mapped.1]
  simp only [Option.some.injEq, exists_eq_left']
  refine or_iff_right fun top => ?_
  rw [← levels.layered.bins, Prod.mk.injEq] at top
  exact absurd (levels.layered.injective top.1) (Nat.succ_ne_zero index)

/-- From the bins up, a node with a row has the extreme of the loads under it. -/
private theorem MeasuresLevels.extremeOf (bins : state.binDomain = 1) (levels : LevelTree state level tree)
    {values : Node → Option Int} (measures : MeasuresLevels state metric tree level cmp moves values)
    (picks : ∀ items, ExtremeOf le {val | val ∈ items} (extreme cmp items))
    (refl : ∀ val, le val val) (trans : ∀ first second third, le first second → le second third → le first third)
    (fits : ∀ binId, FitsInt32 (state.load (state.getShardMetric metric) moves (state.binDomain, binId))) (index : Nat)
    (domainId : DomainId) (mapped : tree.Mapped (level index, domainId)) :
    ExtremeOf le (loadsUnder state metric tree moves (level index, domainId)) (values (level index, domainId)) := by
  have lowest : level 0 = 1 := levels.layered.bins.trans levels.bins
  induction index generalizing domainId with
  | zero =>
    rw [lowest] at mapped ⊢
    have single : loadsUnder state metric tree moves (1, domainId) = {load | Hosts state moves domainId ∧
        load = state.load (state.getShardMetric metric) moves (1, domainId)} := by
      simp only [loadsUnder, over_bin levels, exists_eq_left, bins]
    rw [single]
    have own := measures.bins domainId
    rw [bins] at fits
    simp only [mapped.2, true_and, toInt32_of_fits (fits domainId)] at own
    cases found : values (1, domainId) with
    | none =>
      refine Set.eq_empty_of_forall_notMem ?_
      rintro load ⟨hosts, rfl⟩
      rw [(own _).mpr ⟨hosts, rfl⟩] at found
      cases found
    | some val =>
      obtain ⟨hosts, rfl⟩ := (own val).mp found
      refine ⟨⟨hosts, rfl⟩, ?_⟩
      rintro _ ⟨_, rfl⟩
      exact refl _
  | succ index ih =>
    have parts := ExtremeOf.parts trans (fun child listed => ih child (levels.closed index domainId child listed))
      (picks ((tree.children (level (index + 1)) domainId).filterMap fun child => values (level index, child)))
    rw [measures.above]
    refine Eq.mp (congrArg (ExtremeOf le · _) (Set.ext fun load => ?_)) parts
    simp only [loadsUnder, Set.mem_ofPred_eq, over_above levels mapped]
    constructor
    · rintro ⟨child, listed, binId, below, rest⟩
      exact ⟨binId, ⟨child, listed, below⟩, rest⟩
    · rintro ⟨binId, ⟨child, listed, below⟩, rest⟩
      exact ⟨child, listed, binId, below, rest⟩

private theorem picks_min (items : List Int) :
    ExtremeOf (· ≤ ·) {val | val ∈ items} (extreme (fun a b => decide (a < b)) items) := by
  rw [extreme_min]
  cases found : items.min? with
  | none =>
    rw [List.min?_eq_none_iff] at found
    simp [ExtremeOf, found]
  | some val => exact List.min?_eq_some_iff.mp found

private theorem picks_max (items : List Int) :
    ExtremeOf (· ≥ ·) {val | val ∈ items} (extreme (fun a b => decide (a > b)) items) := by
  rw [extreme_max]
  cases found : items.max? with
  | none =>
    rw [List.max?_eq_none_iff] at found
    simp [ExtremeOf, found]
  | some val => exact List.max?_eq_some_iff.mp found

/-- Trees that measure the levels are exact where the loads fit. -/
private theorem exact_of_measures (bins : state.binDomain = 1) (levels : LevelTree state level tree)
    {minimum maximum : Node → Option Int}
    (measuresMin : MeasuresLevels state metric tree level (fun a b => decide (a < b)) moves minimum)
    (measuresMax : MeasuresLevels state metric tree level (fun a b => decide (a > b)) moves maximum)
    (fits : ∀ binId, FitsInt32 (state.load (state.getShardMetric metric) moves (state.binDomain, binId))) :
    Exact state metric tree moves minimum maximum := by
  have recorded : ∀ {values : Node → Option Int}, MeasuresBins state metric tree moves values →
      ∀ binId, tree.Mapped (state.binDomain, binId) → Hosts state moves binId →
        values (state.binDomain, binId) = some (state.load (state.getShardMetric metric) moves (state.binDomain, binId)) := by
    intro values measures binId mapped hosts
    rw [← toInt32_of_fits (fits binId)]
    rw [bins] at mapped ⊢
    exact (measures binId _).mpr ⟨mapped.2, hosts, rfl⟩
  have none : ∀ {values : Node → Option Int}, MeasuresBins state metric tree moves values →
      ∀ binId, ¬ Hosts state moves binId → values (state.binDomain, binId) = none := by
    intro values measures binId empty
    rw [bins, Option.eq_none_iff_forall_ne_some]
    intro val found
    exact empty ((measures binId val).mp found).2.1
  refine ⟨fun binId mapped hosts => ⟨recorded measuresMin.bins binId mapped hosts, recorded measuresMax.bins binId mapped hosts⟩,
    fun binId empty => ⟨none measuresMin.bins binId empty, none measuresMax.bins binId empty⟩, ?_, ?_⟩
  · rintro ⟨nodeDomain, domainId⟩ mapped val
    obtain ⟨index, rfl⟩ := levels.mapped _ mapped
    exact (measuresMin.extremeOf bins levels picks_min le_refl (fun _ _ _ => le_trans) fits index domainId mapped).eq_some_iff
      (fun _ _ => le_antisymm) val
  · rintro ⟨nodeDomain, domainId⟩ mapped val
    obtain ⟨index, rfl⟩ := levels.mapped _ mapped
    exact (measuresMax.extremeOf bins levels picks_max (fun val => le_refl val) (fun _ _ _ => ge_trans) fits index domainId
      mapped).eq_some_iff (fun _ _ => ge_antisymm) val

end Levels

/-- What a constraint over a domain shows after some moves. -/
structure Balances (state : SolvingState) (domain : Domain) (domainIds : List DomainId) (metric : Metric) (moves : MovementMap)
    (constraint : LoadBalancingConstraint) : Prop where
  sameDomain : constraint.domain = domain
  sameMetric : constraint.metric = metric
  minTree : constraint.minExpressionTree.assignmentTree = partialTree state domain domainIds
  maxTree : constraint.maxExpressionTree.assignmentTree = partialTree state domain domainIds
  minimum : MeasuresLevels state metric (partialTree state domain domainIds) (balanceLevel domain) (fun a b => decide (a < b)) moves
    constraint.minExpressionTree.metricsMap.get
  maximum : MeasuresLevels state metric (partialTree state domain domainIds) (balanceLevel domain) (fun a b => decide (a > b)) moves
    constraint.maxExpressionTree.metricsMap.get

section Balances
variable {state : SolvingState} {domain : Domain} {domainIds : List DomainId} {metric : Metric} {moves : MovementMap}
  {constraint : LoadBalancingConstraint}

theorem Balances.views (balances : Balances state domain domainIds metric moves constraint) {minMetrics maxMetrics : MetricsMap}
    (minimum : ∀ node, minMetrics.get node = constraint.minExpressionTree.metricsMap.get node)
    (maximum : ∀ node, maxMetrics.get node = constraint.maxExpressionTree.metricsMap.get node) (updatedSet : UnorderedSet DomainId)
    (faults : FaultMap) : Balances state domain domainIds metric moves
      { constraint with
        minExpressionTree := ⟨constraint.minExpressionTree.assignmentTree, minMetrics⟩
        maxExpressionTree := ⟨constraint.maxExpressionTree.assignmentTree, maxMetrics⟩
        domainUpdatedSet := updatedSet, domainFaultMap := faults } where
  sameDomain := balances.sameDomain
  sameMetric := balances.sameMetric
  minTree := balances.minTree
  maxTree := balances.maxTree
  minimum := by
    rw [funext minimum]
    exact balances.minimum
  maximum := by
    rw [funext maximum]
    exact balances.maximum

theorem Balances.committed (balances : Balances state domain domainIds metric moves constraint) :
    Balances state domain domainIds metric moves constraint.commitMoves.rollback :=
  balances.views (by simp [commitMoves, ExpressionTree.commitMoves]) (by simp [commitMoves, ExpressionTree.commitMoves]) ∅ _

theorem Balances.again (balances : Balances state domain domainIds metric moves constraint.commitMoves.rollback) :
    Balances state domain domainIds metric moves constraint.commitMoves.commitMoves.rollback :=
  balances.views (by simp [commitMoves, rollback, ExpressionTree.rollback, ExpressionTree.commitMoves])
    (by simp [commitMoves, rollback, ExpressionTree.rollback, ExpressionTree.commitMoves]) ∅ _

private theorem balances_new (hierarchical : state.Hierarchical)
    (levels : LevelTree state (balanceLevel domain) (partialTree state domain domainIds)) {order : HashOrder} {maxDelta : Int}
    {faultWeightMultiplier : Int → Int} {info weights : BinWeightInfo}
    (made : new order state domain domainIds metric maxDelta faultWeightMultiplier info = .ok (constraint, weights)) :
    Balances state domain domainIds metric {} constraint.rollback := by
  have shards := hierarchical.shardDomain
  rw [new_eq domainIds metric maxDelta order info hierarchical.movementMap domain _ (levels.hasBin.resolves _), Except.ok.injEq,
    Prod.mk.injEq] at made
  obtain ⟨rfl, -⟩ := made
  have all := order.ids_perm ((partialTree state domain domainIds).getAllDomainIds state.shardDomain)
  have measured : ∀ cmp updatedSet, MeasuresLevels state metric (partialTree state domain domainIds) (balanceLevel domain) cmp {}
      ((ExpressionTree.mk (partialTree state domain domainIds) .empty).updated state order (calculation state domain metric cmp) [{}]
        (order.ids ((partialTree state domain domainIds).getAllDomainIds state.shardDomain)) updatedSet).1.metricsMap.get := by
    intro cmp updatedSet
    obtain ⟨changed, settled, lowest, _⟩ := ExpressionTree.updated_settled state order (calculation state domain metric cmp)
      ⟨partialTree state domain domainIds, .empty⟩ levels.layered (levels.shards.trans shards.symm) [{}]
      (order.ids ((partialTree state domain domainIds).getAllDomainIds state.shardDomain)) updatedSet
    rw [shards] at all
    exact ⟨measuresBins_new hierarchical levels.toListsBins levels.layered all settled (by rw [shards] at lowest; exact lowest),
      settled_levels hierarchical.binDomain levels settled (by simp [extreme])⟩
  have shown : Balances state domain domainIds metric {} ((initial state domainIds metric maxDelta domain
      faultWeightMultiplier).canaried order state [{}]
        (order.ids ((partialTree state domain domainIds).getAllDomainIds state.shardDomain)) info).1 :=
    ⟨rfl, rfl, rfl, rfl, measured _ _, measured _ _⟩
  exact shown.committed

private theorem balances_candidate (hierarchical : state.Hierarchical)
    (levels : LevelTree state (balanceLevel domain) (partialTree state domain domainIds)) (valid : ValidReassignment state moves)
    {shard nextBin : DomainId} (candidate : Candidate state moves shard nextBin)
    (balances : Balances state domain domainIds metric moves constraint.rollback) (order : HashOrder) (info : BinWeightInfo) :
    Balances state domain domainIds metric (moves.addMovements (.addMovement {} shard nextBin))
      (constraint.canaried order state [{}, moves, .addMovement {} shard nextBin] [shard] info).1 := by
  have same : constraint.domain = domain := balances.sameDomain
  have sameMetric : constraint.metric = metric := balances.sameMetric
  have minTree : constraint.minExpressionTree.assignmentTree = partialTree state domain domainIds := balances.minTree
  have maxTree : constraint.maxExpressionTree.assignmentTree = partialTree state domain domainIds := balances.maxTree
  have measured : ∀ cmp (metricsMap : MetricsMap) updatedSet,
      MeasuresLevels state metric (partialTree state domain domainIds) (balanceLevel domain) cmp moves metricsMap.get →
      MeasuresLevels state metric (partialTree state domain domainIds) (balanceLevel domain) cmp
        (moves.addMovements (.addMovement {} shard nextBin))
        ((ExpressionTree.mk (partialTree state domain domainIds) metricsMap).updated state order
          (calculation state domain metric cmp) [{}, moves, .addMovement {} shard nextBin] [shard] updatedSet).1.metricsMap.get := by
    intro cmp metricsMap updatedSet measures
    obtain ⟨changed, settled, lowest, _⟩ := ExpressionTree.updated_settled state order (calculation state domain metric cmp)
      ⟨partialTree state domain domainIds, metricsMap⟩ levels.layered (levels.shards.trans hierarchical.shardDomain.symm)
      [{}, moves, .addMovement {} shard nextBin] [shard] updatedSet
    exact ⟨measuresBins_candidate hierarchical levels.toListsBins levels.layered valid candidate measures.bins settled lowest,
      settled_levels hierarchical.binDomain levels settled measures.above⟩
  refine ⟨same, sameMetric, minTree, maxTree, ?_, ?_⟩
  · rw [canaried, same, sameMetric, minTree]
    exact measured _ _ _ balances.minimum
  · rw [canaried, same, sameMetric, maxTree]
    exact measured _ _ _ balances.maximum

def Balanced (state : SolvingState) (domain : Domain) (domainIds : List DomainId) (metric : Metric) (moves : MovementMap)
    (object : Constraint) : Prop :=
  ValidReassignment state moves ∧
    ∃ constraint, object = .loadBalancing constraint ∧ Balances state domain domainIds metric moves constraint.rollback

theorem Balanced.canaried (hierarchical : state.Hierarchical)
    (levels : LevelTree state (balanceLevel domain) (partialTree state domain domainIds)) {order : HashOrder}
    {shard nextBin : DomainId} (candidate : Candidate state moves shard nextBin) {object after : Constraint}
    {info final : BinWeightInfo} (balanced : Balanced state domain domainIds metric moves object)
    (canaried : ConstraintOps.canaryMoves order state (some moves) (some (.addMovement {} shard nextBin)) object info =
      .ok (after, final)) :
    ∃ view, after = .loadBalancing view ∧
      Balances state domain domainIds metric (moves.addMovements (.addMovement {} shard nextBin)) view := by
  obtain ⟨valid, constraint, rfl, balances⟩ := balanced
  have minTree : constraint.minExpressionTree.assignmentTree = partialTree state domain domainIds := balances.minTree
  have maxTree : constraint.maxExpressionTree.assignmentTree = partialTree state domain domainIds := balances.maxTree
  change Constraint.canaryMoves _ _ _ _ _ _ = .ok _ at canaried
  rw [Constraint.canaryMoves, constraint.canaryMoves_single hierarchical (minTree ▸ levels.hasBin) (maxTree ▸ levels.hasBin)]
    at canaried
  cases canaried
  exact ⟨_, rfl, balances_candidate hierarchical levels valid candidate balances order info⟩

private theorem tracks_balanced (hierarchical : state.Hierarchical)
    (levels : LevelTree state (balanceLevel domain) (partialTree state domain domainIds)) (order : HashOrder) :
    Tracks order state (Balanced state domain domainIds metric) where
  accepted := by
    intro moves shard nextBin object info after final candidate balanced canaried
    obtain ⟨view, rfl, balances⟩ := balanced.canaried hierarchical levels candidate canaried
    exact ⟨balanced.1.add candidate, view.commitMoves, rfl, balances.committed⟩
  again := by
    rintro moves object ⟨valid, constraint, isBalance, balances⟩
    cases object with
    | loadBalancing kept =>
      cases isBalance
      exact ⟨valid, _, rfl, balances.again⟩
    | metric | drain => cases isBalance

private theorem levelTree_partialTree (hierarchical : state.Hierarchical) (below : domain < 10)
    (hasBin : (state.assignmentTree.createPartialTree domain domainIds).HasBin) :
    LevelTree state (balanceLevel domain) (partialTree state domain domainIds) :=
  (partialTree_crowned hierarchical below domainIds).levelTree (createPartialTree_part hierarchical.hierarchy domain domainIds)
    hasBin (domain_ne_zero hierarchical hasBin) below

theorem Balances.exact (hierarchical : state.Hierarchical)
    (levels : LevelTree state (balanceLevel domain) (partialTree state domain domainIds))
    (balances : Balances state domain domainIds metric moves constraint)
    (fits : ∀ binId, FitsInt32 (state.load (state.getShardMetric metric) moves (state.binDomain, binId))) :
    Exact state metric (partialTree state domain domainIds) moves constraint.minExpressionTree.metricsMap.get
      constraint.maxExpressionTree.metricsMap.get :=
  exact_of_measures hierarchical.binDomain levels balances.minimum balances.maximum fits

end Balances

variable {ι : Type} [DecidableEq ι]

/-- In every view that a run of the search evaluates or commits, both trees are exact:
the bins that have had shards show their loads, and every node the extreme under it. -/
theorem solve_exact (shardInfoVector : List ShardInfo) (metricVectors : List (List MetricValue))
    (domainMapping : List (List (List DomainId))) (once : SolvingState.ListsOnce domainMapping)
    (few : domainMapping.length < SolvingState.kDomainLimit) {state : SolvingState}
    (built : state = (SolvingState.new shardInfoVector metricVectors domainMapping).withEmptyMovementMap)
    (domain : Domain) (domainIds : List DomainId) (hasBin : (state.assignmentTree.createPartialTree domain domainIds).HasBin)
    (metric : Metric) (maxDelta : Int) (faultWeightMultiplier : Int → Int) (constructorOrder : HashOrder) (info : BinWeightInfo)
    (constraint : LoadBalancingConstraint) (weights : BinWeightInfo)
    (made : new constructorOrder state domain domainIds metric maxDelta faultWeightMultiplier info = .ok (constraint, weights))
    (order : HashOrder) (constraints : List ι) (target : ι) (listed : target ∈ constraints) (world : World ι Constraint)
    (placed : world.objects target = .loadBalancing constraint) (maxIterations : Nat) (draws : List Nat) :
    (∀ committedMoves canariedMoves view,
      .evaluated committedMoves canariedMoves view ∈ (solve order state constraints maxIterations draws world).events →
      (∀ binId, FitsInt32 (state.load (state.getShardMetric metric) (committedMoves.addMovements canariedMoves)
        (state.binDomain, binId))) →
      ∃ current, view.objects target = .loadBalancing current ∧
        Exact state metric (partialTree state domain domainIds) (committedMoves.addMovements canariedMoves)
          current.minExpressionTree.metricsMap.get current.maxExpressionTree.metricsMap.get) ∧
    ∀ before movement after,
      .committed before movement after ∈ (solve order state constraints maxIterations draws world).events →
      (∀ binId, FitsInt32 (state.load (state.getShardMetric metric) after.committedMoves (state.binDomain, binId))) →
      ∃ current, after.world.objects target = .loadBalancing current ∧
        Exact state metric (partialTree state domain domainIds) after.committedMoves
          current.minExpressionTree.metricsMap.getFromCommittedMap current.maxExpressionTree.metricsMap.getFromCommittedMap := by
  have hierarchical : state.Hierarchical := built ▸ SolvingState.hierarchical_new shardInfoVector metricVectors once
  have below : domain < 10 := by
    have isPart := createPartialTree_part hierarchical.hierarchy domain domainIds
    obtain ⟨level, rfl⟩ := Nat.exists_eq_succ_of_ne_zero (domain_ne_zero hierarchical hasBin)
    obtain ⟨domainId, mapped⟩ := mapped_between isPart hasBin level (Nat.lt_succ_self level)
    have inState := (isPart.mapped _ mapped).1
    rw [built] at inState
    exact lt_of_le_of_lt (SolvingState.domain_le shardInfoVector metricVectors once inState) few
  have levels := levelTree_partialTree hierarchical below hasBin
  have tracks : Tracks order state (Balanced state domain domainIds metric) := tracks_balanced hierarchical levels order
  have start : Balanced state domain domainIds metric {} (world.objects target) :=
    ⟨ValidReassignment.empty, constraint, placed, balances_new hierarchical levels made⟩
  constructor
  · intro committedMoves canariedMoves view happened fits
    have rolled : ∀ moves object other, LawfulConstraint.rollback other = LawfulConstraint.rollback object →
        Balanced state domain domainIds metric moves object → Balanced state domain domainIds metric moves other := by
      rintro moves object other same ⟨valid, kept, rfl, balances⟩
      cases other with
      | loadBalancing current =>
        have rolled : current.rollback = kept.rollback := Constraint.loadBalancing.inj same
        exact ⟨valid, current, rfl, rolled ▸ balances⟩
      | metric | drain => cases same
    obtain ⟨shard, nextBin, object, _, _, candidate, rfl, balanced, canaried⟩ :=
      tracks.solve_evaluated rolled listed start happened
    obtain ⟨current, shown, balances⟩ := balanced.canaried hierarchical levels candidate canaried
    exact ⟨current, shown, balances.exact hierarchical levels fits⟩
  · intro before movement after happened fits
    obtain ⟨_, current, shown, balances⟩ := tracks.solve listed start happened
    refine ⟨current, shown, ?_⟩
    have exact := balances.exact hierarchical levels fits
    have committed : ∀ metricsMap : MetricsMap, metricsMap.clear.get = metricsMap.getFromCommittedMap :=
      fun metricsMap => funext fun node => CommittableMap.get_clear metricsMap node
    simp only [rollback, ExpressionTree.rollback, committed] at exact
    exact exact

def balancedRack : LoadBalancingConstraint × BinWeightInfo :=
  (new .insertion fullBins 2 [0] 0 10 (LoadBalancingConstraint.integerMultiplier 2) drainedFirst.2).toOption.get (by decide +kernel)

theorem solve_exact_fullBins :
    (∀ committedMoves canariedMoves view, .evaluated committedMoves canariedMoves view ∈
        (solve .insertion fullBins [true, false] 3 [0, 1, 0, 1] (balancedWorld balancedRack)).events →
      (∀ binId, FitsInt32 (fullBins.load (fullBins.getShardMetric 0) (committedMoves.addMovements canariedMoves)
        (fullBins.binDomain, binId))) →
      ∃ current, view.objects true = .loadBalancing current ∧
        Exact fullBins 0 (partialTree fullBins 2 [0]) (committedMoves.addMovements canariedMoves)
          current.minExpressionTree.metricsMap.get current.maxExpressionTree.metricsMap.get) ∧
    ∀ before movement after, .committed before movement after ∈
        (solve .insertion fullBins [true, false] 3 [0, 1, 0, 1] (balancedWorld balancedRack)).events →
      (∀ binId, FitsInt32 (fullBins.load (fullBins.getShardMetric 0) after.committedMoves (fullBins.binDomain, binId))) →
      ∃ current, after.world.objects true = .loadBalancing current ∧
        Exact fullBins 0 (partialTree fullBins 2 [0]) after.committedMoves
          current.minExpressionTree.metricsMap.getFromCommittedMap current.maxExpressionTree.metricsMap.getFromCommittedMap :=
  solve_exact [] [[5, 7, 9]] [[[0, 1], [2]], [[0, 1]]] (by decide) (by decide) rfl 2 [0] (by decide +kernel) 0 10
    (LoadBalancingConstraint.integerMultiplier 2) .insertion drainedFirst.2 balancedRack.1 balancedRack.2 (Checked.ok_get _ (by decide +kernel)) .insertion
    [true, false] true (by simp) (balancedWorld balancedRack) rfl 3 [0, 1, 0, 1]

end LoadBalancingConstraint
end ShardManager
