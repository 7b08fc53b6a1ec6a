import ShardManager.Proofs.LoadBalance
import ShardManager.Proofs.MissingMap

/-! The lookups by `at` in the constraints' trees. A tree without a bin has no row of
bins, which is looked up for the first shard that moves. -/

namespace ShardManager
open SparseMappingTree

/-- A call of `canaryMoves` on a constraint, and whether `commitMoves` follows. -/
structure Canary where
  order : HashOrder
  committedMoves : MovementMap
  canariedMoves : MovementMap
  commits : Bool

/-- Weights are cleared before a call, as the search does it. -/
def Constraint.evaluate (state : SolvingState) (current : Constraint × BinWeightInfo) (canary : Canary) :
    Except Fault (Constraint × BinWeightInfo) := do
  let (constraint, info) ← current.1.canaryMoves canary.order state (some canary.committedMoves)
    (some canary.canariedMoves) current.2.clear
  pure (if canary.commits then (constraint.commitMoves, info.commit) else (constraint, info))

namespace SparseMappingTree
variable {tree : SparseMappingTree}

/-- The way down from the node ends at a bin. -/
inductive LeadsToBin (tree : SparseMappingTree) : Node → Prop
  | bin (binId : DomainId) (mapped : (tree.getChildDomain tree.binDomain).isSome) : LeadsToBin tree (tree.binDomain, binId)
  | down {node : Node} {childDomain : Domain} {child : DomainId} (mapped : tree.getChildDomain node.1 = some childDomain)
      (listed : child ∈ tree.children node.1 node.2) (leads : LeadsToBin tree (childDomain, child)) : LeadsToBin tree node

private theorem rows_addMapping (tree : SparseMappingTree) (parent : Node) (childDomain : Domain) (children : List DomainId)
    (domain : Domain) :
    ((tree.addMapping parent childDomain children).parentToChildMap.lookup domain).isSome ↔
      domain = parent.1 ∨ (tree.parentToChildMap.lookup domain).isSome := by
  by_cases accepted : ∀ current, tree.parentToChildDomainMap.lookup parent.1 = some current → current = childDomain
  · rw [addMapping, dif_pos accepted, ChildRows.lookup_set_isSome]
    simp
  · -- a rejected mapping has the rows of the earlier one
    rw [addMapping, dif_neg accepted]
    push Not at accepted
    obtain ⟨current, found, _⟩ := accepted
    refine (or_iff_right_of_imp ?_).symm
    rintro rfl
    rw [tree.row_mapped, found]
    rfl

theorem rows_copyRows (nodes : List Node) (domain : Domain) :
    ((copyRows tree nodes).parentToChildMap.lookup domain).isSome ↔ ∃ node ∈ nodes, node.1 = domain := by
  refine Checked.foldl_invariant (fun (nodes : List Node) (part : SparseMappingTree) =>
    (part.parentToChildMap.lookup domain).isSome ↔ ∃ node ∈ nodes, node.1 = domain) ?_ ?_
  · intro handled node rest _ part copied
    rw [rows_addMapping, copied]
    simp only [List.mem_append, List.mem_singleton, or_and_right, exists_or, exists_eq_left, eq_comm (a := domain)]
    exact or_comm
  · simp [empty]

private theorem Below.led {domain : Domain} {treeParents : List DomainId} {node : Node} (below : Below tree domain treeParents node)
    (leads : tree.LeadsToBin node) : ∃ domainId ∈ treeParents, tree.LeadsToBin (domain, domainId) := by
  induction below with
  | given member => exact ⟨_, member, leads⟩
  | child _ mapped listed ih => exact ih (.down mapped listed leads)

theorem LeadsToBin.reaches {domain : Domain} {treeParents : List DomainId} {node : Node} (leads : tree.LeadsToBin node)
    (below : Below tree domain treeParents node) :
    (tree.getChildDomain tree.binDomain).isSome ∧ ∃ binId, Below tree domain treeParents (tree.binDomain, binId) := by
  induction leads with
  | bin binId mapped => exact ⟨mapped, binId, below⟩
  | down mapped listed _ ih => exact ih (.child below mapped listed)

private theorem createPartialTree_hasBin_iff (descends : Descends tree) (domain : Domain) (treeParents : List DomainId) :
    (tree.createPartialTree domain treeParents).HasBin ↔ ∃ domainId ∈ treeParents, tree.LeadsToBin (domain, domainId) := by
  obtain ⟨_, nodes, _, copied, mem_nodes⟩ := createPartialTree_copies descends.acyclic domain treeParents
  rw [HasBin, createPartialTree_binDomain, copied, rows_copyRows]
  constructor
  · rintro ⟨⟨_, binId⟩, inside, rfl⟩
    obtain ⟨below, mapped⟩ := (mem_nodes _).mp inside
    exact below.led (.bin binId mapped)
  · rintro ⟨domainId, given, leads⟩
    obtain ⟨mapped, binId, below⟩ := leads.reaches (.given given)
    exact ⟨(tree.binDomain, binId), (mem_nodes _).mpr ⟨below, mapped⟩, rfl⟩

/-- Without a row of bins, a shard that moves has no parents to be found. -/
private theorem getParents_binless (binless : ¬ tree.HasBin) {shardId : DomainId} {movementMaps : List MovementMap}
    (moved : ∃ movementMap ∈ movementMaps, (movementMap.getNextBin shardId).isSome) :
    tree.getParents tree.shardDomain shardId (movementMaps.map some) = .error .outOfRange := by
  rw [HasBin, Option.not_isSome_iff_eq_none] at binless
  rw [getParents, if_pos rfl]
  generalize tree.staticParents tree.shardDomain shardId = domainParents
  induction movementMaps with
  | nil => simp at moved
  | cons movementMap movementMaps ih =>
    rw [List.map_cons, List.foldlM_cons]
    cases next : movementMap.getNextBin shardId with
    | some nextBin =>
      have missing : tree.addMovedParent shardId domainParents (some movementMap) = .error .outOfRange := by
        simp only [addMovedParent, deref, Checked.ok_bind, next, atKey, binless]
        rfl
      rw [missing]
      rfl
    | none =>
      have stays : tree.addMovedParent shardId domainParents (some movementMap) = .ok domainParents := by
        simp only [addMovedParent, deref, Checked.ok_bind, next]
        rfl
      rw [stays]
      refine ih ?_
      simpa [next] using moved

end SparseMappingTree

variable {order : HashOrder} {state : SolvingState}

theorem ExpressionTree.canaryMoves_binless {σ : Type} (calcMetricFunc : CalcMetricFunc σ) (tree : ExpressionTree)
    (present : state.movementMap = some {}) (domains : tree.assignmentTree.shardDomain = state.shardDomain)
    (binless : ¬ tree.assignmentTree.HasBin) {canariedMoves : MovementMap} (moves : canariedMoves.getAllMovements.keys ≠ [])
    (committedMoves : MovementMap) (context : σ) :
    tree.canaryMoves order state calcMetricFunc (some committedMoves) (some canariedMoves) context = .error .outOfRange := by
  cases ids : order.ids canariedMoves.getAllMovements.keys with
  | nil => exact absurd ((ids_nil order _).mp ids) moves
  | cons shardId shardIds =>
    have listed : shardId ∈ canariedMoves.getAllMovements.keys := (order.ids_perm _).mem_iff.mp (by simp [ids])
    have moved : ∃ movementMap ∈ [{}, committedMoves, canariedMoves], (MovementMap.getNextBin movementMap shardId).isSome := by
      obtain ⟨nextBin, found⟩ := (UnorderedMap.mem_keys_iff _ _).mp listed
      exact ⟨canariedMoves, by simp, Option.isSome_iff_exists.mpr ⟨nextBin, found⟩⟩
    have missing := getParents_binless binless moved
    rw [domains, List.map_cons, List.map_cons, List.map_singleton] at missing
    rw [ExpressionTree.canaryMoves, deref, Checked.ok_bind, present, update, ids, shardParents, List.foldlM_cons]
    change (tree.assignmentTree.getParents state.shardDomain shardId _ >>= _) >>= _ >>= _ = _
    rw [missing]
    rfl

namespace Constraint

def trees : Constraint → List SparseMappingTree
  | .metric constraint => [constraint.expressionTree.assignmentTree]
  | .drain constraint => [constraint.expressionTree.assignmentTree]
  | .loadBalancing constraint => [constraint.minExpressionTree.assignmentTree, constraint.maxExpressionTree.assignmentTree]

private theorem trees_rollback (constraint : Constraint) : (LawfulConstraint.rollback constraint).trees = constraint.trees := by
  cases constraint <;> rfl

private theorem trees_commitMoves (constraint : Constraint) : constraint.commitMoves.trees = constraint.trees := by
  cases constraint <;> rfl

private theorem trees_evaluate {current after : Constraint × BinWeightInfo} {canary : Canary}
    (evaluated : evaluate state current canary = .ok after) : after.1.trees = current.1.trees := by
  obtain ⟨⟨constraint, info⟩, canaried, finished⟩ := Checked.bind_ok evaluated
  have same : LawfulConstraint.rollback constraint = LawfulConstraint.rollback current.1 :=
    (LawfulConstraint.rollback_canaryMoves _ _ _ _ _ _ _ _ (show ConstraintOps.canaryMoves _ _ _ _ _ _ = _ from canaried)).1
  have kept : constraint.trees = current.1.trees := by
    rw [← trees_rollback, same, trees_rollback]
  simp only at finished
  split at finished
  · cases finished
    exact (trees_commitMoves constraint).trans kept
  · cases finished
    exact kept

variable (order state) in
theorem new_defined (present : state.movementMap = some {}) (info : BinWeightInfo) (arguments : Arguments) :
    ∃ made, new order state info arguments = .ok made ∧ made.1.trees = made.1.trees.map fun _ => arguments.tree state := by
  cases arguments with
  | metric consistency domain domainIds metric capacity faultWeight =>
    rw [new, MetricConstraint.new, ExpressionTree.new_eq state
      (MetricConstraint.calculates state consistency domain metric capacity faultWeight)
      (state.assignmentTree.createPartialTree domain domainIds) present (resolves_unmoved _)]
    exact ⟨_, rfl, rfl⟩
  | drain consistency domain domainIds faultWeight =>
    rw [new, DrainConstraint.new, ExpressionTree.new_eq state
      (DrainConstraint.calculates state consistency domain faultWeight) (state.assignmentTree.createPartialTree domain domainIds)
      present (resolves_unmoved _)]
    exact ⟨_, rfl, rfl⟩
  | loadBalancing domain domainIds metric maxDelta faultWeightMultiplier =>
    rw [new, LoadBalancingConstraint.new_eq domainIds metric maxDelta order info present domain faultWeightMultiplier
      (resolves_unmoved _)]
    exact ⟨_, rfl, rfl⟩

theorem canaryMoves_binless (present : state.movementMap = some {}) {tree : SparseMappingTree}
    (domains : tree.shardDomain = state.shardDomain) (binless : ¬ tree.HasBin) {constraint : Constraint}
    (built : constraint.trees = constraint.trees.map fun _ => tree) {canariedMoves : MovementMap}
    (moves : canariedMoves.getAllMovements.keys ≠ []) (committedMoves : MovementMap) (info : BinWeightInfo) :
    constraint.canaryMoves order state (some committedMoves) (some canariedMoves) info = .error .outOfRange := by
  have missing : ∀ {σ : Type} (calcMetricFunc : CalcMetricFunc σ) (expressionTree : ExpressionTree) (context : σ),
      expressionTree.assignmentTree = tree →
      expressionTree.canaryMoves order state calcMetricFunc (some committedMoves) (some canariedMoves) context =
        .error .outOfRange := by
    rintro σ calcMetricFunc expressionTree context rfl
    exact expressionTree.canaryMoves_binless calcMetricFunc present domains binless moves committedMoves context
  cases constraint with
  | metric constraint =>
    rw [canaryMoves, MetricConstraint.canaryMoves, missing _ _ _ (List.singleton_inj.mp built)]
    rfl
  | drain constraint =>
    rw [canaryMoves, DrainConstraint.canaryMoves, missing _ _ _ (List.singleton_inj.mp built)]
    rfl
  | loadBalancing constraint =>
    rw [canaryMoves, LoadBalancingConstraint.canaryMoves, missing _ _ _ (List.cons.inj built).1]
    rfl

theorem hasBin_iff_trees (constraint : Constraint) : constraint.HasBin ↔ ∀ tree ∈ constraint.trees, tree.HasBin := by
  cases constraint <;> simp [HasBin, trees]

private theorem evaluate_defined_iff (present : state.movementMap = some {}) {tree : SparseMappingTree}
    (domains : tree.shardDomain = state.shardDomain) {current : Constraint × BinWeightInfo}
    (built : current.1.trees = current.1.trees.map fun _ => tree) (canary : Canary) :
    (∃ after, evaluate state current canary = .ok after) ↔ tree.HasBin ∨ canary.canariedMoves.getAllMovements.keys = [] := by
  have defined : (∃ after, evaluate state current canary = .ok after) ↔
      ∃ after, current.1.canaryMoves canary.order state (some canary.committedMoves) (some canary.canariedMoves)
        current.2.clear = .ok after := by
    unfold evaluate
    cases current.1.canaryMoves canary.order state (some canary.committedMoves) (some canary.canariedMoves) current.2.clear with
    | error fault => simp [bind, Except.bind]
    | ok after => exact iff_of_true ⟨_, rfl⟩ ⟨_, rfl⟩
  rw [defined]
  constructor
  · rintro ⟨after, canaried⟩
    by_contra neither
    obtain ⟨binless, moves⟩ := not_or.mp neither
    rw [canaryMoves_binless present domains binless built moves] at canaried
    cases canaried
  · rintro (hasBin | idle)
    · refine canaryMoves_defined canary.order present _ _ _ _ ((hasBin_iff_trees _).mpr fun other listed => ?_)
      rw [built] at listed
      obtain ⟨_, _, rfl⟩ := List.mem_map.mp listed
      exact hasBin
    · exact canaryMoves_shardless canary.order state _ _ _ _ idle

private theorem evaluations_defined_iff (present : state.movementMap = some {}) {tree : SparseMappingTree}
    (domains : tree.shardDomain = state.shardDomain) (canaries : List Canary) {current : Constraint × BinWeightInfo}
    (built : current.1.trees = current.1.trees.map fun _ => tree) :
    (∃ after, canaries.foldlM (evaluate state) current = .ok after) ↔
      tree.HasBin ∨ ∀ canary ∈ canaries, canary.canariedMoves.getAllMovements.keys = [] := by
  induction canaries generalizing current with
  | nil => exact iff_of_true ⟨current, rfl⟩ (.inr (by simp))
  | cons canary canaries ih =>
    rw [List.foldlM_cons, List.forall_mem_cons]
    have first := evaluate_defined_iff present domains built canary
    cases evaluated : evaluate state current canary with
    | error fault =>
      have failed : ¬ ∃ after, evaluate state current canary = .ok after := by simp [evaluated]
      rw [first, not_or] at failed
      refine iff_of_false ?_ ?_
      · rintro ⟨_, ⟨⟩⟩
      · rintro (hasBin | ⟨idle, _⟩)
        · exact failed.1 hasBin
        · exact failed.2 idle
    | ok after =>
      have same := trees_evaluate evaluated
      rw [Checked.ok_bind, ih (same ▸ built), or_and_left, and_iff_right (first.mp ⟨after, evaluated⟩)]

end Constraint

theorem LoadBalancingConstraint.partialTree_hasBin_iff (bins : state.assignmentTree.binDomain = 1) (domain : Domain)
    (domainIds : List DomainId) :
    (partialTree state domain domainIds).HasBin ↔ (state.assignmentTree.createPartialTree domain domainIds).HasBin := by
  rw [HasBin, partialTree, rows_addMapping, addMapping_binDomain, createPartialTree_binDomain, bins, HasBin,
    createPartialTree_binDomain, bins]
  exact or_iff_right (by decide)

variable (state) in
theorem tree_hasBin_iff (descends : Descends state.assignmentTree) (bins : state.assignmentTree.binDomain = 1)
    (arguments : Constraint.Arguments) :
    (arguments.tree state).HasBin ↔
      ∃ domainId ∈ arguments.domainIds, state.assignmentTree.LeadsToBin (arguments.domain, domainId) := by
  rw [← createPartialTree_hasBin_iff descends]
  cases arguments with
  | loadBalancing domain domainIds => exact LoadBalancingConstraint.partialTree_hasBin_iff bins domain domainIds
  | _ => rfl

/-- Constructors find all they look up, and so does every run of canaries exactly if
the given nodes lead to a bin or nothing moves. -/
theorem canaries_defined_iff (shardInfoVector : List ShardInfo) (metricVectors : List (List MetricValue))
    (domainMapping : List (List (List DomainId))) (order : HashOrder) (info : BinWeightInfo) (arguments : Constraint.Arguments) :
    ∃ made,
      Constraint.new order (SolvingState.new shardInfoVector metricVectors domainMapping).withEmptyMovementMap info arguments =
        .ok made ∧
      ∀ canaries : List Canary,
        (∃ after, canaries.foldlM
          (Constraint.evaluate (SolvingState.new shardInfoVector metricVectors domainMapping).withEmptyMovementMap) made = .ok after) ↔
        (∃ domainId ∈ arguments.domainIds, LeadsToBin
          (SolvingState.new shardInfoVector metricVectors domainMapping).assignmentTree (arguments.domain, domainId)) ∨
        ∀ canary ∈ canaries, canary.canariedMoves.getAllMovements.keys = [] := by
  obtain ⟨shards, bins⟩ := SolvingState.new_domains shardInfoVector metricVectors domainMapping
  obtain ⟨made, constructed, built⟩ := Constraint.new_defined order
    (SolvingState.new shardInfoVector metricVectors domainMapping).withEmptyMovementMap rfl info arguments
  have domains : (arguments.tree (SolvingState.new shardInfoVector metricVectors domainMapping).withEmptyMovementMap).shardDomain =
      (0 : Domain) := by
    cases arguments with
    | loadBalancing => exact (addMapping_shardDomain _ _ _ _).trans ((createPartialTree_shardDomain _ _ _).trans shards)
    | _ => exact (createPartialTree_shardDomain _ _ _).trans shards
  have hasBin := tree_hasBin_iff (SolvingState.new shardInfoVector metricVectors domainMapping).withEmptyMovementMap
    (SolvingState.descends_new shardInfoVector metricVectors domainMapping) bins arguments
  refine ⟨made, constructed, fun canaries => ?_⟩
  rw [Constraint.evaluations_defined_iff rfl domains canaries built, hasBin]
  rfl

/-- A constraint over no nodes looks for a row of bins when a shard moves. -/
theorem empty_constraint_throws :
    ∃ made, Constraint.new .insertion .twoBins .empty (.metric .after 1 [] 0 10 1) = .ok made ∧
      Constraint.evaluate .twoBins made ⟨.insertion, {}, .addMovement {} 0 1, false⟩ = .error .outOfRange :=
  ⟨_, rfl, rfl⟩

end ShardManager
