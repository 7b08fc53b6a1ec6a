import ShardManager.Placer.SolvingState

/-! `ExpressionTree.cpp`: values of the nodes of a hierarchy, kept up to date by
recomputing the parents of whatever changed, round after round upwards. -/

namespace ShardManager

abbrev NodeToMetricsMap := UnorderedMap Domain (UnorderedMap DomainId Int)
abbrev MetricsMap := CommittableMap NodeToMetricsMap Node Int

/-- Nodes to recompute, each with its children that changed. -/
abbrev UpdateMap := UnorderedMap Node (List DomainId)

namespace UpdateMap

def changedChildren (toUpdate : UpdateMap) (node : Node) : List DomainId := (toUpdate.lookup node).getD []

/-- `toUpdate[domain][domainId].emplace_back(child)`. -/
def push (toUpdate : UpdateMap) (node : Node) (child : DomainId) : UpdateMap :=
  toUpdate.insert node (toUpdate.changedChildren node ++ [child])

def pushAll (toUpdate : UpdateMap) (nodes : List Node) (child : DomainId) : UpdateMap :=
  nodes.foldl (fun toUpdate node => toUpdate.push node child) toUpdate

@[simp] theorem changedChildren_empty (node : Node) : changedChildren ∅ node = [] := rfl

private theorem changedChildren_push (toUpdate : UpdateMap) (node other : Node) (child : DomainId) :
    (toUpdate.push node child).changedChildren other =
      toUpdate.changedChildren other ++ if other = node then [child] else [] := by
  unfold push changedChildren
  rw [UnorderedMap.lookup_insert]
  by_cases same : other = node
  · subst same
    simp
  · simp [same]

theorem changedChildren_pushAll (toUpdate : UpdateMap) (nodes : List Node) (child : DomainId) (other : Node) :
    (toUpdate.pushAll nodes child).changedChildren other =
      toUpdate.changedChildren other ++ List.replicate (nodes.count other) child := by
  induction nodes generalizing toUpdate with
  | nil => simp [pushAll]
  | cons node nodes ih =>
    refine (ih (toUpdate.push node child)).trans ?_
    rw [changedChildren_push, List.append_assoc]
    by_cases same : other = node
    · subst same
      rw [if_pos rfl, List.count_cons_self, List.replicate_succ, List.singleton_append]
    · rw [if_neg same, List.count_cons_of_ne (Ne.symm same), List.nil_append]

theorem mem_keys_pushAll (toUpdate : UpdateMap) (nodes : List Node) (child : DomainId) (other : Node) :
    other ∈ (toUpdate.pushAll nodes child).keys ↔ other ∈ nodes ∨ other ∈ toUpdate.keys := by
  induction nodes generalizing toUpdate with
  | nil => simp [pushAll]
  | cons node nodes ih =>
    refine (ih (toUpdate.push node child)).trans ?_
    rw [push, ← AList.mem_keys, AList.mem_insert, AList.mem_keys, List.mem_cons]
    tauto

def Proper (toUpdate : UpdateMap) : Prop := ∀ node, node ∈ toUpdate.keys ↔ toUpdate.changedChildren node ≠ []

theorem proper_empty : Proper ∅ := by
  intro node
  simp

theorem Proper.pushAll {toUpdate : UpdateMap} (proper : toUpdate.Proper) (nodes : List Node) (child : DomainId) :
    (toUpdate.pushAll nodes child).Proper := by
  intro node
  have none : toUpdate.changedChildren node ++ List.replicate (nodes.count node) child = [] ↔
      toUpdate.changedChildren node = [] ∧ node ∉ nodes := by
    rw [List.append_eq_nil_iff, List.replicate_eq_nil_iff, List.count_eq_zero]
  rw [mem_keys_pushAll, changedChildren_pushAll, proper node, ne_eq, ne_eq, none]
  tauto

end UpdateMap

/-- `calcMetricFunc_`. The closures the constraints pass also write members of
the constraint and the shared weights: these are the context `σ`. -/
abbrev CalcMetricFunc (σ : Type) :=
  SparseMappingTree → List MovementMapPtr → MetricsMap → List DomainId → Node → σ → Except Fault (Int × σ)

/-- What a round of `propagateChanges` reads and writes. -/
structure Propagation (σ : Type) where
  metricsMap : MetricsMap
  nextToUpdate : UpdateMap
  context : σ

section Propagate
variable {σ : Type} (order : HashOrder) (calcMetricFunc : CalcMetricFunc σ) (tree : SparseMappingTree)
  (movementMaps : List MovementMapPtr)

/-- The body of the loops over `toUpdate`. -/
def updateNode (toUpdate : UpdateMap) (round : Propagation σ) (node : Node) : Except Fault (Propagation σ) := do
  let prevVal := round.metricsMap.get node
  let (curVal, context) ←
    calcMetricFunc tree movementMaps round.metricsMap (toUpdate.changedChildren node) node round.context
  if prevVal = some curVal then pure { round with context }
  else
    let parents ← tree.getParents node.1 node.2 movementMaps
    pure ⟨round.metricsMap.set true curVal node, round.nextToUpdate.pushAll parents node.2, context⟩

/-- The recursion climbs from a domain to its parent domains; `rounds` bounds it
by the number of domains the tree has. -/
def propagateChanges : Nat → UpdateMap → MetricsMap × σ → Except Fault (MetricsMap × σ)
  | 0, _, current => .ok current
  | rounds + 1, toUpdate, (metricsMap, context) => do
    let round ← (order.nodes toUpdate.keys).foldlM (updateNode calcMetricFunc tree movementMaps toUpdate)
      ⟨metricsMap, ∅, context⟩
    if round.nextToUpdate.keys.isEmpty then pure (round.metricsMap, round.context)
    else propagateChanges rounds round.nextToUpdate (round.metricsMap, round.context)

end Propagate

structure ExpressionTree where
  assignmentTree : SparseMappingTree
  metricsMap : MetricsMap

namespace ExpressionTree
variable {σ : Type} (order : HashOrder) (state : SolvingState) (calcMetricFunc : CalcMetricFunc σ)

/-- The loop that enters the parents of every given shard into `toUpdate`. -/
def shardParents (tree : SparseMappingTree) (movementMaps : List MovementMapPtr) (shardIds : List DomainId) :
    Except Fault UpdateMap :=
  shardIds.foldlM (fun toUpdate shardId => do
    let parents ← tree.getParents state.shardDomain shardId movementMaps
    pure (toUpdate.pushAll parents shardId)) ∅

/-- Evaluate everything above the given shards. -/
def update (tree : ExpressionTree) (movementMaps : List MovementMapPtr) (shardIds : List DomainId) (context : σ) :
    Except Fault (ExpressionTree × σ) := do
  let toUpdate ← shardParents state tree.assignmentTree movementMaps shardIds
  let (metricsMap, context) ← propagateChanges order calcMetricFunc tree.assignmentTree movementMaps
    tree.assignmentTree.maxDepth toUpdate (tree.metricsMap, context)
  pure ({ tree with metricsMap }, context)

/-- The constructor, which calls `initializeMetricState`. -/
def new (assignmentTree : SparseMappingTree) (context : σ) : Except Fault (ExpressionTree × σ) :=
  update order state calcMetricFunc ⟨assignmentTree, .empty⟩ [state.movementMap]
    (order.ids (assignmentTree.getAllDomainIds state.shardDomain)) context

def canaryMoves (tree : ExpressionTree) (committedMoves canaryMoves : MovementMapPtr) (context : σ) :
    Except Fault (ExpressionTree × σ) := do
  let allMovements := (← SparseMappingTree.deref canaryMoves).getAllMovements
  update order state calcMetricFunc { tree with metricsMap := tree.metricsMap.clear }
    [state.movementMap, committedMoves, canaryMoves] (order.ids allMovements.keys) context

def commitMoves (tree : ExpressionTree) : ExpressionTree := { tree with metricsMap := tree.metricsMap.commit }

end ExpressionTree
end ShardManager
