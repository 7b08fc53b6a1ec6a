import ShardManager.Proofs.Operators

/-! Propagation of changes where no movement map is missing: it cannot fail, and
each round changes the nodes it visits by what their children changed. -/

namespace ShardManager

/-- What a `calcMetricFunc` reads to compute the value of a node: the value the node
has, the values and the committed values of its children, and which of them changed. -/
structure Reading where
  own : Option Int
  view : DomainId → Option Int
  committed : DomainId → Option Int
  changedChildren : List DomainId

/-- A `calcMetricFunc` without errors: the value of a node, and what computing it
does to the context. -/
structure Calculation (σ : Type) where
  value : SparseMappingTree → List MovementMap → Node → Reading → Int
  effect : Node → Int → σ → σ

/-- What is read at a node, its children being in the given domain. -/
def MetricsMap.reading (metricsMap : MetricsMap) (childDomain : Domain) (changedChildren : List DomainId) (node : Node) :
    Reading where
  own := metricsMap.get node
  view child := metricsMap.get (childDomain, child)
  committed child := metricsMap.getFromCommittedMap (childDomain, child)
  changedChildren

variable {σ : Type}

/-- The function computes the calculation at every node with children. -/
def Calculates (calcMetricFunc : CalcMetricFunc σ) (calculation : Calculation σ) : Prop :=
  ∀ tree movementMaps metricsMap changedChildren node context, SparseMappingTree.Mapped tree node →
    ∀ childDomain, tree.getChildDomain node.1 = some childDomain →
      let val := calculation.value tree movementMaps node (metricsMap.reading childDomain changedChildren node)
      calcMetricFunc tree (movementMaps.map some) metricsMap changedChildren node context =
        .ok (val, calculation.effect node val context)

section Plain
variable (order : HashOrder) (calculation : Calculation σ) (tree : SparseMappingTree) (movementMaps : List MovementMap)

def visitNode (toUpdate : UpdateMap) (round : Propagation σ) (node : Node) : Propagation σ :=
  let childDomain := (tree.getChildDomain node.1).getD 0
  let curVal := calculation.value tree movementMaps node
    (round.metricsMap.reading childDomain (toUpdate.changedChildren node) node)
  let context := calculation.effect node curVal round.context
  if round.metricsMap.get node = some curVal then { round with context }
  else ⟨round.metricsMap.set true curVal node,
    round.nextToUpdate.pushAll (tree.parentNodes node.1 node.2 movementMaps) node.2, context⟩

def visitRound (toUpdate : UpdateMap) (metricsMap : MetricsMap) (context : σ) : Propagation σ :=
  (order.nodes toUpdate.keys).foldl (visitNode calculation tree movementMaps toUpdate) ⟨metricsMap, ∅, context⟩

def visitRounds : Nat → UpdateMap → MetricsMap × σ → MetricsMap × σ
  | 0, _, current => current
  | rounds + 1, toUpdate, (metricsMap, context) =>
    let round := visitRound order calculation tree movementMaps toUpdate metricsMap context
    if round.nextToUpdate.keys.isEmpty then (round.metricsMap, round.context)
    else visitRounds rounds round.nextToUpdate (round.metricsMap, round.context)

end Plain

/-- `getParents` finds every key it looks up. -/
def SparseMappingTree.Resolves (tree : SparseMappingTree) (movementMaps : List MovementMap) : Prop :=
  ∀ domain domainId, tree.getParents domain domainId (movementMaps.map some) = .ok (tree.parentNodes domain domainId movementMaps)

theorem SparseMappingTree.HasBin.resolves {tree : SparseMappingTree} (hasBin : tree.HasBin) (movementMaps : List MovementMap) :
    tree.Resolves movementMaps :=
  fun domain domainId => tree.getParents_eq domain domainId movementMaps hasBin

theorem SparseMappingTree.resolves_unmoved (tree : SparseMappingTree) : tree.Resolves [{}] := by
  intro domain domainId
  rw [getParents, parentNodes]
  split
  · rw [movedParents, List.filterMap_cons, MovementMap.next_empty, List.filterMap_nil, List.filterMap_nil, List.append_nil]
    rfl
  · rw [List.append_nil]

variable {order : HashOrder} {calcMetricFunc : CalcMetricFunc σ} {calculation : Calculation σ} {tree : SparseMappingTree}
  {movementMaps : List MovementMap}

/-- What visiting nodes enters and writes. -/
private theorem visitNodes_context {visited : Node → Prop} {keeps : σ → Prop}
    (climbs : ∀ node, visited node → ∀ parent ∈ tree.parentNodes node.1 node.2 movementMaps, visited parent)
    (effects : ∀ node val context, visited node → keeps context → keeps (calculation.effect node val context))
    {toUpdate : UpdateMap} {nodes : List Node} {round : Propagation σ} (inside : ∀ node ∈ nodes, visited node)
    (entered : ∀ node ∈ round.nextToUpdate.keys, visited node) (begins : keeps round.context) :
    (∀ node ∈ (nodes.foldl (visitNode calculation tree movementMaps toUpdate) round).nextToUpdate.keys, visited node) ∧
      keeps (nodes.foldl (visitNode calculation tree movementMaps toUpdate) round).context := by
  induction nodes generalizing round with
  | nil => exact ⟨entered, begins⟩
  | cons node nodes ih =>
    have here := inside node (by simp)
    refine ih (fun other member => inside other (by simp [member])) ?_ ?_
    · intro parent member
      unfold visitNode at member
      simp only at member
      split at member
      · exact entered parent member
      · rcases (UpdateMap.mem_keys_pushAll _ _ _ _).mp member with new | old
        · exact climbs node here parent new
        · exact entered parent old
    · unfold visitNode
      simp only
      split <;> exact effects node _ _ here begins

private theorem updateNode_eq (calculates : Calculates calcMetricFunc calculation) (resolves : tree.Resolves movementMaps) (toUpdate : UpdateMap)
    (round : Propagation σ) {node : Node} (mapped : tree.Mapped node) :
    updateNode calcMetricFunc tree (movementMaps.map some) toUpdate round node =
      .ok (visitNode calculation tree movementMaps toUpdate round node) := by
  obtain ⟨childDomain, found⟩ := Option.isSome_iff_exists.mp mapped.1
  rw [updateNode, calculates _ _ _ _ _ _ mapped childDomain found, Checked.ok_bind]
  simp only [visitNode, found, Option.getD_some]
  split
  · rfl
  · rw [resolves node.1 node.2]
    rfl

/-- Without null pointers and missing keys, a propagation finishes. -/
private theorem propagateChanges_eq (calculates : Calculates calcMetricFunc calculation) (resolves : tree.Resolves movementMaps)
    (rounds : Nat) (toUpdate : UpdateMap) (metricsMap : MetricsMap) (context : σ) (mapped : ∀ node ∈ toUpdate.keys, tree.Mapped node) :
    propagateChanges order calcMetricFunc tree (movementMaps.map some) rounds toUpdate (metricsMap, context) =
      .ok (visitRounds order calculation tree movementMaps rounds toUpdate (metricsMap, context)) := by
  induction rounds generalizing toUpdate metricsMap context with
  | zero => rfl
  | succ rounds ih =>
    have round : (order.nodes toUpdate.keys).foldlM
          (updateNode calcMetricFunc tree (movementMaps.map some) toUpdate) ⟨metricsMap, ∅, context⟩ =
        .ok (visitRound order calculation tree movementMaps toUpdate metricsMap context) := by
      apply Checked.foldlM_ok
      intro round node member
      exact updateNode_eq calculates resolves toUpdate round (mapped node ((order.nodes_perm _).mem_iff.mp member))
    rw [propagateChanges, round, Checked.ok_bind, visitRounds]
    split
    · rfl
    · apply ih
      have climbs : ∀ node, tree.Mapped node → ∀ parent ∈ tree.parentNodes node.1 node.2 movementMaps, tree.Mapped parent :=
        fun _ _ _ => tree.mapped_of_mem_parentNodes
      have effects : ∀ node val context, tree.Mapped node → True → (fun _ : σ => True) (calculation.effect node val context) :=
        fun _ _ _ _ => id
      exact (visitNodes_context climbs effects (fun node member => mapped node ((order.nodes_perm _).mem_iff.mp member))
        (by simp) trivial).1

namespace ExpressionTree
variable (state : SolvingState)

def entered (tree : SparseMappingTree) (movementMaps : List MovementMap) (shardIds : List DomainId) : UpdateMap :=
  shardIds.foldl (fun toUpdate shardId =>
    toUpdate.pushAll (tree.parentNodes state.shardDomain shardId movementMaps) shardId) ∅

theorem mapped_entered (tree : SparseMappingTree) (movementMaps : List MovementMap) (shardIds : List DomainId) :
    ∀ node ∈ (entered state tree movementMaps shardIds).keys, tree.Mapped node := by
  have loop : ∀ toUpdate : UpdateMap, (∀ node ∈ toUpdate.keys, tree.Mapped node) →
      ∀ node ∈ (shardIds.foldl (fun toUpdate shardId =>
        toUpdate.pushAll (tree.parentNodes state.shardDomain shardId movementMaps) shardId) toUpdate).keys,
          tree.Mapped node := by
    induction shardIds with
    | nil => exact fun _ mapped => mapped
    | cons shardId shardIds ih =>
      intro toUpdate mapped
      apply ih
      intro node member
      rcases (UpdateMap.mem_keys_pushAll _ _ _ _).mp member with new | old
      · exact tree.mapped_of_mem_parentNodes new
      · exact mapped node old
  exact loop ∅ (by simp)

theorem changedChildren_entered (tree : SparseMappingTree) (movementMaps : List MovementMap) (shardIds : List DomainId)
    (node : Node) :
    (entered state tree movementMaps shardIds).changedChildren node =
      shardIds.flatMap fun shardId =>
        List.replicate ((tree.parentNodes state.shardDomain shardId movementMaps).count node) shardId := by
  have loop : ∀ toUpdate : UpdateMap, (shardIds.foldl (fun toUpdate shardId =>
      toUpdate.pushAll (tree.parentNodes state.shardDomain shardId movementMaps) shardId) toUpdate).changedChildren node =
        toUpdate.changedChildren node ++ shardIds.flatMap fun shardId =>
          List.replicate ((tree.parentNodes state.shardDomain shardId movementMaps).count node) shardId := by
    induction shardIds with
    | nil => simp
    | cons shardId shardIds ih =>
      intro toUpdate
      rw [List.foldl_cons, ih, UpdateMap.changedChildren_pushAll]
      simp
  exact loop ∅

/-- The result of evaluating everything above the given shards. -/
def updated (order : HashOrder) (calculation : Calculation σ) (tree : ExpressionTree) (movementMaps : List MovementMap)
    (shardIds : List DomainId) (context : σ) : ExpressionTree × σ :=
  let final := visitRounds order calculation tree.assignmentTree movementMaps tree.assignmentTree.maxDepth
    (entered state tree.assignmentTree movementMaps shardIds) (tree.metricsMap, context)
  ({ tree with metricsMap := final.1 }, final.2)

variable (order) in
private theorem update_eq (calculates : Calculates calcMetricFunc calculation) (tree : ExpressionTree)
    {movementMaps : List MovementMap} (resolves : tree.assignmentTree.Resolves movementMaps) (shardIds : List DomainId) (context : σ) :
    tree.update order state calcMetricFunc (movementMaps.map some) shardIds context =
      .ok (tree.updated state order calculation movementMaps shardIds context) := by
  have parents : shardParents state tree.assignmentTree (movementMaps.map some) shardIds =
      .ok (entered state tree.assignmentTree movementMaps shardIds) := by
    apply Checked.foldlM_ok
    intro toUpdate shardId _
    rw [resolves state.shardDomain shardId]
    rfl
  rw [update, parents, Checked.ok_bind, propagateChanges_eq calculates resolves _ _ _ _ (mapped_entered _ _ _ _)]
  rfl

theorem new_eq (calculates : Calculates calcMetricFunc calculation) (tree : SparseMappingTree) {own : MovementMap}
    (present : state.movementMap = some own) (resolves : tree.Resolves [own]) (context : σ) :
    ExpressionTree.new order state calcMetricFunc tree context =
      .ok ((⟨tree, .empty⟩ : ExpressionTree).updated state order calculation [own]
        (order.ids (tree.getAllDomainIds state.shardDomain)) context) := by
  rw [ExpressionTree.new, present]
  exact update_eq order state calculates ⟨tree, .empty⟩ resolves _ context

theorem canaryMoves_eq (calculates : Calculates calcMetricFunc calculation) (tree : ExpressionTree)
    (hasBin : tree.assignmentTree.HasBin) {own : MovementMap} (present : state.movementMap = some own)
    (committedMoves canaryMoves : MovementMap) (context : σ) :
    tree.canaryMoves order state calcMetricFunc (some committedMoves) (some canaryMoves) context =
      .ok (({ tree with metricsMap := tree.metricsMap.clear } : ExpressionTree).updated state order calculation
        [own, committedMoves, canaryMoves] (order.ids canaryMoves.getAllMovements.keys) context) := by
  refine Eq.trans ?_ (update_eq order state calculates ⟨tree.assignmentTree, tree.metricsMap.clear⟩ (hasBin.resolves _) _ _)
  rw [ExpressionTree.canaryMoves, present]
  rfl

end ExpressionTree

/-- If every entered node has recorded the value that is computed for it, there is one round,
and it changes nothing but the context. -/
theorem ExpressionTree.updated_kept (state : SolvingState) (order : HashOrder) (metricsMap : MetricsMap) (shardIds : List DomainId)
    (context : σ) {value : Node → Int} (computed : ∀ node ∈ (entered state tree movementMaps shardIds).keys,
      calculation.value tree movementMaps node (metricsMap.reading ((tree.getChildDomain node.1).getD 0)
        ((entered state tree movementMaps shardIds).changedChildren node) node) = value node)
    (kept : ∀ node ∈ (entered state tree movementMaps shardIds).keys, metricsMap.get node = some (value node)) :
    (ExpressionTree.mk tree metricsMap).updated state order calculation movementMaps shardIds context =
      (⟨tree, metricsMap⟩, (order.nodes (entered state tree movementMaps shardIds).keys).foldl
        (fun context node => calculation.effect node (value node) context) context) := by
  have round : visitRound order calculation tree movementMaps (entered state tree movementMaps shardIds) metricsMap context =
      ⟨metricsMap, ∅, (order.nodes (entered state tree movementMaps shardIds).keys).foldl
        (fun context node => calculation.effect node (value node) context) context⟩ := by
    have visits : ∀ (nodes : List Node) (context : σ), (∀ node ∈ nodes, node ∈ (entered state tree movementMaps shardIds).keys) →
        nodes.foldl (visitNode calculation tree movementMaps (entered state tree movementMaps shardIds)) ⟨metricsMap, ∅, context⟩ =
          ⟨metricsMap, ∅, nodes.foldl (fun context node => calculation.effect node (value node) context) context⟩ := by
      intro nodes
      induction nodes with
      | nil => exact fun _ _ => rfl
      | cons node nodes ih =>
        intro context inside
        have here := inside node (by simp)
        rw [List.foldl_cons, visitNode]
        simp only [computed node here, kept node here, if_true]
        exact ih _ fun other member => inside other (by simp [member])
    exact visits _ context fun node member => (order.nodes_perm _).mem_iff.mp member
  rw [updated, SparseMappingTree.maxDepth, visitRounds, round]
  rfl

section Context
variable {visited : Node → Prop} {keeps : σ → Prop}
  (climbs : ∀ node, visited node → ∀ parent ∈ tree.parentNodes node.1 node.2 movementMaps, visited parent)
  (effects : ∀ node val context, visited node → keeps context → keeps (calculation.effect node val context))
include climbs effects

/-- What the visited nodes write keeps a property of the context. -/
theorem ExpressionTree.updated_context (state : SolvingState) (order : HashOrder) (metricsMap : MetricsMap) (shardIds : List DomainId)
    {context : σ} (entered : ∀ node ∈ (entered state tree movementMaps shardIds).keys, visited node) (begins : keeps context) :
    keeps ((ExpressionTree.mk tree metricsMap).updated state order calculation movementMaps shardIds context).2 := by
  have rounds : ∀ (rounds : Nat) (toUpdate : UpdateMap) (metricsMap : MetricsMap) (context : σ),
      (∀ node ∈ toUpdate.keys, visited node) → keeps context →
        keeps (visitRounds order calculation tree movementMaps rounds toUpdate (metricsMap, context)).2 := by
    intro rounds
    induction rounds with
    | zero => exact fun _ _ _ _ kept => kept
    | succ rounds ih =>
      intro toUpdate metricsMap context inside kept
      have round : (∀ node ∈ (visitRound order calculation tree movementMaps toUpdate metricsMap context).nextToUpdate.keys, visited node) ∧
          keeps (visitRound order calculation tree movementMaps toUpdate metricsMap context).context :=
        visitNodes_context climbs effects (fun node member => inside node ((order.nodes_perm _).mem_iff.mp member)) (by simp) kept
      rw [visitRounds]
      split
      · exact round.2
      · exact ih _ _ _ round.1 round.2
  exact rounds _ _ _ _ entered begins

end Context
end ShardManager
