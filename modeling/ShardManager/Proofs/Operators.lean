import ShardManager.Placer.Constraints
import Mathlib.Tactic.Ring

/-! The operators on movement maps that exist: what they compute, without the
loops and the error branches. -/

namespace ShardManager

/-- `scanMovements` where no pointer is null. -/
def scanMaps (childId binId : DomainId) : List MovementMap → Bool → Bool × Bool
  | [], isMoving => (true, isMoving)
  | movementMap :: movementMaps, isMoving =>
    match movementMap.getNextBin childId with
    | none => scanMaps childId binId movementMaps isMoving
    | some nextBin => if nextBin ≠ binId then (false, true) else scanMaps childId binId movementMaps true

private theorem scanMovements_eq (childId binId : DomainId) (movementMaps : List MovementMap) (isMoving : Bool) :
    scanMovements childId binId (movementMaps.map some) isMoving = .ok (scanMaps childId binId movementMaps isMoving) := by
  induction movementMaps generalizing isMoving with
  | nil => rfl
  | cons movementMap movementMaps ih =>
    rw [List.map_cons, scanMovements, scanMaps]
    simp only [SparseMappingTree.deref, Checked.ok_bind]
    cases movementMap.getNextBin childId with
    | none => exact ih isMoving
    | some nextBin =>
      simp only
      split
      · rfl
      · exact ih true

def counted (consistency : MovementConsistency) (movementMaps : List MovementMap) (childId binId : DomainId) : Bool :=
  let scanned := scanMaps childId binId movementMaps false
  shouldConsider consistency scanned.1 scanned.2

theorem shouldConsiderShard_eq (consistency : MovementConsistency) (movementMaps : List MovementMap) (childId binId : DomainId) :
    shouldConsiderShard consistency (movementMaps.map some) childId binId =
      .ok (counted consistency movementMaps childId binId) := by
  rw [shouldConsiderShard, scanMovements_eq]
  rfl

def nextBins (movementMaps : List MovementMap) (shardId : DomainId) : List DomainId :=
  movementMaps.filterMap fun movementMap => movementMap.getNextBin shardId

theorem counted_after_iff (movementMaps : List MovementMap) (shardId binId : DomainId) :
    counted .after movementMaps shardId binId = true ↔ ∀ nextBin ∈ nextBins movementMaps shardId, nextBin = binId := by
  have scanned : ∀ isMoving, (scanMaps shardId binId movementMaps isMoving).1 = true ↔
      ∀ nextBin ∈ nextBins movementMaps shardId, nextBin = binId := by
    induction movementMaps with
    | nil => simp [scanMaps, nextBins]
    | cons movementMap movementMaps ih =>
      intro isMoving
      rw [scanMaps, nextBins, List.filterMap_cons]
      cases movementMap.getNextBin shardId with
      | none => exact ih isMoving
      | some nextBin =>
        by_cases here : nextBin = binId
        · simpa [here, nextBins] using ih true
        · simp [here]
  exact scanned false

theorem nextBins_candidate {moves : MovementMap} {shard : DomainId} (unmoved : moves.getNextBin shard = none)
    (nextBin child : DomainId) : nextBins [{}, moves, .addMovement {} shard nextBin] child =
      ((moves.addMovements (.addMovement {} shard nextBin)).getNextBin child).toList := by
  rw [MovementMap.next_addMovements, MovementMap.next_addMovement]
  by_cases same : child = shard
  · subst same
    simp [nextBins, List.filterMap_cons, unmoved]
  · cases moved : moves.getNextBin child <;> simp [nextBins, List.filterMap_cons, moved, same]

def signed (added : Bool) (delta : Int) : Int := if added then delta else -delta

private theorem foldl_signed {α : Type} (added : α → Bool) (delta : α → Int) (items : List α) (val : Int) :
    items.foldl (fun val item => if added item then val + delta item else val - delta item) val =
      val + (items.map fun item => signed (added item) (delta item)).sum := by
  induction items generalizing val with
  | nil => simp
  | cons item items ih =>
    rw [List.foldl_cons, ih, List.map_cons, List.sum_cons]
    cases added item <;> simp [signed] <;> ring

variable (state : SolvingState) (tree : SparseMappingTree) (movementMaps : List MovementMap) (metricMap : MetricsMap)
  (changedChildren : List DomainId) (node : Node) (consistency : MovementConsistency)

/-- Whether the operators add what changed in a child. -/
def addedChild (child : DomainId) : Bool :=
  if node.1 = state.binDomain then counted consistency movementMaps child node.2 else true

private theorem isFutureChild_eq (child : DomainId) :
    isFutureChild state (movementMaps.map some) node consistency child =
      .ok (addedChild state movementMaps node consistency child) := by
  unfold isFutureChild addedChild
  split
  · exact shouldConsiderShard_eq _ _ _ _
  · rfl

def childMetric (childDomain : Domain) (view committed : DomainId → Option Int) (child : DomainId) : Int :=
  if childDomain = state.shardDomain then state.getShardMetric 0 child
  else toInt32 ((view child).getD 0 - (committed child).getD 0)

theorem sumOperator_eq (metric : Metric) {childDomain : Domain} (mapped : tree.getChildDomain node.1 = some childDomain) :
    sumOperator state tree (movementMaps.map some) metricMap changedChildren node consistency metric =
      .ok (toInt32 ((metricMap.get node).getD 0 + (changedChildren.map fun child =>
        signed (addedChild state movementMaps node consistency child)
          (childMetric state childDomain (fun child => metricMap.get (childDomain, child))
            (fun child => metricMap.getFromCommittedMap (childDomain, child)) child)).sum)) := by
  rw [sumOperator, mapped, ← foldl_signed]
  simp only [pure_bind]
  rw [Checked.foldlM_ok]
  · rfl
  · intro val child _
    rw [isFutureChild_eq, Checked.ok_bind]
    rfl

theorem shardCountOperator_eq :
    shardCountOperator state (movementMaps.map some) metricMap changedChildren node consistency =
      .ok (toInt32 ((metricMap.get node).getD 0 + (changedChildren.map fun child =>
        signed (addedChild state movementMaps node consistency child) 1).sum)) := by
  rw [shardCountOperator, ← foldl_signed]
  rw [Checked.foldlM_ok]
  · rfl
  · intro val child _
    rw [isFutureChild_eq, Checked.ok_bind]
    rfl

private theorem foldl_narrowed {α : Type} (added : α → Bool) (value : α → Int) (items : List α) (sum : Int)
    (narrow : toInt32 sum = sum) :
    items.foldl (fun sum item => if added item then toInt32 (sum + value item) else sum) sum =
      toInt32 (sum + ((items.filter added).map value).sum) := by
  induction items generalizing sum with
  | nil => simp [narrow]
  | cons item items ih =>
    rw [List.foldl_cons, List.filter_cons]
    cases added item with
    | false => simpa using ih sum narrow
    | true =>
      simp only [if_true, List.map_cons, List.sum_cons]
      rw [ih _ (toInt32_toInt32 _), toInt32_add_left, add_assoc]

/-- A bin's sum in `LoadBalancingConstraint`, narrowed once instead of at every step. -/
theorem binSum_eq (metric : Metric) (binId : DomainId) (children : List DomainId) :
    LoadBalancingConstraint.binSum state metric (movementMaps.map some) binId children =
      .ok (toInt32 ((children.filter fun child => counted .after movementMaps child binId).map
        (state.getShardMetric metric)).sum) := by
  have sum := foldl_narrowed (fun child => counted .after movementMaps child binId) (state.getShardMetric metric)
    children 0 rfl
  rw [zero_add] at sum
  rw [LoadBalancingConstraint.binSum, ← sum]
  apply Checked.foldlM_ok
  intro sum child _
  rw [shouldConsiderShard_eq, Checked.ok_bind]
  rfl

end ShardManager
