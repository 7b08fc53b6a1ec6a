import ShardManager.Placer.ExpressionTree

/-! `constraints/ConstraintUtils.h`: which shards count for a bin, and the
operators that carry changes of children into the value of their parent. -/

namespace ShardManager

inductive MovementConsistency where
  | before
  | after
  | both
  | during
deriving DecidableEq, Repr

def shouldConsider (consistency : MovementConsistency) (isFutureChild isMoving : Bool) : Bool :=
  match consistency with
  | .before => !isFutureChild
  | .after => isFutureChild
  | .both => true
  | .during => isMoving

/-- The loop over the movement maps, which stops at the first map that sends the
shard elsewhere: `isFutureChild` and `isMoving` as it leaves them. -/
def scanMovements (childId binId : DomainId) : List MovementMapPtr → Bool → Except Fault (Bool × Bool)
  | [], isMoving => .ok (true, isMoving)
  | movementMap :: movementMaps, isMoving => do
    let movementMap ← SparseMappingTree.deref movementMap
    match movementMap.getNextBin childId with
    | none => scanMovements childId binId movementMaps isMoving
    | some nextBin => if nextBin ≠ binId then pure (false, true) else scanMovements childId binId movementMaps true

def shouldConsiderShard (consistency : MovementConsistency) (movementMaps : List MovementMapPtr) (childId binId : DomainId) :
    Except Fault Bool := do
  let (isFutureChild, isMoving) ← scanMovements childId binId movementMaps false
  pure (shouldConsider consistency isFutureChild isMoving)

section Bins
variable (assignmentTree : SparseMappingTree) (shardDomain : Domain) (shardId : DomainId) (binDomain : Domain)

/-- The loop over the parents without movements. -/
def getCurrentBin : Except Fault DomainId := do
  let parents ← assignmentTree.getParents shardDomain shardId []
  match parents.find? fun parent => parent.1 = binDomain with
  | some parent => pure parent.2
  | none => pure kDefaultBin

/-- Once no map moves the shard, the source repeats the body of `getCurrentBin`. -/
def getFutureBin : List MovementMapPtr → Except Fault DomainId
  | [] => getCurrentBin assignmentTree shardDomain shardId binDomain
  | movementMap :: movementMaps => do
    let movementMap ← SparseMappingTree.deref movementMap
    match movementMap.getNextBin shardId with
    | some nextBin => pure nextBin
    | none => getFutureBin movementMaps

end Bins

section Operators
variable (state : SolvingState) (assignmentTree : SparseMappingTree) (movementMaps : List MovementMapPtr)
  (metricMap : MetricsMap) (changedChildren : List DomainId) (node : Node) (consistency : MovementConsistency)

/-- Whether a changed child is added to the value of its parent or taken off it. -/
def isFutureChild (child : DomainId) : Except Fault Bool :=
  if node.1 = state.binDomain then shouldConsiderShard consistency movementMaps child node.2 else pure true

/-- `int32_t metric = 0` in the loop hides the parameter of that name, so the
state is always asked for metric 0. -/
def sumOperator (_metric : Metric) : Except Fault Int := do
  let childDomain ←
    match assignmentTree.getChildDomain node.1 with
    | some childDomain => pure childDomain
    | none => throw Fault.emptyOptional
  let val ← changedChildren.foldlM (fun val child => do
    let isFutureChild ← isFutureChild state movementMaps node consistency child
    let metric : Int := 0
    let metric :=
      if childDomain = state.shardDomain then state.getShardMetric metric.toNat child
      else toInt32 ((metricMap.get (childDomain, child)).getD 0 -
        (metricMap.getFromCommittedMap (childDomain, child)).getD 0)
    pure (if isFutureChild then val + metric else val - metric)) ((metricMap.get node).getD 0)
  pure (toInt32 val)

def shardCountOperator : Except Fault Int := do
  let val ← changedChildren.foldlM (fun val child => do
    let isFutureChild ← isFutureChild state movementMaps node consistency child
    pure (if isFutureChild then val + 1 else val - 1)) ((metricMap.get node).getD 0)
  pure (toInt32 val)

end Operators
end ShardManager
