import ShardManager.Lib.Traced
import ShardManager.Placer.Constraints

/-! `constraints/ExclusionConstraint.h`: how many shards of each range a fault domain
holds. The source calls `getBinParentInDomain` and reads `shardRangeId`, and defines
neither; both are parameters here. -/

namespace ShardManager

/-- What the closure of an `ExclusionConstraint` writes. The counts are of type `size_t`. -/
structure RangeCounts (ShardRangeId : Type) where
  shardRangeIdCount : UnorderedMap DomainId (UnorderedMap ShardRangeId Nat)
  binWeightInfo : BinWeightInfo

/-- A change of a count: its value before, and what is added to it. -/
structure CountChange where
  prevCount : Nat
  count : Int

namespace ExclusionConstraint
variable {ShardRangeId : Type} [DecidableEq ShardRangeId]

/-- `shardRangeIdCount_[binParent][shardRangeId]`. -/
def count (counts : RangeCounts ShardRangeId) (binParent : DomainId) (shardRangeId : ShardRangeId) : Nat :=
  (((counts.shardRangeIdCount.lookup binParent).getD ∅).lookup shardRangeId).getD 0

/-- `count > 1 ? count : 0`. -/
def excess (count : Nat) : Nat := if count > 1 then count else 0

/-- The body of `changeShardRangeCount` once the parent of the bin is known. The products
and their difference are of type `size_t`, which `addTotalWeight` takes as `int64_t`. -/
def changed (faultWeight : Int) (binParent : DomainId) (rangeId : ShardRangeId) (change : Int)
    (counts : RangeCounts ShardRangeId) : RangeCounts ShardRangeId :=
  let prevCount := count counts binParent rangeId
  let currentCount := toSizeT (prevCount + change)
  let rangeCounts := ((counts.shardRangeIdCount.lookup binParent).getD ∅).insert rangeId currentCount
  let prevFaultWeight := toSizeT (faultWeight * excess prevCount)
  let currentFaultWeight := toSizeT (faultWeight * excess currentCount)
  let delta := toSizeT ((currentFaultWeight : Int) - (prevFaultWeight : Int))
  ⟨counts.shardRangeIdCount.insert binParent rangeCounts, counts.binWeightInfo.addTotalWeight (toInt64 delta)⟩

variable (getBinParentInDomain : DomainId → Domain → Option DomainId) (shardRangeId : DomainId → ShardRangeId)
  (state : SolvingState) (exclusionDomain : Domain) (faultWeight : Int)

def changeShardRangeCount (binId : DomainId) (rangeId : ShardRangeId) (change : Int) (counts : RangeCounts ShardRangeId) :
    Traced Fault CountChange (RangeCounts ShardRangeId) :=
  match getBinParentInDomain binId exclusionDomain with
  | some binParent => do
    Traced.tell ⟨count counts binParent rangeId, change⟩
    pure (changed faultWeight binParent rangeId change counts)
  | none => Traced.lift (.error .emptyOptional)

/-- Both changes are made to the future bin. -/
def addBinCount (assignmentTree : SparseMappingTree) (movementMaps : List MovementMapPtr) (node : Node)
    (counts : RangeCounts ShardRangeId) : Traced Fault CountChange (Int × RangeCounts ShardRangeId) := do
  if node.1 = state.shardDomain then
    let currentBin ← Traced.lift (getCurrentBin assignmentTree state.shardDomain node.2 state.binDomain)
    let futureBin ← Traced.lift (getFutureBin assignmentTree state.shardDomain node.2 state.binDomain movementMaps)
    let counts ←
      if currentBin ≠ kDefaultBin then
        changeShardRangeCount getBinParentInDomain exclusionDomain faultWeight futureBin (shardRangeId node.2) (-1) counts
      else pure counts
    let counts ←
      if futureBin ≠ kDefaultBin then
        changeShardRangeCount getBinParentInDomain exclusionDomain faultWeight futureBin (shardRangeId node.2) 1 counts
      else pure counts
    pure (0, counts)
  else pure (0, counts)

end ExclusionConstraint
end ShardManager
