import ShardManager.Placer.Types

/-! The messages of `ServiceDiscovery.proto`. An unset `oneof` is a case of its own;
fields of a message that is not set read as their defaults. -/

namespace ShardManager

structure ShardRange where
  start : Nat
  «end» : Nat
deriving DecidableEq

/-- The key of the range in a map, a pair of `int64_t`. -/
def ShardRange.key (range : ShardRange) : Int × Int := (toInt64 range.start, toInt64 range.end)

inductive ShardType where
  | unknown
  | primary
  | secondary
deriving DecidableEq

inductive ShardRangeStatus where
  | unknown
  | added
  | pendingAdded
  | pendingDropped
  | forwarding
  | pendingForwarding
  | dropped
deriving DecidableEq

structure Shard where
  range : ShardRange
  type : ShardType
  id : Int
deriving DecidableEq

structure ShardMetrics where
  metrics : UnorderedMap String MetricValue

structure ShardInfo where
  shard : Shard
  metrics : ShardMetrics
  status : ShardRangeStatus

structure ShardUpdateRequest where
  assignedShards : List Shard
  unassignedShards : List Shard

structure ShardForwardRequest where
  forwardedShards : List Shard
  nextBins : List String

structure ShardInfoUpdate where
  shardInfos : List ShardInfo

inductive BinStatus where
  | unknown
  | healthy
  | drain

structure ConnectionRequest where
  serviceId : Int := 0
  serviceKey : String := ""
  binId : Int := 0
  shardInfo : List ShardInfo := []
  status : BinStatus := .unknown

structure ConnectionResponse where
  success : Bool

inductive ServerMessage where
  | notSet
  | connectionResponse (response : ConnectionResponse)
  | shardUpdateRequest (request : ShardUpdateRequest)
  | shardForwardRequest (request : ShardForwardRequest)

inductive ClientMessage where
  | notSet
  | connectionRequest (request : ConnectionRequest)
  | shardInfoUpdate (update : ShardInfoUpdate)
  | status (status : BinStatus)

namespace ClientMessage

def hasConnectionRequest : ClientMessage → Bool
  | .connectionRequest _ => true
  | _ => false

/-- The accessor `connection_request()`, which returns a default message where none is set. -/
def getConnectionRequest : ClientMessage → ConnectionRequest
  | .connectionRequest request => request
  | _ => {}

end ClientMessage

end ShardManager
