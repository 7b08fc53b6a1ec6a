import ShardManager.Messages
import ShardManager.ServerUtils.RequestHandler

/-! `user_libs/Client.h`: the client's end of the stream, the requests it processes
and the status it reports for each range. -/

namespace ShardManager.UserLibs
open ServerUtils

abbrev StatusMap := UnorderedMap (Int × Int) ShardRangeStatus

/-- The two virtual functions an application overrides, over a state of its own. -/
structure Application (A : Type) where
  updateRanges : (assignedRanges unassignedRanges : List ShardRange) → A → Bool × A
  forwardRanges : (ranges : List ShardRange) → (nextBins : List String) → A → Bool × A

structure Client where
  base : ServerUtils.RequestHandler ClientMessage ServerMessage := { message := .notSet }
  serviceId : Int
  serviceKey : String
  shardRangeStatus : StatusMap := ∅
  shardRangePendingStatus : StatusMap := ∅
  isConnected : Bool := false
  /-- Messages of the threads that `handleRead` starts. -/
  threads : List ServerMessage := []

/-- The ranges of shards. The source passes the `Shard` messages themselves where
ranges are expected. -/
def ranges (shards : List Shard) : List ShardRange := shards.map Shard.range

namespace Client

/-- The overload without parameters: pending statuses over the others. -/
def getShardStatus (client : Client) : StatusMap :=
  UnorderedMap.merge (fun status _ => status) client.shardRangePendingStatus client.shardRangeStatus

/-- The overload for given ranges. -/
def getShardStatuses (client : Client) (ranges : List ShardRange) : List ShardRangeStatus :=
  ranges.map fun range =>
    match client.shardRangePendingStatus.lookup range.key with
    | some status => status
    | none =>
      match client.shardRangeStatus.lookup range.key with
      | some status => status
      | none => .dropped

/-- What becomes of the parameter `shardRangeStatusMap`. -/
def setShardStatus (shardRangeStatusMap : StatusMap) (ranges : List ShardRange) (status : ShardRangeStatus) : StatusMap :=
  if status = .dropped then
    ranges.foldl (fun shardRangeStatusMap range => shardRangeStatusMap.erase range.key) shardRangeStatusMap
  else ranges.foldl (fun shardRangeStatusMap range => shardRangeStatusMap.insert range.key status) shardRangeStatusMap

/-- A call of `setShardStatus` for a member. The parameter is passed by value: the
call works on a copy, and the member stays as it is. -/
def callSetShardStatus (member : Client → StatusMap) (ranges : List ShardRange) (status : ShardRangeStatus) (client : Client) :
    Client :=
  let _copy := setShardStatus (member client) ranges status
  client

def processMessageSequentially (message : ServerMessage) (client : Client) : Client :=
  match message with
  | .shardUpdateRequest request =>
    let client := client.callSetShardStatus shardRangePendingStatus (ranges request.unassignedShards) .pendingDropped
    client.callSetShardStatus shardRangePendingStatus (ranges request.assignedShards) .pendingAdded
  | .shardForwardRequest request =>
    client.callSetShardStatus shardRangePendingStatus (ranges request.forwardedShards) .pendingForwarding
  | _ => client

/-- A `ShardInfo` that tells a range and its status. -/
def shardInfo (range : ShardRange) (status : ShardRangeStatus) : ShardInfo := ⟨⟨range, .unknown, 0⟩, ⟨∅⟩, status⟩

/-- The source writes the ranges and the statuses to fields `ranges` and `statuses`,
which `ShardInfoUpdate` does not have. -/
def sendShardInfoUpdate (ranges : List ShardRange) (client : Client) : Client :=
  let statuses := client.getShardStatuses ranges
  { client with base := client.base.write (.shardInfoUpdate ⟨List.zipWith shardInfo ranges statuses⟩) }

variable {A : Type} (application : Application A)

/-- What a thread does with its message: the callback's result, and the client and
the application after it. -/
structure Processed (A : Type) where
  success : Bool
  client : Client
  application : A

/-- `updateRanges` gets the unassigned ranges first. -/
def processMessageAsync (message : ServerMessage) (client : Client) (state : A) : Processed A :=
  match message with
  | .shardUpdateRequest request =>
    let unassignedShards := ranges request.unassignedShards
    let assignedShards := ranges request.assignedShards
    let (success, state) := application.updateRanges unassignedShards assignedShards state
    let client :=
      if success then
        (client.callSetShardStatus shardRangeStatus unassignedShards .dropped).callSetShardStatus shardRangeStatus
          assignedShards .added
      else client.callSetShardStatus shardRangePendingStatus unassignedShards .dropped
    ⟨success, client.sendShardInfoUpdate (unassignedShards ++ assignedShards), state⟩
  | .shardForwardRequest request =>
    let forwardedShards := ranges request.forwardedShards
    let (success, state) := application.forwardRanges forwardedShards request.nextBins state
    let client :=
      if success then client.callSetShardStatus shardRangeStatus forwardedShards .forwarding
      else client.callSetShardStatus shardRangePendingStatus forwardedShards .dropped
    ⟨success, client.sendShardInfoUpdate forwardedShards, state⟩
  | _ => ⟨true, client, state⟩

/-- The first message on a new stream, with the status of every range. -/
def sendAuthMessage (client : Client) : ConnectionRequest where
  serviceId := client.serviceId
  serviceKey := client.serviceKey
  binId := 12389098234
  shardInfo := client.getShardStatus.entries.map fun entry =>
    Client.shardInfo ⟨(entry.1.1 % 18446744073709551616).toNat, (entry.1.2 % 18446744073709551616).toNat⟩ entry.2
  status := .healthy

/-- `connect` puts a new stream in the place of the old one. -/
def connect (client : Client) : Client := { client with base := { client.base with stream := {} } }

def handleConnect (ok : Bool) (client : Client) : Client :=
  if !ok then client.connect
  else
    let client := { client with isConnected := true, base := client.base.attemptRead }
    { client with base := client.base.write (.connectionRequest client.sendAuthMessage) }

def handleRead (ok : Bool) (client : Client) : Client × Bool :=
  if !ok then (client, false)
  else
    let message := client.base.message
    let client := client.processMessageSequentially message
    ({ client with threads := client.threads ++ [message] }, true)

def handleWrite (ok : Bool) (client : Client) : Client × Bool := (client, ok)

def handleFinish (_ok : Bool) (client : Client) : Client := { client with isConnected := false }

instance : Handler Client ClientMessage ServerMessage where
  base := Client.base
  withBase client base := { client with base }
  handleConnect
  handleRead
  handleWrite
  handleFinish

/-- The client of `TestClient.cpp`. -/
def newClient : Client := { serviceId := 123124123, serviceKey := "test key" }

end Client
end ShardManager.UserLibs
