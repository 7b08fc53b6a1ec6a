import ShardManager.Messages
import ShardManager.ServerUtils.RequestHandler

/-! `svc_discovery/RequestHandler.cpp`: the server's end of one client's stream. What
it asks of its manager is kept in order, since the manager's answers are not used. -/

namespace ShardManager.SvcDiscovery
open ServerUtils

inductive HandlerStatus where
  | active
  | stopped
deriving DecidableEq

/-- The calls of `handlerManager_`, whose first argument `this` is left out. -/
inductive ManagerCall where
  | addHandler
  | registerBin (serviceId binId : Int)
  | removeRequestHandler
deriving DecidableEq

def ManagerCall.IsRegistration : ManagerCall → Prop
  | .registerBin _ _ => True
  | _ => False

instance : DecidablePred ManagerCall.IsRegistration
  | .registerBin _ _ => isTrue trivial
  | .addHandler => isFalse id
  | .removeRequestHandler => isFalse id

structure RequestHandler where
  base : ServerUtils.RequestHandler ServerMessage ClientMessage := { message := .notSet }
  status : HandlerStatus := .active
  hasAuthenticated : Bool := false
  shardRangeInfo : UnorderedMap (Int × Int) ShardInfo := ∅
  managerCalls : List ManagerCall := []

namespace RequestHandler

def hasStopped (handler : RequestHandler) : Bool := handler.status = .stopped

def stop (handler : RequestHandler) : RequestHandler :=
  if handler.hasStopped then handler
  else
    let handler := { handler with status := .stopped }
    if handler.hasAuthenticated then
      { handler with
        base := { handler.base with
          stream := { handler.base.stream with outstandingFinishes := handler.base.stream.outstandingFinishes + 1 } } }
    else handler

def call (managerCall : ManagerCall) (handler : RequestHandler) : RequestHandler :=
  { handler with managerCalls := handler.managerCalls ++ [managerCall] }

/-- It reads from the stream itself and leaves `isReading_` alone. -/
def handleConnect (ok : Bool) (handler : RequestHandler) : RequestHandler :=
  if !ok then handler.stop
  else
    let handler := handler.call .addHandler
    { handler with base := handler.base.readFromStream }

/-- The loop over the shard infos of an update. -/
def recordShardInfos (shardInfos : List ShardInfo) (handler : RequestHandler) : RequestHandler :=
  { handler with
    shardRangeInfo := shardInfos.foldl (fun shardRangeInfo shardInfo =>
      shardRangeInfo.insert shardInfo.shard.range.key shardInfo) handler.shardRangeInfo }

/-- The rejection of a first message does not return, and nothing sets `hasAuthenticated`. -/
def handleRead (ok : Bool) (handler : RequestHandler) : RequestHandler × Bool :=
  if !ok then (handler.stop, false)
  else
    let message := handler.base.message
    let handler :=
      if !handler.hasAuthenticated then
        let handler := if !message.hasConnectionRequest then handler.stop else handler
        let request := message.getConnectionRequest
        handler.call (.registerBin request.serviceId request.binId)
      else handler
    let handler :=
      match message with
      | .shardInfoUpdate update => handler.recordShardInfos update.shardInfos
      | _ => handler
    (handler, true)

def handleWrite (ok : Bool) (handler : RequestHandler) : RequestHandler × Bool :=
  if !ok || handler.hasStopped then (handler, false) else (handler, true)

def handleFinish (_ok : Bool) (handler : RequestHandler) : RequestHandler := handler.call .removeRequestHandler

instance : Handler RequestHandler ServerMessage ClientMessage where
  base := RequestHandler.base
  withBase handler base := { handler with base }
  handleConnect
  handleRead
  handleWrite
  handleFinish

end RequestHandler
end ShardManager.SvcDiscovery
