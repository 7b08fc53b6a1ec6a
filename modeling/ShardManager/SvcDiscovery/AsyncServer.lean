import ShardManager.Lib.EventRun
import ShardManager.SvcDiscovery.HandlerManager
import Mathlib.Logic.Function.Basic

/-! `server_utils/AsyncServer.h` with the handlers of `svc_discovery`: threads that
register their completion queues and process what completes on them, one event at a time.
Beside the program's data stand the facts about a run that its properties mention. -/

namespace ShardManager.SvcDiscovery
open ServerUtils Function

/-- A handler in memory, with the queue it was constructed on and its connection. -/
structure HandlerObject where
  handler : RequestHandler := {}
  completionQueue : Option Nat := none
  /-- `RequestRegisterStream` has not completed. -/
  connecting : Bool := false
  connected : Bool := false
  /-- `Finish` calls that have completed. -/
  finished : Nat := 0

/-- An operation that completes, with what it brings. -/
inductive Completion where
  | connect (ok : Bool)
  | read (message : Option ClientMessage)
  | write (ok : Bool)
  | finish (ok : Bool)

namespace Completion

def op : Completion → Operation
  | .connect _ => .connect
  | .read _ => .read
  | .write _ => .write
  | .finish _ => .finish

def ok : Completion → Bool
  | .connect ok => ok
  | .read message => message.isSome
  | .write ok => ok
  | .finish ok => ok

end Completion

namespace HandlerObject

def stream (object : HandlerObject) : Stream ServerMessage := object.handler.base.stream

def withBase (object : HandlerObject) (base : ServerUtils.RequestHandler ServerMessage ClientMessage) : HandlerObject :=
  { object with handler := { object.handler with base } }

/-- The operation is one that the stream has been asked for. -/
def Outstanding (object : HandlerObject) : Completion → Prop
  | .connect _ => object.connecting = true
  | .read _ => 0 < object.stream.outstandingReads
  | .write _ => 0 < object.stream.outstandingWrites
  | .finish _ => 0 < object.stream.outstandingFinishes

instance (object : HandlerObject) : DecidablePred object.Outstanding
  | .connect _ => inferInstanceAs (Decidable (_ = _))
  | .read _ => inferInstanceAs (Decidable (_ < _))
  | .write _ => inferInstanceAs (Decidable (_ < _))
  | .finish _ => inferInstanceAs (Decidable (_ < _))

/-- The stream completes the operation; a failed read leaves `message_` as it is. -/
def complete (object : HandlerObject) : Completion → HandlerObject
  | .connect ok => { object with connecting := false, connected := ok }
  | .read message => object.withBase (object.handler.base.completeRead (message.getD object.handler.base.message))
  | .write _ => object.withBase object.handler.base.completeWrite
  | .finish _ =>
    { object.withBase { object.handler.base with
        stream := { object.stream with outstandingFinishes := object.stream.outstandingFinishes - 1 } } with
      finished := object.finished + 1 }

/-- No operation is outstanding. -/
structure Idle (object : HandlerObject) : Prop where
  connect : object.connecting = false
  reads : object.stream.outstandingReads = 0
  writes : object.stream.outstandingWrites = 0
  finishes : object.stream.outstandingFinishes = 0

/-- The `Finish` calls on the stream. -/
def finishes (object : HandlerObject) : Nat := object.finished + object.stream.outstandingFinishes

end HandlerObject

structure AsyncServer where
  numIoThreads : Nat
  /-- The threads that have registered their completion queue; a queue has its thread's number. -/
  registered : List Nat := []
  manager : HandlerManager := {}
  objects : HandlerId → HandlerObject := fun _ => {}
  constructed : Nat := 0
  /-- Who called `registerBin` last for a service and bin. -/
  lastRegistered : UnorderedMap (ServiceId × BinId) HandlerId := ∅

namespace AsyncServer

/-- `HandlerManager::addHandler` and the constructor of the handler. -/
def addHandler (server : AsyncServer) : AsyncServer :=
  { server with
    manager := { server.manager with
      requestHandlerMap := server.manager.requestHandlerMap.insert server.constructed () }
    objects := update server.objects server.constructed
      { completionQueue := server.manager.completionQueue, connecting := true }
    constructed := server.constructed + 1 }

/-- `server_utils::HandlerManager::registerService`. -/
def registerService (completionQueue : Nat) (server : AsyncServer) : AsyncServer :=
  addHandler { server with manager := { server.manager with completionQueue := some completionQueue } }

/-- The manager carries out a call of the handler. -/
def perform (tag : HandlerId) (server : AsyncServer) : ManagerCall → AsyncServer
  | .addHandler => server.addHandler
  | .registerBin serviceId binId =>
    { server with
      manager := server.manager.registerBin tag serviceId binId
      lastRegistered := server.lastRegistered.insert (serviceId, binId) tag }
  | .removeRequestHandler => { server with manager := server.manager.removeRequestHandler tag }

def withHandler (server : AsyncServer) (tag : HandlerId) (handler : RequestHandler) : AsyncServer :=
  { server with objects := update server.objects tag { server.objects tag with handler } }

/-- `HandlerManager::process`. The handler does not read what its calls change, so they
are carried out when it has returned. -/
def process (tag : HandlerId) (op : Operation) (ok : Bool) (server : AsyncServer) : AsyncServer :=
  match server.manager.getRequestHandler tag with
  | none => server
  | some requestHandler =>
    let handler := ServerUtils.process op ok { (server.objects requestHandler).handler with managerCalls := [] }
    handler.managerCalls.foldl (perform requestHandler) (server.withHandler requestHandler handler)

end AsyncServer

/-- What happens on a server: a thread registers its queue, an operation of a handler
completes and is processed, a message is written to a client, `stop` is called on a
handler, a bin is removed. -/
inductive Event where
  | register (thread : Nat)
  | complete (tag : HandlerId) (completion : Completion)
  | write (tag : HandlerId) (message : ServerMessage)
  | stop (tag : HandlerId)
  | removeBin (serviceId : ServiceId) (binName : BinId)

namespace AsyncServer

/-- A thread registers once, operations complete that are outstanding, and messages are
written to connected streams. -/
def Enabled (server : AsyncServer) : Event → Prop
  | .register thread => thread < server.numIoThreads ∧ thread ∉ server.registered
  | .complete tag completion => tag < server.constructed ∧ (server.objects tag).Outstanding completion
  | .write tag _ => tag < server.constructed ∧ (server.objects tag).connected = true
  | .stop tag => tag < server.constructed
  | .removeBin _ _ => True

instance (server : AsyncServer) : DecidablePred server.Enabled
  | .register _ => inferInstanceAs (Decidable (_ ∧ _))
  | .complete _ _ => inferInstanceAs (Decidable (_ ∧ _))
  | .write _ _ => inferInstanceAs (Decidable (_ ∧ _))
  | .stop _ => inferInstanceAs (Decidable (_ < _))
  | .removeBin _ _ => inferInstanceAs (Decidable True)

def handle (server : AsyncServer) : Event → AsyncServer
  | .register thread => registerService thread { server with registered := server.registered ++ [thread] }
  | .complete tag completion =>
    process tag completion.op completion.ok
      { server with objects := update server.objects tag ((server.objects tag).complete completion) }
  | .write tag message =>
    let handler := (server.objects tag).handler
    server.withHandler tag { handler with base := handler.base.write message }
  | .stop tag => server.withHandler tag (server.objects tag).handler.stop
  | .removeBin serviceId binName => { server with manager := server.manager.removeBin serviceId binName }

def machine : Machine AsyncServer Event := ⟨Enabled, handle⟩

instance (server : AsyncServer) (event : Event) : Decidable (machine.enabled server event) :=
  inferInstanceAs (Decidable (server.Enabled event))

end AsyncServer
end ShardManager.SvcDiscovery
