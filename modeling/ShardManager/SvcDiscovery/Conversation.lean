import ShardManager.ServerUtils.WriteSystem
import ShardManager.SvcDiscovery.RequestHandler
import ShardManager.UserLibs.Client

/-! One client and the server's handler of its stream. The stream delivers, in order,
what each end passes to `Write`. On the client the events of its I/O thread and the
threads that answer messages interleave, with the critical sections of `writeLock_` as
steps; on the server a handler processes one event at a time. -/

namespace ShardManager
open ServerUtils

namespace UserLibs.Client

/-- The message that `sendShardInfoUpdate` writes. -/
def shardInfoUpdate (ranges : List ShardRange) (client : Client) : ClientMessage :=
  .shardInfoUpdate ⟨List.zipWith shardInfo ranges (client.getShardStatuses ranges)⟩

/-- The message that `processMessageAsync` ends with. -/
def answer (message : ServerMessage) (client : Client) : Option ClientMessage :=
  match message with
  | .shardUpdateRequest request =>
    some (client.shardInfoUpdate (ranges request.unassignedShards ++ ranges request.assignedShards))
  | .shardForwardRequest request => some (client.shardInfoUpdate (ranges request.forwardedShards))
  | _ => none

/-- Whatever the application returns, the message is answered by one call of `write`. -/
theorem processMessageAsync_base {A : Type} (application : Application A) (message : ServerMessage) (client : Client) (state : A) :
    (client.processMessageAsync application message state).client.base =
      match client.answer message with
      | some msg => client.base.write msg
      | none => client.base := by
  cases message with
  | notSet => rfl
  | connectionResponse response => rfl
  | shardUpdateRequest request =>
    simp only [processMessageAsync, answer]
    split <;> rfl
  | shardForwardRequest request =>
    simp only [processMessageAsync, answer]
    split <;> rfl

end UserLibs.Client

namespace SvcDiscovery
open UserLibs (Client)

/-- Where a thread is that the client started for a message. -/
inductive ThreadPhase where
  | processing (message : ServerMessage)
  | adding (msg : ClientMessage)
  | attempting
  | ended

def ThreadPhase.writer : ThreadPhase → WriterPhase ClientMessage
  | .processing _ => .outside
  | .adding msg => .adding msg
  | .attempting => .attempting
  | .ended => .outside

def writers (threads : List ThreadPhase) (thread : Nat) : WriterPhase ClientMessage :=
  (threads[thread]?.map ThreadPhase.writer).getD .outside

structure Conversation where
  client : Client
  /-- The client's CONNECT has not succeeded yet. -/
  connecting : Bool := true
  threads : List ThreadPhase := []
  completion : CompletionPhase := .waiting
  server : RequestHandler := {}
  accepted : Bool := false
  /-- A READ of the server has failed. -/
  failed : Bool := false
  /-- `stop` has been called on the server's handler. -/
  halted : Bool := false
  /-- The messages that have entered the client's queue, those that the server has
  written, and those that each end has read. -/
  entered : List ClientMessage := []
  sent : List ServerMessage := []
  arrived : List ServerMessage := []
  received : List ClientMessage := []

namespace Conversation

def modifyBase (change : ServerUtils.RequestHandler ClientMessage ServerMessage → ServerUtils.RequestHandler ClientMessage ServerMessage)
    (conversation : Conversation) : Client :=
  { conversation.client with base := change conversation.client.base }

/-- A client as its constructor leaves it, and nothing else. -/
structure Initial (conversation : Conversation) : Prop where
  unstarted : conversation = { client := conversation.client }
  fresh : ∃ message, conversation.client.base = { message }
  noStatus : conversation.client.shardRangeStatus = ∅
  noPending : conversation.client.shardRangePendingStatus = ∅

inductive Step : Conversation → Conversation → Prop where
  /-- The client starts over with a new stream. -/
  | clientConnectFails {now : Conversation} (connecting : now.connecting = true) :
      Step now { now with client := process .connect false now.client }
  | clientConnects {now : Conversation} (connecting : now.connecting = true) :
      Step now
        { now with
          client := process .connect true now.client
          connecting := false
          entered := now.entered ++ [.connectionRequest now.client.sendAuthMessage] }
  | clientReads {now : Conversation} (message : ServerMessage) (waiting : now.completion = .waiting)
      (outstanding : 0 < now.client.base.stream.outstandingReads) (next : now.sent[now.arrived.length]? = some message) :
      Step now
        { now with
          client := process .read true (now.modifyBase (.completeRead message))
          threads := now.threads ++ [.processing message]
          arrived := now.arrived ++ [message] }
  | clientReadFails {now : Conversation} (waiting : now.completion = .waiting)
      (outstanding : 0 < now.client.base.stream.outstandingReads) :
      Step now { now with client := process .read false (now.modifyBase (.completeRead now.client.base.message)) }
  /-- The callback returns, and the message to write is put together. -/
  | answer {now : Conversation} (thread : Nat) (message : ServerMessage)
      (processing : now.threads[thread]? = some (.processing message)) :
      Step now
        { now with
          threads := now.threads.set thread
            (match now.client.answer message with
            | some msg => .adding msg
            | none => .ended) }
  | addToWriteQueue {now : Conversation} (thread : Nat) (msg : ClientMessage) (adding : now.threads[thread]? = some (.adding msg)) :
      Step now
        { now with
          client := now.modifyBase (.addToWriteQueue msg)
          threads := now.threads.set thread .attempting
          entered := now.entered ++ [msg] }
  | attemptWrite {now : Conversation} (thread : Nat) (attempting : now.threads[thread]? = some .attempting) :
      Step now { now with client := now.modifyBase .attemptWrite, threads := now.threads.set thread .ended }
  | takeUp {now : Conversation} (waiting : now.completion = .waiting)
      (outstanding : 0 < now.client.base.stream.outstandingWrites) :
      Step now { now with client := now.modifyBase .completeWrite, completion := .finishing }
  | finishWrite {now : Conversation} (finishing : now.completion = .finishing) :
      Step now { now with client := now.modifyBase (.finishWrite true), completion := .attempting }
  | attemptNext {now : Conversation} (attempting : now.completion = .attempting) :
      Step now { now with client := now.modifyBase .attemptWrite, completion := .waiting }
  /-- `process` does not finish a WRITE that fails, and attempts no other. -/
  | clientWriteFails {now : Conversation} (waiting : now.completion = .waiting)
      (outstanding : 0 < now.client.base.stream.outstandingWrites) :
      Step now { now with client := process .write false (now.modifyBase .completeWrite) }
  | serverConnects {now : Conversation} (unaccepted : now.accepted = false) :
      Step now { now with server := process .connect true now.server, accepted := true }
  | serverSends {now : Conversation} (message : ServerMessage) (accepted : now.accepted = true) :
      Step now { now with sent := now.sent ++ [message] }
  | serverReads {now : Conversation} (message : ClientMessage) (outstanding : 0 < now.server.base.stream.outstandingReads)
      (next : now.client.base.stream.written[now.received.length]? = some message) :
      Step now
        { now with
          server := process .read true { now.server with base := now.server.base.completeRead message }
          received := now.received ++ [message] }
  | serverReadFails {now : Conversation} (outstanding : 0 < now.server.base.stream.outstandingReads) :
      Step now
        { now with
          server := process .read false { now.server with base := now.server.base.completeRead now.server.base.message }
          failed := true }
  | serverStops {now : Conversation} :
      Step now { now with server := now.server.stop, halted := true }

/-- The client's threads as writers that share its queue. -/
def clientEnd (conversation : Conversation) : WriteSystem Nat ClientMessage ServerMessage where
  handler := conversation.client.base
  writers := writers conversation.threads
  completion := conversation.completion
  entered := conversation.entered

end Conversation
end SvcDiscovery
end ShardManager
