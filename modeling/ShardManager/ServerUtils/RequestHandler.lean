import Mathlib.Data.List.Basic

/-! `server_utils/RequestHandler.h`: reads and writes of one stream. A handler has at
most one operation of each kind in flight, by its flags and not by the stream. -/

namespace ShardManager.ServerUtils

inductive Operation where
  | connect
  | read
  | write
  | finish
deriving DecidableEq

/-- What was started on a stream: operations that have not completed yet, and every
message passed to `Write`. -/
structure Stream (W : Type) where
  outstandingReads : Nat := 0
  outstandingWrites : Nat := 0
  outstandingFinishes : Nat := 0
  written : List W := []

/-- The members of the base class, and the stream it reads from and writes to. The
flags have no initializer in the source. -/
structure RequestHandler (W R : Type) where
  message : R
  isReading : Bool := false
  msgQueue : List W := []
  isWriting : Bool := false
  stream : Stream W := {}

namespace RequestHandler
variable {W R : Type}

/-- `stream_->Read`, which both derived classes make of it. -/
def readFromStream (handler : RequestHandler W R) : RequestHandler W R :=
  { handler with stream := { handler.stream with outstandingReads := handler.stream.outstandingReads + 1 } }

def writeToStream (msg : W) (handler : RequestHandler W R) : RequestHandler W R :=
  { handler with
    stream := { handler.stream with
      outstandingWrites := handler.stream.outstandingWrites + 1
      written := handler.stream.written ++ [msg] } }

def attemptRead (handler : RequestHandler W R) : RequestHandler W R :=
  if handler.isReading then handler else readFromStream { handler with isReading := true }

def attemptWrite (handler : RequestHandler W R) : RequestHandler W R :=
  match handler.msgQueue with
  | [] => handler
  | front :: _ => if handler.isWriting then handler else writeToStream front { handler with isWriting := true }

def addToWriteQueue (msg : W) (handler : RequestHandler W R) : RequestHandler W R :=
  { handler with msgQueue := handler.msgQueue ++ [msg] }

def finishWrite (ok : Bool) (handler : RequestHandler W R) : RequestHandler W R :=
  { handler with
    msgQueue := if ok && !handler.msgQueue.isEmpty then handler.msgQueue.tail else handler.msgQueue
    isWriting := false }

def write (msg : W) (handler : RequestHandler W R) : RequestHandler W R := (handler.addToWriteQueue msg).attemptWrite

/-- The stream completes an operation; a successful read leaves its message in `message_`. -/
def completeRead (message : R) (handler : RequestHandler W R) : RequestHandler W R :=
  { handler with
    message
    stream := { handler.stream with outstandingReads := handler.stream.outstandingReads - 1 } }

def completeWrite (handler : RequestHandler W R) : RequestHandler W R :=
  { handler with stream := { handler.stream with outstandingWrites := handler.stream.outstandingWrites - 1 } }

end RequestHandler

/-- A derived class: its base subobject and the virtual functions `process` calls.
`handleRead` and `handleWrite` return `shouldAttemptNext`. -/
class Handler (H : Type) (W R : outParam Type) where
  base : H → RequestHandler W R
  withBase : H → RequestHandler W R → H
  handleConnect : Bool → H → H
  handleRead : Bool → H → H × Bool
  handleWrite : Bool → H → H × Bool
  handleFinish : Bool → H → H

variable {H W R : Type} [Handler H W R]

def Handler.modifyBase (change : RequestHandler W R → RequestHandler W R) (handler : H) : H :=
  Handler.withBase handler (change (Handler.base handler))

def process (op : Operation) (ok : Bool) (handler : H) : H :=
  match op with
  | .connect => Handler.handleConnect ok handler
  | .read =>
    let (handler, shouldAttemptNext) := Handler.handleRead ok handler
    if shouldAttemptNext then Handler.modifyBase .attemptRead handler else handler
  | .write =>
    let handler := if ok then Handler.modifyBase (.finishWrite ok) handler else handler
    let (handler, shouldAttemptNext) := Handler.handleWrite ok handler
    if shouldAttemptNext then Handler.modifyBase .attemptWrite handler else handler
  | .finish => Handler.handleFinish ok handler

end ShardManager.ServerUtils
