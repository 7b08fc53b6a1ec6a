import ShardManager.Lib.EventRun
import ShardManager.ServerUtils.RequestHandler
import Mathlib.Logic.Function.Basic

/-! Any number of threads in `write` and the thread that processes completed writes,
on one handler. The critical sections of `writeLock_` are the steps. -/

namespace ShardManager.ServerUtils
open Function

/-- Where a thread is in `write`. -/
inductive WriterPhase (W : Type) where
  | outside
  | adding (msg : W)
  | attempting

/-- Where the completion thread is in `process`, for the event of a write. -/
inductive CompletionPhase where
  | waiting
  | finishing
  | attempting
deriving DecidableEq

structure WriteSystem (ι W R : Type) where
  handler : RequestHandler W R
  writers : ι → WriterPhase W
  completion : CompletionPhase
  /-- The messages that have entered the queue, in order. -/
  entered : List W

namespace WriteSystem
variable {ι W R : Type} [DecidableEq ι]

structure Initial (system : WriteSystem ι W R) : Prop where
  notWriting : system.handler.isWriting = false
  empty : system.handler.msgQueue = []
  idle : system.handler.stream.outstandingWrites = 0
  unwritten : system.handler.stream.written = []
  outside : ∀ writer, system.writers writer = .outside
  waiting : system.completion = .waiting
  none : system.entered = []

/-- Every completion reports success, and `handleWrite` asks for the next write. -/
inductive Step : WriteSystem ι W R → WriteSystem ι W R → Prop where
  | call {system : WriteSystem ι W R} (writer : ι) (msg : W) (outside : system.writers writer = .outside) :
      Step system { system with writers := update system.writers writer (.adding msg) }
  | addToWriteQueue {system : WriteSystem ι W R} (writer : ι) (msg : W) (adding : system.writers writer = .adding msg) :
      Step system
        { system with
          handler := system.handler.addToWriteQueue msg
          writers := update system.writers writer .attempting
          entered := system.entered ++ [msg] }
  | attemptWrite {system : WriteSystem ι W R} (writer : ι) (attempting : system.writers writer = .attempting) :
      Step system
        { system with handler := system.handler.attemptWrite, writers := update system.writers writer .outside }
  | takeUp {system : WriteSystem ι W R} (waiting : system.completion = .waiting)
      (outstanding : 0 < system.handler.stream.outstandingWrites) :
      Step system { system with handler := system.handler.completeWrite, completion := .finishing }
  | finishWrite {system : WriteSystem ι W R} (finishing : system.completion = .finishing) :
      Step system { system with handler := system.handler.finishWrite true, completion := .attempting }
  | attemptNext {system : WriteSystem ι W R} (attempting : system.completion = .attempting) :
      Step system { system with handler := system.handler.attemptWrite, completion := .waiting }

end WriteSystem
end ShardManager.ServerUtils
