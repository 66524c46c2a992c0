/-
Agrpc/Context/GrpcContext.lean

`GrpcContext` and its member functions (`agrpc/context/grpc_context.h` and
`grpc_context.cc`), as functions of the members they read and write.

An `OperationBase*` is a `StopOperation` of some `Run` call or an `Operation`
of a sender; both are named by a number, which stands for the address.  The
loop of `RunImpl` is a program counter (`LoopPc`) and one step function: every
point of the loop at which another thread, gRPC or user code can act is a
program point of its own.

What happens is reported as `Observation`s; they are not read by the code.
-/
import Agrpc.Context.Runtime

namespace Agrpc

/-! ### Operations -/

/-- What an `OperationBase*` points to. -/
inductive OperationBase where
  | stopOperation (run : ℕ)
  | operation (id : ℕ)
  deriving DecidableEq, Repr

/-- The functions the `execute_` pointer of an `Operation` is set to. -/
inductive ExecuteFn where
  | onScheduleComplete
  | onRequestComplete
  deriving DecidableEq, Repr

/-- An `AsyncRPCSender::Operation`: its `execute_` pointer (unset by the
constructor) and how far its owner is with it. -/
structure Operation where
  execute : Option ExecuteFn := none
  started : Bool := false
  finished : Bool := false
  destroyed : Bool := false

/-- `detail::GrpcCompletionQueueEvent`; no tag is the null tag of the alarm. -/
structure GrpcCompletionQueueEvent where
  tag : Option ℕ := none
  ok : Bool := false
  deriving DecidableEq, Repr

/-! ### Observations -/

/-- How an operation comes into `local_queue_`. -/
inductive Route where
  | direct
  | remote
  | completion
  deriving DecidableEq, Repr

inductive Result where
  | value (ok : Bool)
  | error
  deriving DecidableEq, Repr

inductive Observation where
  /-- `remote_queue_.enqueue(op)` took effect -/
  | enqueued (op : OperationBase)
  /-- `op` joined `local_queue_` -/
  | arrived (route : Route) (op : OperationBase)
  /-- a pass of the loop begins with `ExecutePendingLocal` -/
  | passBegan
  /-- `item->execute_(item)` was called -/
  | executed (op : OperationBase)
  /-- `rpc_(context_, this)` was called -/
  | rpcInvoked (id : ℕ)
  /-- `Next` returned true and wrote `event_` -/
  | nextReturned (tag : Option ℕ) (ok : Bool)
  /-- `OnRequestComplete` called `set_value` -/
  | setValue (id : ℕ) (ok : Bool)
  /-- `set_value` threw and `set_error` was called -/
  | setError (id : ℕ)
  /-- the receiver has its result and `OnRequestComplete` returned -/
  | completed (id : ℕ) (result : Result)
  deriving DecidableEq, Repr

/-! ### The context -/

structure GrpcContext where
  completionQueue : CompletionQueue := {}
  event : GrpcCompletionQueueEvent := {}
  remoteQueueReadSubmitted : Bool := false
  localQueue : List OperationBase := []
  /-- constructed with `false`: inactive -/
  remoteQueue : AtomicQueue OperationBase := .inactive

namespace GrpcContext

/-- `ScheduleLocal(OperationBase*)`. -/
def scheduleLocal (c : GrpcContext) (op : OperationBase) : GrpcContext :=
  { c with localQueue := c.localQueue ++ [op] }

/-- `ScheduleLocal(OperationQueue)`. -/
def scheduleLocalQueue (c : GrpcContext) (ops : List OperationBase) : GrpcContext :=
  { c with localQueue := c.localQueue ++ ops }

/-- The first half of `ScheduleRemote`: the flag is
`processing_thread_was_inactive`, and says that the caller goes on to
`signalRemoteQueue`. -/
def enqueueRemote (c : GrpcContext) (op : OperationBase) : Bool × GrpcContext :=
  ((c.remoteQueue.enqueue op).1, { c with remoteQueue := (c.remoteQueue.enqueue op).2 })

/-- `SignalRemoteQueue`: `work_alarm_.Set`. -/
def signalRemoteQueue (c : GrpcContext) : Option GrpcContext :=
  c.completionQueue.set.map fun cq => { c with completionQueue := cq }

/-- `TryScheduleRemoteQueuedItems`, with the items it moved.  No result where
the queue operation is called outside its precondition. -/
def tryScheduleRemoteQueuedItems (c : GrpcContext) :
    Option (Bool × GrpcContext × List OperationBase) :=
  c.remoteQueue.tryMarkInactiveOrDequeueAll.map fun (queuedItems, q) =>
    let c := { c with remoteQueue := q }
    if queuedItems.isEmpty then (true, c, queuedItems)
    else (false, c.scheduleLocalQueue queuedItems, queuedItems)

/-- `completion_queue_->Next(&event_.tag, &event_.ok)` returning true. -/
def nextEvent (c : GrpcContext) (tag : Option ℕ) (ok : Bool) : GrpcContext :=
  { c with event := ⟨tag, ok⟩ }

/-- `AcquireCompletionQueueItems` after `Next` returned true. -/
def dispatchEvent (c : GrpcContext) : GrpcContext × List Observation :=
  match c.event.tag with
  | none => ({ c with remoteQueueReadSubmitted := false }, [])
  | some id => (c.scheduleLocal (.operation id), [.arrived .completion (.operation id)])

/-- `StartAsyncRPC` behind its check, the part that concerns the context:
`rpc_` hands the tag to gRPC. -/
def invokeRpc (c : GrpcContext) (id : ℕ) : Option GrpcContext :=
  (c.completionQueue.begin id).map fun cq => { c with completionQueue := cq }

end GrpcContext

/-! ### The loop of `RunImpl` -/

/-- Where a `Run` call stands. -/
inductive LoopPc where
  /-- `stop_callback` is registered, `RunImpl` not entered yet -/
  | registered
  /-- at the top of the loop, before `ExecutePendingLocal` -/
  | loopTop
  /-- in `ExecutePendingLocal`, with the rest of its batch `pending` -/
  | draining (pending : List OperationBase)
  /-- in `OnRequestComplete` of operation `id`: the receiver's code runs, with
  the result it was given -/
  | executing (id : ℕ) (result : Result) (pending : List OperationBase)
  | checkStop
  /-- before the test of `remote_queue_read_submitted_` -/
  | checkRemote
  /-- in `TryScheduleRemoteQueuedItems`, before the queue operation -/
  | dequeueRemote
  /-- `TryScheduleRemoteQueuedItems` returned `submitted` -/
  | assignSubmitted (submitted : Bool)
  /-- at the `Next` call of `AcquireCompletionQueueItems` -/
  | callNext
  /-- `Next` returned true, `event_` is written -/
  | gotEvent
  /-- `RunImpl` returned (`byShutdown`: because `Next` returned false), the
  callback is not deregistered yet -/
  | exited (byShutdown : Bool)
  deriving DecidableEq, Repr

namespace LoopPc

/-- The batch `ExecutePendingLocal` still holds. -/
def batch : LoopPc → List OperationBase
  | draining pending => pending
  | executing _ _ pending => pending
  | _ => []

/-- The operation whose receiver is running. -/
def executingId : LoopPc → Option ℕ
  | executing id _ _ => some id
  | _ => none

end LoopPc

/-- `RunImpl` between two program points, where it only reads and writes the
context; `shouldStop` is the caller's flag.  Draining a batch and calling
`Next` are not here: they also concern the operations and gRPC. -/
def runImplStep (c : GrpcContext) (shouldStop : Bool) :
    LoopPc → Option (GrpcContext × LoopPc × List Observation)
  | .loopTop =>
      if c.localQueue.isEmpty then some (c, .checkStop, [.passBegan])
      else some ({ c with localQueue := [] }, .draining c.localQueue, [.passBegan])
  | .draining [] => some (c, .checkStop, [])
  | .checkStop => some (c, if shouldStop then .exited false else .checkRemote, [])
  | .checkRemote =>
      some (c, if !c.remoteQueueReadSubmitted then .dequeueRemote else .callNext, [])
  | .dequeueRemote =>
      c.tryScheduleRemoteQueuedItems.map fun (submitted, c', items) =>
        (c', .assignSubmitted submitted, items.map (.arrived .remote))
  | .assignSubmitted submitted =>
      some ({ c with remoteQueueReadSubmitted := submitted }, .callNext, [])
  | .gotEvent => some (c.dispatchEvent.1, .loopTop, c.dispatchEvent.2)
  | _ => none

/-- The `Next` call of `AcquireCompletionQueueItems` ends with `r`. -/
def runImplNext (c : GrpcContext) (r : NextResult) :
    Option (GrpcContext × LoopPc × List Observation) :=
  (c.completionQueue.next r).map fun cq =>
    let c := { c with completionQueue := cq }
    match r with
    | .alarm ok => (c.nextEvent none ok, .gotEvent, [.nextReturned none ok])
    | .tag id ok => (c.nextEvent (some id) ok, .gotEvent, [.nextReturned (some id) ok])
    | .shutdown => (c, .exited true, [])

end Agrpc
