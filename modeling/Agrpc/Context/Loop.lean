/-
Agrpc/Context/Loop.lean

One `GrpcContext` and everybody who uses it, as a machine: the thread in `Run`,
any number of threads that start operations or request stop, and gRPC.

The state has the context, the operations, the active `Run` calls (innermost
first: a receiver may call `Run` again on the context whose loop is executing
it) and the operations whose `ScheduleRemote` call is between an `enqueue` that
returned true and its `Set`.  `Run` calls of one context on two threads at once
are a data race on `local_queue_` and are not runs of the program.

An action is one atomic step.  `step` has no result where the action is not
enabled, and where the code leaves the domain its libraries define:
`try_mark_inactive_or_dequeue_all` on an inactive queue, new work on a drained
completion queue, the `execute_` of an object that no longer exists.
-/
import Agrpc.Context.GrpcContext
import Agrpc.Lib.Machine
import Mathlib.Logic.Function.Basic

namespace Agrpc

open Interleaving

/-! ### The state -/

/-- An active `Run` call: its number, which names its `StopOperation`, and
its locals. -/
structure RunFrame where
  run : ℕ
  pc : LoopPc := .registered
  /-- `stop_op.should_stop_` -/
  shouldStop : Bool := false
  /-- the stop callback was invoked -/
  stopRequested : Bool := false
  deriving DecidableEq, Repr

structure State where
  context : GrpcContext := {}
  ops : ℕ → Operation := fun _ => {}
  frames : List RunFrame := []
  /-- the number of `Run` calls so far -/
  runs : ℕ := 0
  /-- `ScheduleRemote` calls between `enqueue` and `SignalRemoteQueue` -/
  signalling : List OperationBase := []

inductive Action where
  /-- `Run` is called -/
  | run
  /-- the loop thread goes on to its next program point -/
  | loop
  /-- `Next` returns -/
  | next (r : NextResult)
  /-- the running `set_value` exits by an exception -/
  | setValueThrows
  /-- the running receiver returns to `OnRequestComplete` -/
  | receiverReturns
  /-- `start()` on a thread that does not run the context -/
  | start (id : ℕ)
  /-- `start()` on the loop thread, from the receiver it is executing -/
  | startOnLoop (id : ℕ)
  /-- the stop callback of `Run` call `run` is invoked on another thread -/
  | requestStop (run : ℕ)
  /-- the stop callback of `Run` call `run` is invoked on the loop thread -/
  | requestStopOnLoop (run : ℕ)
  /-- the thread whose `enqueue` of `op` returned true calls `SignalRemoteQueue` -/
  | signal (op : OperationBase)
  /-- gRPC finishes the operation with tag `id` -/
  | finishRpc (id : ℕ) (ok : Bool)
  /-- `ShutDown()` -/
  | shutDown
  /-- the owner destroys an operation whose receiver has been completed -/
  | destroy (id : ℕ)
  deriving DecidableEq, Repr

namespace RunFrame

def goto (f : RunFrame) (pc : LoopPc) : RunFrame := { f with pc := pc }

/-- `should_stop_ = true`, in the frame whose `StopOperation` is executed. -/
def seeStop (run : ℕ) (f : RunFrame) : RunFrame :=
  if f.run = run then { f with shouldStop := true } else f

/-- The stop callback of `Run` call `run` is invoked. -/
def requestStop (run : ℕ) (f : RunFrame) : RunFrame :=
  if f.run = run then { f with stopRequested := true } else f

end RunFrame

namespace State

/-- The program point of the loop thread. -/
def pc? (s : State) : Option LoopPc := s.frames.head?.map RunFrame.pc

/-- The loop thread is in a receiver's code. -/
def inReceiver (s : State) : Bool :=
  match s.pc? with
  | some (.executing _ _ _) => true
  | _ => false

/-- The loop thread registers the stop callback of a `Run` call it makes from
a receiver, so an already requested stop is scheduled on the loop thread. -/
def inNestedRun (s : State) (run : ℕ) : Bool :=
  match s.frames with
  | f :: _ :: _ => f.run == run && f.pc == .registered
  | _ => false

/-- The stop callback of `Run` call `run` is registered and was not invoked. -/
def stopPending (s : State) (run : ℕ) : Bool :=
  s.frames.any fun f => f.run == run && !f.stopRequested

/-- The object behind an `OperationBase*` exists. -/
def exists? (s : State) : OperationBase → Bool
  | .stopOperation run => s.frames.any fun f => f.run == run
  | .operation id => !(s.ops id).destroyed

/-- `ScheduleRemote(op)` up to its `enqueue`. -/
def scheduleRemote (s : State) (op : OperationBase) : State :=
  let (processingThreadWasInactive, c) := s.context.enqueueRemote op
  { s with
    context := c
    signalling := if processingThreadWasInactive then op :: s.signalling else s.signalling }

/-- `execute_ = fn`, in `start()` or `StartAsyncRPC`. -/
def setExecute (s : State) (id : ℕ) (fn : ExecuteFn) : State :=
  { s with
    ops := Function.update s.ops id { s.ops id with execute := some fn, started := true } }

/-- `start()` on a thread that does not run the context. -/
def startRemote (s : State) (id : ℕ) : State :=
  (s.setExecute id .onScheduleComplete).scheduleRemote (.operation id)

/-- The stop callback on a thread that does not run the context. -/
def stopRemote (s : State) (run : ℕ) : State :=
  scheduleRemote { s with frames := s.frames.map (·.requestStop run) } (.stopOperation run)

/-- The stop callback on the loop thread. -/
def stopLocal (s : State) (run : ℕ) : State :=
  { s with
    context := s.context.scheduleLocal (.stopOperation run)
    frames := s.frames.map (·.requestStop run) }

/-- `StartAsyncRPC`.  Its check, that the context is running on this thread,
is the subject of `Agrpc.System`. -/
def startAsyncRpc (s : State) (id : ℕ) : Option State :=
  (s.context.invokeRpc id).map fun c =>
    { s.setExecute id .onRequestComplete with context := c }

/-- `item->execute_(item)` in the loop of `ExecutePendingLocal`, and on to the
program point after it. -/
def executeItem (s : State) (f : RunFrame) (fs : List RunFrame) (item : OperationBase)
    (rest : List OperationBase) : Option (State × List Observation) :=
  if s.exists? item then
    match item with
    | .stopOperation run =>
        some ({ s with frames := (f.goto (.draining rest) :: fs).map (·.seeStop run) },
          [.executed item])
    | .operation id =>
        match (s.ops id).execute with
        | some .onScheduleComplete =>
            (s.startAsyncRpc id).map fun s' =>
              ({ s' with frames := f.goto (.draining rest) :: fs },
                [.executed item, .rpcInvoked id])
        | some .onRequestComplete =>
            let result := s.context.event.ok
            some ({ s with frames := f.goto (.executing id (.value result) rest) :: fs },
              [.executed item, .setValue id result])
        | none => none
  else none

/-- One step of the loop thread, in its innermost `Run` call. -/
def loopStep (s : State) (f : RunFrame) (fs : List RunFrame) :
    Option (State × List Observation) :=
  match f.pc with
  | .registered => some ({ s with frames := f.goto .loopTop :: fs }, [])
  | .draining (item :: rest) => s.executeItem f fs item rest
  | .exited _ =>
      -- `~stop_callback` waits for a callback that is still running
      if .stopOperation f.run ∈ s.signalling then none else some ({ s with frames := fs }, [])
  | pc =>
      (runImplStep s.context f.shouldStop pc).map fun (c, pc', e) =>
        ({ s with context := c, frames := f.goto pc' :: fs }, e)

/-- One atomic step. -/
def step (s : State) : Action → Option (State × List Observation)
  | .run =>
      if s.frames.isEmpty || s.inReceiver then
        some ({ s with frames := { run := s.runs } :: s.frames, runs := s.runs + 1 }, [])
      else none
  | .loop =>
      match s.frames with
      | [] => none
      | f :: fs => s.loopStep f fs
  | .next r =>
      match s.frames with
      | [] => none
      | f :: fs =>
          if f.pc = .callNext then
            (runImplNext s.context r).map fun (c, pc', e) =>
              ({ s with context := c, frames := f.goto pc' :: fs }, e)
          else none
  | .setValueThrows =>
      match s.frames with
      | [] => none
      | f :: fs =>
          match f.pc with
          | .executing id (.value _) rest =>
              if (s.ops id).destroyed then none
              else some ({ s with frames := f.goto (.executing id .error rest) :: fs },
                [.setError id])
          | _ => none
  | .receiverReturns =>
      match s.frames with
      | [] => none
      | f :: fs =>
          match f.pc with
          | .executing id result rest =>
              some ({ s with
                  frames := f.goto (.draining rest) :: fs
                  ops := Function.update s.ops id { s.ops id with finished := true } },
                [.completed id result])
          | _ => none
  | .start id =>
      if (s.ops id).started then none
      else some (s.startRemote id, [.enqueued (.operation id)])
  | .startOnLoop id =>
      if (s.ops id).started || !s.inReceiver then none
      else (s.startAsyncRpc id).map fun s' => (s', [.rpcInvoked id])
  | .requestStop run =>
      if s.stopPending run then
        some (s.stopRemote run, [.enqueued (.stopOperation run)])
      else none
  | .requestStopOnLoop run =>
      if s.stopPending run && (s.inReceiver || s.inNestedRun run) then
        some (s.stopLocal run, [.arrived .direct (.stopOperation run)])
      else none
  | .signal op =>
      if op ∈ s.signalling then
        s.context.signalRemoteQueue.map fun c =>
          ({ s with context := c, signalling := s.signalling.erase op }, [])
      else none
  | .finishRpc id ok =>
      (s.context.completionQueue.finish id ok).map fun cq =>
        ({ s with context := { s.context with completionQueue := cq } }, [])
  | .shutDown =>
      some ({ s with
        context := { s.context with
          completionQueue := s.context.completionQueue.shutdown } }, [])
  | .destroy id =>
      if ((s.ops id).finished || s.frames.any fun f => f.pc.executingId == some id)
          && !(s.ops id).destroyed then
        some ({ s with
          ops := Function.update s.ops id { s.ops id with destroyed := true } }, [])
      else none

end State

/-- The machine of one `GrpcContext`, from its constructor. -/
def contextMachine : Machine State Action Observation where
  init := {}
  step := State.step

end Agrpc
