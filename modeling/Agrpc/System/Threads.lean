/-
Agrpc/System/Threads.lean

Any number of contexts and threads, as one machine.

Every thread has its `current_thread_context` and a stack of `Run` calls,
innermost first; `Run` can be called where user code runs, that is outside all
`Run` calls and in a receiver the innermost loop is executing, on any context.
`start()` and the stop callbacks go by what the calling thread's variable says,
so whether they are local or remote is computed here, not chosen.

The loop of `RunImpl` is that of `Agrpc.Context.GrpcContext`, with the two
exchanges of `current_thread_context` around it.  Nothing keeps two threads out
of one context: what is proved below does not need it.

`owner` is the `context_` member of every operation, a reference bound by the
constructor.
-/
import Agrpc.Context.Loop

namespace Agrpc

open Interleaving

/-! ### The state -/

/-- A `Run` call on the stack of a thread. -/
structure Activation where
  /-- the context it is a call on -/
  context : ℕ
  frame : RunFrame
  /-- the local `old_context` of `RunImpl` -/
  oldContext : Option ℕ := none

namespace Activation

def goto (a : Activation) (pc : LoopPc) : Activation := { a with frame := a.frame.goto pc }

/-- The call is between the two exchanges of `RunImpl`. -/
def inRunImpl (a : Activation) : Bool :=
  match a.frame.pc with
  | .registered => false
  | .exited _ => false
  | _ => true

/-- The call's loop is executing a receiver. -/
def inReceiver (a : Activation) : Bool :=
  match a.frame.pc with
  | .executing _ _ _ => true
  | _ => false

def seeStop (run : ℕ) (a : Activation) : Activation := { a with frame := a.frame.seeStop run }

def requestStop (run : ℕ) (a : Activation) : Activation :=
  { a with frame := a.frame.requestStop run }

end Activation

/-- A `Run` call that has not returned: where it is, and whether its stop
callback is between `enqueue` and `SignalRemoteQueue`. -/
structure RunCall where
  thread : ℕ
  context : ℕ
  signalling : Bool := false

structure System where
  contexts : ℕ → GrpcContext := fun _ => {}
  ops : ℕ → Operation := fun _ => {}
  /-- `static thread_local GrpcContext* current_thread_context` -/
  currentThreadContext : ℕ → Option ℕ := fun _ => none
  callStacks : ℕ → List Activation := fun _ => []
  /-- the `ScheduleRemote` call a thread is in, between an `enqueue` that
  returned true and `SignalRemoteQueue` -/
  signalling : ℕ → Option (ℕ × OperationBase) := fun _ => none
  calls : ℕ → Option RunCall := fun _ => none
  /-- the number of `Run` calls so far -/
  runs : ℕ := 0
  /-- an `AGRPC_CHECK` failed -/
  aborted : Bool := false

/-- An action; its first argument is the thread, where a thread takes it. -/
inductive SystemAction where
  | run (t c : ℕ)
  | loop (t : ℕ)
  | next (t : ℕ) (r : NextResult)
  | setValueThrows (t : ℕ)
  | receiverReturns (t : ℕ)
  | start (t id : ℕ)
  | requestStop (t run : ℕ)
  | signal (t : ℕ)
  | finishRpc (c id : ℕ) (ok : Bool)
  | shutDown (c : ℕ)

inductive SystemObservation where
  /-- `RunImpl` of `Run` call `run` exchanged the variable of thread `t` -/
  | entered (t run : ℕ) (found : Option ℕ)
  /-- its scope guard put a value back -/
  | left (t run : ℕ) (restored : Option ℕ)
  /-- the check of `StartAsyncRPC` was evaluated on thread `t` -/
  | checked (t id : ℕ) (holds : Bool)
  /-- what is observed of context `c` -/
  | at (c : ℕ) (o : Observation)

namespace System

def setContext (s : System) (c : ℕ) (x : GrpcContext) : System :=
  { s with contexts := Function.update s.contexts c x }

def setStack (s : System) (t : ℕ) (stack : List Activation) : System :=
  { s with callStacks := Function.update s.callStacks t stack }

def setCurrent (s : System) (t : ℕ) (c : Option ℕ) : System :=
  { s with currentThreadContext := Function.update s.currentThreadContext t c }

def setOperation (s : System) (id : ℕ) (op : Operation) : System :=
  { s with ops := Function.update s.ops id op }

/-! ### The member functions -/

/-- `IsRunningOnThisThread`, of context `c` on thread `t`. -/
def isRunningOnThisThread (s : System) (t c : ℕ) : Bool := s.currentThreadContext t == some c

/-- `ScheduleRemote(op)` up to its `enqueue`. -/
def scheduleRemote (s : System) (t c : ℕ) (op : OperationBase) : System :=
  let (processingThreadWasInactive, x) := (s.contexts c).enqueueRemote op
  { s.setContext c x with
    signalling :=
      if processingThreadWasInactive then Function.update s.signalling t (some (c, op))
      else s.signalling }

/-- `execute_ = fn`, in `start()` or `StartAsyncRPC`. -/
def setExecute (s : System) (id : ℕ) (fn : ExecuteFn) : System :=
  s.setOperation id { s.ops id with execute := some fn, started := true }

variable (owner : ℕ → ℕ)

/-- `StartAsyncRPC` of operation `id`, called on thread `t`. -/
def startAsyncRpc (s : System) (t id : ℕ) : Option (System × List SystemObservation) :=
  if s.isRunningOnThisThread t (owner id) then
    ((s.contexts (owner id)).invokeRpc id).map fun x =>
      ((s.setExecute id .onRequestComplete).setContext (owner id) x,
        [.checked t id true, .at (owner id) (.rpcInvoked id)])
  else some ({ s with aborted := true }, [.checked t id false])

/-- `start()` of operation `id`, called on thread `t`. -/
def start (s : System) (t id : ℕ) : Option (System × List SystemObservation) :=
  if !s.isRunningOnThisThread t (owner id) then
    some ((s.setExecute id .onScheduleComplete).scheduleRemote t (owner id) (.operation id),
      [.at (owner id) (.enqueued (.operation id))])
  else s.startAsyncRpc owner t id

/-- `ScheduleImpl(op)` of context `c`, called on thread `t`. -/
def scheduleImpl (s : System) (t c : ℕ) (op : OperationBase) :
    System × List SystemObservation :=
  if s.isRunningOnThisThread t c then
    (s.setContext c ((s.contexts c).scheduleLocal op), [.at c (.arrived .direct op)])
  else (s.scheduleRemote t c op, [.at c (.enqueued op)])

/-! ### The loop -/

/-- `item->execute_(item)` in the loop of `ExecutePendingLocal`; the innermost
call of thread `t` is `a`. -/
def executeItem (s : System) (t : ℕ) (a : Activation) (outer : List Activation)
    (item : OperationBase) (rest : List OperationBase) :
    Option (System × List SystemObservation) :=
  let s' := s.setStack t (a.goto (.draining rest) :: outer)
  match item with
  | .stopOperation run =>
      if (s.calls run).isSome then
        some ({ s' with callStacks := fun u => (s'.callStacks u).map (Activation.seeStop run) },
          [.at a.context (.executed item)])
      else none
  | .operation id =>
      match (s.ops id).execute with
      | some .onScheduleComplete =>
          (s'.startAsyncRpc owner t id).map fun (s'', e) =>
            (s'', .at a.context (.executed item) :: e)
      | some .onRequestComplete =>
          let result := (s.contexts (owner id)).event.ok
          some (s.setStack t (a.goto (.executing id (.value result) rest) :: outer),
            [.at a.context (.executed item), .at a.context (.setValue id result)])
      | none => none

/-- `RunImpl` goes on to the program point `pc` with the context's members
`x`; where it leaves the loop, the scope guard runs. -/
def goOn (s : System) (t : ℕ) (a : Activation) (outer : List Activation) (x : GrpcContext)
    (pc : LoopPc) (e : List Observation) : System × List SystemObservation :=
  let s' := (s.setContext a.context x).setStack t (a.goto pc :: outer)
  match pc with
  | .exited _ =>
      (s'.setCurrent t a.oldContext, e.map (.at a.context) ++ [.left t a.frame.run a.oldContext])
  | _ => (s', e.map (.at a.context))

/-- One step of thread `t` in its innermost `Run` call. -/
def loopStep (s : System) (t : ℕ) (a : Activation) (outer : List Activation) :
    Option (System × List SystemObservation) :=
  match a.frame.pc with
  | .registered =>
      let oldContext := s.currentThreadContext t
      some ((s.setStack t ({ a.goto .loopTop with oldContext := oldContext } :: outer)).setCurrent
          t (some a.context),
        [.entered t a.frame.run oldContext])
  | .draining (item :: rest) => s.executeItem owner t a outer item rest
  | .exited _ =>
      -- `~stop_callback` waits for a callback that is still running
      if (s.calls a.frame.run).any RunCall.signalling then none
      else some ({ s.setStack t outer with
        calls := Function.update s.calls a.frame.run none }, [])
  | pc =>
      (runImplStep (s.contexts a.context) a.frame.shouldStop pc).map fun (x, pc', e) =>
        s.goOn t a outer x pc' e

/-! ### The steps -/

/-- Thread `t` is not inside `ScheduleRemote`. -/
def isFree (s : System) (t : ℕ) : Bool := (s.signalling t).isNone

/-- User code runs on thread `t`. -/
def inUserCode (s : System) (t : ℕ) : Bool :=
  s.isFree t && ((s.callStacks t).head?.all Activation.inReceiver)

/-- Thread `t` constructs the stop callback of `Run` call `run`, and invokes
it if stop has been requested already. -/
def registers (s : System) (t run : ℕ) : Bool :=
  s.isFree t && (s.callStacks t).head?.any fun a => a.frame.run == run && a.frame.pc == .registered

/-- The stop callback of `call`, number `run`, was not invoked. -/
def stopPending (s : System) (call : RunCall) (run : ℕ) : Bool :=
  (s.callStacks call.thread).any fun a => a.frame.run == run && !a.frame.stopRequested

/-- The stop callback of `call`, number `run`, is invoked on thread `t`. -/
def requestStop (s : System) (t : ℕ) (call : RunCall) (run : ℕ) :
    System × List SystemObservation :=
  let (s', e) := s.scheduleImpl t call.context (.stopOperation run)
  ({ s' with
      callStacks := fun u => (s.callStacks u).map (Activation.requestStop run)
      calls := Function.update s.calls run
        (some { call with signalling := (s'.signalling t).isSome }) }, e)

/-- One atomic step. -/
def step (s : System) : SystemAction → Option (System × List SystemObservation)
  | .run t c =>
      if s.inUserCode t then
        some ({ s.setStack t ({ context := c, frame := { run := s.runs } } :: s.callStacks t) with
            calls := Function.update s.calls s.runs (some { thread := t, context := c })
            runs := s.runs + 1 }, [])
      else none
  | .loop t =>
      match s.callStacks t with
      | [] => none
      | a :: outer => if s.isFree t then s.loopStep owner t a outer else none
  | .next t r =>
      match s.callStacks t with
      | [] => none
      | a :: outer =>
          if a.frame.pc = .callNext then
            (runImplNext (s.contexts a.context) r).map fun (x, pc, e) => s.goOn t a outer x pc e
          else none
  | .setValueThrows t =>
      match s.callStacks t with
      | [] => none
      | a :: outer =>
          match a.frame.pc with
          | .executing id (.value _) rest =>
              if s.isFree t then
                some (s.setStack t (a.goto (.executing id .error rest) :: outer),
                  [.at a.context (.setError id)])
              else none
          | _ => none
  | .receiverReturns t =>
      match s.callStacks t with
      | [] => none
      | a :: outer =>
          match a.frame.pc with
          | .executing id result rest =>
              if s.isFree t then
                some ((s.setStack t (a.goto (.draining rest) :: outer)).setOperation id
                    { s.ops id with finished := true },
                  [.at a.context (.completed id result)])
              else none
          | _ => none
  | .start t id =>
      if (s.ops id).started || !s.inUserCode t then none else s.start owner t id
  | .requestStop t run =>
      match s.calls run with
      | none => none
      | some call =>
          if s.stopPending call run && (s.inUserCode t || s.registers t run) then
            some (s.requestStop t call run)
          else none
  | .signal t =>
      match s.signalling t with
      | none => none
      | some (c, op) =>
          (s.contexts c).signalRemoteQueue.map fun x =>
            ({ s.setContext c x with
                signalling := Function.update s.signalling t none
                calls :=
                  match op with
                  | .stopOperation run =>
                      Function.update s.calls run
                        ((s.calls run).map fun call => { call with signalling := false })
                  | .operation _ => s.calls }, [])
  | .finishRpc c id ok =>
      ((s.contexts c).completionQueue.finish id ok).map fun cq =>
        (s.setContext c { s.contexts c with completionQueue := cq }, [])
  | .shutDown c =>
      some (s.setContext c { s.contexts c with
        completionQueue := (s.contexts c).completionQueue.shutdown }, [])

end System

/-- The machine of all contexts and threads, from before any `Run` call; a
failed `AGRPC_CHECK` ends it. -/
def systemMachine (owner : ℕ → ℕ) : Machine System SystemAction SystemObservation where
  init := {}
  step s a := if s.aborted then none else s.step owner a

end Agrpc
