/-
Agrpc/Rpcs/Sender.lean

A factory call at run time: the arguments are converted, the customization
point's `operator()` and the `tag_invoke` overload are called one in the other,
the lambda captures the parameters of the inner call, and both calls have ended
when the caller has the sender (`agrpc/context/grpc_context.h`).

What an object holds is a number.  A `Scheduler` holds its context and a
pointer to member the method it designates; a responder, a service or a message
is told from another by its location.

A temporary made from an argument is the caller's: it is there when the calls
have ended, until the caller's expression has been evaluated.
-/
import Agrpc.Rpcs.CustomizationPoints

namespace Agrpc

open Lifetimes Overloading

/-- An argument of a factory call: the expression, the object it denotes, a
temporary if that is what it is, and what a user-defined conversion of it gives,
the location of an object or the value of a new one. -/
structure Argument where
  expr : Expr TypeName
  loc : ℕ
  converted : ℕ
  deriving DecidableEq, Repr

/-- The types and value categories of the arguments. -/
def exprs (args : List Argument) : List (Expr TypeName) := args.map Argument.expr

/-- What is passed for the parameter `p`. -/
def Argument.source (C : Classes TypeName) (p : RpcParam) (a : Argument) : Source ℕ :=
  match p.conversion C a.expr with
  | some (.user .object) => .object a.converted
  | some (.user .temporary) => .new a.converted
  | _ => .object a.loc

/-- What is passed for the parameters `ps`. -/
def sources (C : Classes TypeName) (ps : List RpcParam) (args : List Argument) :
    List (Source ℕ) :=
  List.zipWith (Argument.source C) ps args

/-! ### What gRPC is asked to do -/

inductive GrpcArg where
  | address (l : ℕ)
  | value (x : ℕ)
  | completionQueue (context : ℕ)
  deriving DecidableEq, Repr

/-- A call of gRPC: on which object, of which function, with which arguments
and which tag. -/
structure RpcCall where
  object : ℕ
  callee : Callee ℕ
  args : List GrpcArg
  tag : ℕ
  deriving DecidableEq, Repr

/-! ### The lambda -/

/-- `AsyncRPC`: the lambda of an overload, with what it captured of the
parameters, in their order. -/
structure Lambda where
  overload : TagInvoke
  captures : List (Captured ℕ)

namespace Lambda

/-- The captured parameter `p`. -/
def captured (f : Lambda) (p : ParamName) : Option (Captured ℕ) :=
  f.captures[f.overload.names.idxOf p]?

/-- The object `p` denotes in the body, if it is alive. -/
def objectOf (f : Lambda) (σ : Store ℕ) (p : ParamName) : Option ℕ :=
  (f.captured p).bind (Captured.location σ)

/-- The value of `p` in the body, if it has one. -/
def valueOf (f : Lambda) (σ : Store ℕ) (p : ParamName) : Option ℕ :=
  (f.captured p).bind (Captured.value σ)

def argument (f : Lambda) (σ : Store ℕ) (context : ℕ) : CallArg → Option GrpcArg
  | .address p => (f.objectOf σ p).map .address
  | .value p => (f.valueOf σ p).map .value
  | .completionQueue => some (.completionQueue context)

def arguments (f : Lambda) (σ : Store ℕ) (context : ℕ) : List CallArg → Option (List GrpcArg)
  | [] => some []
  | x :: xs => (f.argument σ context x).bind fun y => (f.arguments σ context xs).map (y :: ·)

def callee (f : Lambda) (σ : Store ℕ) : Option (Callee ℕ) :=
  match f.overload.call.callee with
  | .member m => some (.member m)
  | .pointer p => (f.valueOf σ p).map .pointer

/-- `rpc_(context, tag)`: the call the body makes.  No result if it uses an
object that is no longer alive. -/
def invoke (f : Lambda) (σ : Store ℕ) (context tag : ℕ) : Option RpcCall :=
  (f.objectOf σ f.overload.call.object).bind fun object =>
    (f.callee σ).bind fun callee =>
      (f.arguments σ context f.overload.call.args).map fun args =>
        { object := object, callee := callee, args := args, tag := tag }

end Lambda

/-! ### Sender and operation -/

/-- `GrpcContext::AsyncRPCSender`. -/
structure AsyncRPCSender where
  context : ℕ
  rpc : Lambda

/-- `AsyncRPCSender::Operation`, as far as its RPC goes; its tag is its
address. -/
structure RpcOperation where
  context : ℕ
  rpc : Lambda
  tag : ℕ

/-- `connect`, with the operation constructed at `tag`. -/
def AsyncRPCSender.connect (s : AsyncRPCSender) (tag : ℕ) : RpcOperation :=
  { context := s.context, rpc := s.rpc, tag := tag }

/-- `StartAsyncRPC`, behind its check: the gRPC calls it makes. -/
def RpcOperation.startAsyncRpc (op : RpcOperation) (σ : Store ℕ) : Option (List RpcCall) :=
  (op.rpc.invoke σ op.context op.tag).map fun call => [call]

/-! ### The factory call -/

/-- Capture the parameters `ps`, bound to `ls`. -/
def captureAll (σ : Store ℕ) (copied : List ParamName) :
    List ParamName → List ℕ → Option (List (Captured ℕ))
  | p :: ps, l :: ls =>
      (Captured.capture σ (decide (p ∈ copied)) l).bind fun x =>
        (captureAll σ copied ps ls).map (x :: ·)
  | _, _ => some []

/-- What the body of a customization point passes on, where its parameters are
bound to the given locations: the executor, which may have to be converted to a
scheduler, and the others by name. -/
def passedOn (C : Classes TypeName) : List Argument → List ℕ → List (Source ℕ)
  | executor :: _, l :: ls =>
      { executor with loc := l }.source C schedulerParam.2 :: ls.map .object
  | _, _ => []

/-- The call of the overload `c` of a customization point, which calls the
`tag_invoke` overload `o`: the sender it returns, and the store in which both
calls have ended. -/
def factory (C : Classes TypeName) (c : Operator) (o : TagInvoke) (args : List Argument)
    (σ : Store ℕ) : Option (AsyncRPCSender × Store ℕ) :=
  (σ.call (c.params.map ParamType.passing) (sources C c.params args)).bind fun (ls, σ₁) =>
    (σ₁.call (o.types.map ParamType.passing) (passedOn C args ls)).bind fun (ks, σ₂) =>
      (captureAll σ₂ o.copied o.names ks).bind fun captures =>
        (ks[o.names.idxOf .s]?.bind σ₂.object).map fun context =>
          ({ context := context, rpc := { overload := o, captures := captures } },
            σ₂.endFrom (σ.materialise (sources C c.params args)).2.size)

end Agrpc
