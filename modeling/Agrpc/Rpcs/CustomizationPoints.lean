/-
Agrpc/Rpcs/CustomizationPoints.lean

The customization points (`agrpc/context/rpcs.h`): the overloads of their
`operator()`, and how a call finds its `tag_invoke` overload.

An overload takes part in overload resolution if the arguments fit its
parameters and its trailing return type is well formed, that is if some
`tag_invoke` overload takes the tag and the types written there, and compiles.
(If it does not compile the whole program does not; it comes to the same here,
as no other overload could have taken the call, see `operators_apart`.)  Tag and
types of that guard are written out by hand in every overload, and so they are
here (`guardTag`, `guard`).  The body of every overload is the same: it calls
`unifex::tag_invoke` with the customization point itself and the parameters in
the order they are declared, the executor forwarded and the others by name.

The `noexcept` specifiers are left out: they select nothing.
-/
import Agrpc.Rpcs.TagInvoke

namespace Agrpc

open Lifetimes Overloading

/-- An overload of a customization point's `operator()`. -/
structure Operator where
  cpo : Cpo
  params : List RpcParam
  /-- the tag in its `tag_invoke_result_t` -/
  guardTag : Cpo
  /-- the argument types in its `tag_invoke_result_t` -/
  guard : List RpcParam
  deriving DecidableEq, Repr

/-- `Executor&& executor`, and `Executor` in a guard. -/
def executorParam : RpcParam := ⟨tparam .executor, .forward⟩

/-! ### The overloads -/

section Operators

open TemplateParam (rpc service request responder response)

def asyncRequestMultiArg : Operator where
  cpo := .asyncRequest
  params := [executorParam, byValue (template₃ .serverMultiArgRequest rpc request responder),
    lref (tparam service), lref (cls .serverContext), lref (tparam request),
    lref (tparam responder)]
  guardTag := .asyncRequest
  guard := [executorParam, byValue (template₃ .serverMultiArgRequest rpc request responder),
    lref (tparam service), lref (cls .serverContext), lref (tparam request),
    lref (tparam responder)]

def asyncRequestSingleArg : Operator where
  cpo := .asyncRequest
  params := [executorParam, byValue (template₂ .serverSingleArgRequest rpc responder),
    lref (tparam service), lref (cls .serverContext), lref (tparam responder)]
  guardTag := .asyncRequest
  guard := [executorParam, byValue (template₂ .serverSingleArgRequest rpc responder),
    lref (tparam service), lref (cls .serverContext), lref (tparam responder)]

def asyncReadReader : Operator where
  cpo := .asyncRead
  params := [executorParam, lref (template₂ .serverAsyncReader response request),
    lref (tparam request)]
  guardTag := .asyncRead
  guard := [executorParam, lref (template₂ .serverAsyncReader response request),
    lref (tparam request)]

def asyncReadReaderWriter : Operator where
  cpo := .asyncRead
  params := [executorParam, lref (template₂ .serverAsyncReaderWriter response request),
    lref (tparam request)]
  guardTag := .asyncRead
  guard := [executorParam, lref (template₂ .serverAsyncReaderWriter response request),
    lref (tparam request)]

def asyncWriteWriter : Operator where
  cpo := .asyncWrite
  params := [executorParam, lref (template₁ .serverAsyncWriter response),
    cref (tparam response)]
  guardTag := .asyncWrite
  guard := [executorParam, lref (template₁ .serverAsyncWriter response),
    cref (tparam response)]

def asyncWriteReaderWriter : Operator where
  cpo := .asyncWrite
  params := [executorParam, lref (template₂ .serverAsyncReaderWriter response request),
    cref (tparam response)]
  guardTag := .asyncWrite
  guard := [executorParam, lref (template₂ .serverAsyncReaderWriter response request),
    cref (tparam response)]

def asyncFinishResponseWriter : Operator where
  cpo := .asyncFinish
  params := [executorParam, lref (template₁ .serverAsyncResponseWriter response),
    cref (tparam response), cref (cls .status)]
  guardTag := .asyncFinish
  guard := [executorParam, lref (template₁ .serverAsyncResponseWriter response),
    cref (tparam response), cref (cls .status)]

def asyncFinishWriter : Operator where
  cpo := .asyncFinish
  params := [executorParam, lref (template₁ .serverAsyncWriter response), cref (cls .status)]
  guardTag := .asyncFinish
  guard := [executorParam, lref (template₁ .serverAsyncWriter response), cref (cls .status)]

def asyncFinishReader : Operator where
  cpo := .asyncFinish
  params := [executorParam, lref (template₂ .serverAsyncReader response request),
    cref (tparam response), cref (cls .status)]
  guardTag := .asyncFinish
  guard := [executorParam, lref (template₂ .serverAsyncReader response request),
    cref (tparam response), cref (cls .status)]

def asyncFinishReaderWriter : Operator where
  cpo := .asyncFinish
  params := [executorParam, lref (template₂ .serverAsyncReaderWriter response request),
    cref (cls .status)]
  guardTag := .asyncFinish
  guard := [executorParam, lref (template₂ .serverAsyncReaderWriter response request),
    cref (cls .status)]

/-- Client. -/
def asyncFinishResponseReader : Operator where
  cpo := .asyncFinish
  params := [executorParam, lref (template₁ .clientAsyncResponseReader response),
    lref (tparam response), lref (cls .status)]
  guardTag := .asyncFinish
  guard := [executorParam, lref (template₁ .clientAsyncResponseReader response),
    lref (tparam response), lref (cls .status)]

def asyncWriteAndFinishWriter : Operator where
  cpo := .asyncWriteAndFinish
  params := [executorParam, lref (template₁ .serverAsyncWriter response),
    cref (tparam response), byValue (cls .writeOptions), cref (cls .status)]
  guardTag := .asyncWriteAndFinish
  guard := [executorParam, lref (template₁ .serverAsyncWriter response),
    cref (tparam response), byValue (cls .writeOptions), cref (cls .status)]

def asyncWriteAndFinishReaderWriter : Operator where
  cpo := .asyncWriteAndFinish
  params := [executorParam, lref (template₂ .serverAsyncReaderWriter response request),
    cref (tparam response), byValue (cls .writeOptions), cref (cls .status)]
  guardTag := .asyncWriteAndFinish
  guard := [executorParam, lref (template₂ .serverAsyncReaderWriter response request),
    cref (tparam response), byValue (cls .writeOptions), cref (cls .status)]

/-- Its guard asks for an overload with the tag of `AsyncFinish`. -/
def asyncFinishWithErrorReader : Operator where
  cpo := .asyncFinishWithError
  params := [executorParam, lref (template₂ .serverAsyncReader response request),
    cref (cls .status)]
  guardTag := .asyncFinish
  guard := [executorParam, lref (template₂ .serverAsyncReader response request),
    cref (cls .status)]

def asyncFinishWithErrorResponseWriter : Operator where
  cpo := .asyncFinishWithError
  params := [executorParam, byValue (template₁ .serverAsyncResponseWriter response),
    cref (cls .status)]
  guardTag := .asyncFinishWithError
  guard := [executorParam, lref (template₁ .serverAsyncResponseWriter response),
    cref (cls .status)]

/-- Its guard asks for an overload with the tag of `AsyncFinishWithError`. -/
def asyncSendInitialMetadata : Operator where
  cpo := .asyncSendInitialMetadata
  params := [executorParam, lref (tparam responder)]
  guardTag := .asyncFinishWithError
  guard := [executorParam, lref (tparam responder)]

def operators : List Operator :=
  [asyncRequestMultiArg, asyncRequestSingleArg, asyncReadReader, asyncReadReaderWriter,
    asyncWriteWriter, asyncWriteReaderWriter, asyncFinishResponseWriter, asyncFinishWriter,
    asyncFinishReader, asyncFinishReaderWriter, asyncFinishResponseReader,
    asyncWriteAndFinishWriter, asyncWriteAndFinishReaderWriter, asyncFinishWithErrorReader,
    asyncFinishWithErrorResponseWriter, asyncSendInitialMetadata]

end Operators

/-! ### A call -/

/-- A type of the guard as an argument (`declval`), where the executor
argument of the call is `executor`. -/
def declval (θ : TemplateParam → RpcTy) (executor : Expr TypeName) (p : RpcParam) :
    Expr TypeName :=
  match p.passing with
  | .forward => executor
  | .byRef => ⟨p.pat.inst θ, true⟩
  | .byConstRef => ⟨.const (p.pat.inst θ), true⟩
  | .byValue => ⟨p.pat.inst θ, false⟩

/-- A parameter as an argument in the body: its name is an lvalue; the
executor is cast back to what it was passed as. -/
def named (θ : TemplateParam → RpcTy) (e : Expr TypeName) (p : RpcParam) : Expr TypeName :=
  match p.passing with
  | .forward => e
  | .byConstRef => ⟨.const (p.pat.inst θ), true⟩
  | _ => ⟨p.pat.inst θ, true⟩

/-- The overload `tag_invoke(tag, es...)` resolves to, if that compiles. -/
def tagInvokeResult (C : Classes TypeName) (tag : Cpo) (es : List (Expr TypeName)) :
    Option TagInvoke :=
  (tagInvokeFor C tag es).filter fun o => o.compiles C es

variable (C : Classes TypeName)

namespace Operator

/-- The trailing return type is well formed. -/
def guardHolds (c : Operator) (θ : TemplateParam → RpcTy) (executor : Expr TypeName) : Bool :=
  (tagInvokeResult C c.guardTag (c.guard.map (declval θ executor))).isSome

/-- The overload takes part in the resolution of a call with the arguments
`es`. -/
def accepts (c : Operator) (es : List (Expr TypeName)) : Bool :=
  match deduced C c.params es, es with
  | some θ, executor :: _ => c.guardHolds C θ executor
  | _, _ => false

/-- The `tag_invoke` overload the body calls. -/
def callee (c : Operator) (es : List (Expr TypeName)) : Option TagInvoke :=
  (deduced C c.params es).bind fun θ =>
    tagInvokeResult C c.cpo (List.zipWith (named θ) es c.params)

end Operator

/-- Overload resolution of a call of the customization point. -/
def operatorFor (cpo : Cpo) (es : List (Expr TypeName)) : Option Operator :=
  resolve operators fun c => c.cpo = cpo && c.accepts C es

/-- The overloads a call of the customization point goes through; none if it
does not compile. -/
def dispatch (cpo : Cpo) (es : List (Expr TypeName)) : Option (Operator × TagInvoke) :=
  (operatorFor C cpo es).bind fun c => (c.callee C es).map fun o => (c, o)

end Agrpc
