/-
Agrpc/Rpcs/TagInvoke.lean

The `tag_invoke` overloads of `GrpcContext::Scheduler`
(`agrpc/context/grpc_context.h`): for each, its tag, its parameters, what its
lambda captures by copy, and the gRPC call in the lambda's body.  Their return
type is deduced, so the body of one that is chosen has to compile, too
(`TagInvoke.compiles`).

Every lambda has the capture default `[&]`, so a parameter that is not listed
in `copied` is captured by reference.  The body of each is one call whose last
argument is the tag, so `MethodCall` has the object, what is called on it, and the
other arguments.

The responder classes of gRPC and its generated services are known by name
only; what the model uses of them is which method is called on which object,
and that the responders are `final`, so that nothing derives from them.
-/
import Agrpc.Lib.Overload

namespace Agrpc

open Lifetimes Overloading

/-! ### Types -/

/-- The customization points of `rpcs.h`, which are also the tags. -/
inductive Cpo where
  | asyncRequest
  | asyncRead
  | asyncWrite
  | asyncFinish
  | asyncWriteAndFinish
  | asyncFinishWithError
  | asyncSendInitialMetadata
  deriving DecidableEq, Repr

/-- Names of classes and class templates.  `user` is any class the caller
brings: messages, services. -/
inductive TypeName where
  | scheduler
  | serverContext
  | status
  | writeOptions
  | serverAsyncReader
  | serverAsyncWriter
  | serverAsyncReaderWriter
  | serverAsyncResponseWriter
  | clientAsyncResponseReader
  /-- `detail::ServerMultiArgRequest`, a pointer to member function of its first
  argument -/
  | serverMultiArgRequest
  /-- `detail::ServerSingleArgRequest`, the same -/
  | serverSingleArgRequest
  | user (n : ℕ)
  deriving DecidableEq, Repr

inductive TemplateParam where
  | executor
  | rpc
  | service
  | request
  | responder
  | response
  deriving DecidableEq, Repr

inductive ParamName where
  | s
  | rpc
  | service
  | serverContext
  | request
  | responder
  | reader
  | readerWriter
  | writer
  | response
  | options
  | status
  deriving DecidableEq, Repr

abbrev RpcTy := Ty TypeName
abbrev RpcPat := Pat TypeName TemplateParam
abbrev RpcParam := ParamType TypeName TemplateParam

/-- A template parameter as a type. -/
def tparam (v : TemplateParam) : RpcPat := .var v

/-- A class. -/
def cls (c : TypeName) : RpcPat := .con c

def template₁ (c : TypeName) (x : TemplateParam) : RpcPat := .app (.con c) (.var x)

def template₂ (c : TypeName) (x y : TemplateParam) : RpcPat :=
  .app (.app (.con c) (.var x)) (.var y)

def template₃ (c : TypeName) (x y z : TemplateParam) : RpcPat :=
  .app (.app (.app (.con c) (.var x)) (.var y)) (.var z)

/-- `T`. -/
def byValue (p : RpcPat) : RpcParam := ⟨p, .byValue⟩

/-- `T &`. -/
def lref (p : RpcPat) : RpcParam := ⟨p, .byRef⟩

/-- `const T &`. -/
def cref (p : RpcPat) : RpcParam := ⟨p, .byConstRef⟩

/-- The first parameter of every overload. -/
def schedulerParam : ParamName × RpcParam := (.s, byValue (cls .scheduler))

/-! ### Lambdas -/

/-- The member functions of gRPC's responders that the lambdas name. -/
inductive Method where
  | read
  | write
  | finish
  | writeAndFinish
  | finishWithError
  | sendInitialMetadata
  deriving DecidableEq, Repr

/-- What is called on an object: a member function by name, or through a
pointer to member (`.*`), which is a parameter in a lambda's body and the
value of one in a call that is made. -/
inductive Callee (α : Type) where
  | member (m : Method)
  | pointer (p : α)
  deriving DecidableEq, Repr

def Callee.isPointer {α : Type} : Callee α → Bool
  | member _ => false
  | pointer _ => true

inductive CallArg where
  /-- `&p` -/
  | address (p : ParamName)
  /-- `p`, which gRPC takes by value or by const reference -/
  | value (p : ParamName)
  /-- `cq`, the server completion queue of the lambda's context argument -/
  | completionQueue
  deriving DecidableEq, Repr

/-- `object.callee(args..., tag)`. -/
structure MethodCall where
  object : ParamName
  callee : Callee ParamName
  args : List CallArg
  deriving DecidableEq, Repr

/-- A `tag_invoke` overload. -/
structure TagInvoke where
  tag : Cpo
  params : List (ParamName × RpcParam)
  /-- the parameters its lambda captures by copy -/
  copied : List ParamName
  call : MethodCall
  deriving DecidableEq, Repr

namespace TagInvoke

def types (o : TagInvoke) : List RpcParam := o.params.map Prod.snd

def names (o : TagInvoke) : List ParamName := o.params.map Prod.fst

/-- The lambda's body is well formed under the template arguments `θ`.
`service.*rpc` is if the service, which is not `const`, is of the class `rpc`
points into or of one derived from it; the other bodies call what their
responder has. -/
def bodyCompiles (C : Classes TypeName) (o : TagInvoke) (θ : TemplateParam → RpcTy) : Bool :=
  if o.call.callee.isPointer then
    !(θ .service).isConst && (θ .service = θ .rpc || C.derives (θ .service) (θ .rpc))
  else true

/-- A call with the arguments `es` that resolves to the overload compiles. -/
def compiles (C : Classes TypeName) (o : TagInvoke) (es : List (Expr TypeName)) : Bool :=
  (deduced C o.types es).any (o.bodyCompiles C)

end TagInvoke

/-! ### The overloads -/

section Overloads

open TemplateParam (rpc service request responder response)

/-- Server AsyncRequest, for a method with a request argument.  `Service` is
deduced by itself; that it has the method is up to the body (`bodyCompiles`). -/
def requestMultiArg : TagInvoke where
  tag := .asyncRequest
  params := [schedulerParam,
    (.rpc, byValue (template₃ .serverMultiArgRequest rpc request responder)),
    (.service, lref (tparam service)), (.serverContext, lref (cls .serverContext)),
    (.request, lref (tparam request)), (.responder, lref (tparam responder))]
  copied := [.rpc]
  call := {
    object := .service
    callee := .pointer .rpc
    args := [.address .serverContext, .address .request, .address .responder,
      .completionQueue, .completionQueue] }

/-- Server AsyncRequest, for a method without a request argument; of `Service` the
same is true. -/
def requestSingleArg : TagInvoke where
  tag := .asyncRequest
  params := [schedulerParam,
    (.rpc, byValue (template₂ .serverSingleArgRequest rpc responder)),
    (.service, lref (tparam service)), (.serverContext, lref (cls .serverContext)),
    (.responder, lref (tparam responder))]
  copied := [.rpc]
  call := {
    object := .service
    callee := .pointer .rpc
    args := [.address .serverContext, .address .responder, .completionQueue,
      .completionQueue] }

def readReader : TagInvoke where
  tag := .asyncRead
  params := [schedulerParam, (.reader, lref (template₂ .serverAsyncReader response request)),
    (.request, lref (tparam request))]
  copied := []
  call := { object := .reader, callee := .member .read, args := [.address .request] }

def readReaderWriter : TagInvoke where
  tag := .asyncRead
  params := [schedulerParam,
    (.readerWriter, lref (template₂ .serverAsyncReaderWriter response request)),
    (.request, lref (tparam request))]
  copied := []
  call := { object := .readerWriter, callee := .member .read, args := [.address .request] }

def writeWriter : TagInvoke where
  tag := .asyncWrite
  params := [schedulerParam, (.writer, lref (template₁ .serverAsyncWriter response)),
    (.response, cref (tparam response))]
  copied := []
  call := { object := .writer, callee := .member .write, args := [.value .response] }

def writeReaderWriter : TagInvoke where
  tag := .asyncWrite
  params := [schedulerParam,
    (.readerWriter, lref (template₂ .serverAsyncReaderWriter response request)),
    (.response, cref (tparam response))]
  copied := []
  call := { object := .readerWriter, callee := .member .write, args := [.value .response] }

def finishResponseWriter : TagInvoke where
  tag := .asyncFinish
  params := [schedulerParam, (.writer, lref (template₁ .serverAsyncResponseWriter response)),
    (.response, cref (tparam response)), (.status, cref (cls .status))]
  copied := []
  call := {
    object := .writer
    callee := .member .finish
    args := [.value .response, .value .status] }

def finishWriter : TagInvoke where
  tag := .asyncFinish
  params := [schedulerParam, (.writer, lref (template₁ .serverAsyncWriter response)),
    (.status, cref (cls .status))]
  copied := []
  call := { object := .writer, callee := .member .finish, args := [.value .status] }

def finishReader : TagInvoke where
  tag := .asyncFinish
  params := [schedulerParam, (.reader, lref (template₂ .serverAsyncReader response request)),
    (.response, cref (tparam response)), (.status, cref (cls .status))]
  copied := []
  call := {
    object := .reader
    callee := .member .finish
    args := [.value .response, .value .status] }

def finishReaderWriter : TagInvoke where
  tag := .asyncFinish
  params := [schedulerParam,
    (.readerWriter, lref (template₂ .serverAsyncReaderWriter response request)),
    (.status, cref (cls .status))]
  copied := []
  call := { object := .readerWriter, callee := .member .finish, args := [.value .status] }

/-- Client AsyncFinish. -/
def finishResponseReader : TagInvoke where
  tag := .asyncFinish
  params := [schedulerParam, (.reader, lref (template₁ .clientAsyncResponseReader response)),
    (.response, lref (tparam response)), (.status, lref (cls .status))]
  copied := []
  call := {
    object := .reader
    callee := .member .finish
    args := [.address .response, .address .status] }

def writeAndFinishWriter : TagInvoke where
  tag := .asyncWriteAndFinish
  params := [schedulerParam, (.writer, lref (template₁ .serverAsyncWriter response)),
    (.response, cref (tparam response)), (.options, byValue (cls .writeOptions)),
    (.status, cref (cls .status))]
  copied := []
  call := {
    object := .writer
    callee := .member .writeAndFinish
    args := [.value .response, .value .options, .value .status] }

def writeAndFinishReaderWriter : TagInvoke where
  tag := .asyncWriteAndFinish
  params := [schedulerParam,
    (.readerWriter, lref (template₂ .serverAsyncReaderWriter response request)),
    (.response, cref (tparam response)), (.options, byValue (cls .writeOptions)),
    (.status, cref (cls .status))]
  copied := []
  call := {
    object := .readerWriter
    callee := .member .writeAndFinish
    args := [.value .response, .value .options, .value .status] }

def finishWithErrorReader : TagInvoke where
  tag := .asyncFinishWithError
  params := [schedulerParam, (.reader, lref (template₂ .serverAsyncReader response request)),
    (.status, cref (cls .status))]
  copied := []
  call := { object := .reader, callee := .member .finishWithError, args := [.value .status] }

/-- The one overload that takes its responder by value. -/
def finishWithErrorResponseWriter : TagInvoke where
  tag := .asyncFinishWithError
  params := [schedulerParam,
    (.writer, byValue (template₁ .serverAsyncResponseWriter response)),
    (.status, cref (cls .status))]
  copied := []
  call := { object := .writer, callee := .member .finishWithError, args := [.value .status] }

def sendInitialMetadata : TagInvoke where
  tag := .asyncSendInitialMetadata
  params := [schedulerParam, (.responder, lref (tparam responder))]
  copied := []
  call := { object := .responder, callee := .member .sendInitialMetadata, args := [] }

/-- The friend declarations of `GrpcContext::Scheduler`. -/
def tagInvokes : List TagInvoke :=
  [requestMultiArg, requestSingleArg, readReader, readReaderWriter, writeWriter,
    writeReaderWriter, finishResponseWriter, finishWriter, finishReader, finishReaderWriter,
    finishResponseReader, writeAndFinishWriter, writeAndFinishReaderWriter,
    finishWithErrorReader, finishWithErrorResponseWriter, sendInitialMetadata]

end Overloads

/-- Overload resolution of `tag_invoke(tag, es...)`, in a program with the
classes `C`. -/
def tagInvokeFor (C : Classes TypeName) (tag : Cpo) (es : List (Expr TypeName)) :
    Option TagInvoke :=
  resolve tagInvokes fun o => o.tag = tag && viable C o.types es

end Agrpc
