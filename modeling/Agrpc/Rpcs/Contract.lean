/-
Agrpc/Rpcs/Contract.lean

The contract of a factory call: the sender it returns performs the call it was
made for, however late it starts.  `requested` says which call that is, from
the customization point and what is passed alone; `PerformsItsCall` compares it
with what the lambda does in any store after both calls have ended.

The contract holds for `AsyncRequest`, if the service has the method, for
`AsyncRead`, `AsyncWrite` and `AsyncFinish`, if the caller keeps what it passes
by reference (`performsItsCall_iff`): a temporary, be it an argument or made
from one by a conversion, is not kept.  It fails for the others: no call of
`AsyncSendInitialMetadata`, and none of `AsyncFinishWithError` on a
`ServerAsyncReader`, compiles, and the lambdas of the rest refer to a parameter
taken by value.
-/
import Agrpc.Rpcs.Compiles
import Agrpc.Rpcs.Captures

namespace Agrpc

open Lifetimes Overloading

/-! ### The call that is asked for -/

/-- The member function a customization point is named after; `AsyncRequest`
takes a pointer to one. -/
def Cpo.member : Cpo → Option Method
  | .asyncRequest => none
  | .asyncRead => some .read
  | .asyncWrite => some .write
  | .asyncFinish => some .finish
  | .asyncWriteAndFinish => some .writeAndFinish
  | .asyncFinishWithError => some .finishWithError
  | .asyncSendInitialMetadata => some .sendInitialMetadata

/-- gRPC writes to the arguments after the responder, so it takes their
addresses: a read request, and what a client's call finished with. -/
def Cpo.writesTo (cpo : Cpo) (responder : TypeName) : Bool :=
  match cpo with
  | .asyncRead => true
  | .asyncFinish => responder = .clientAsyncResponseReader
  | _ => false

/-- What is passed, as gRPC gets it when the factory is called. -/
def passArg (σ : Store ℕ) (byAddress : Bool) (s : Source ℕ) : Option GrpcArg :=
  if byAddress then s.location.map .address else (s.value σ).map .value

def passAll (σ : Store ℕ) (byAddress : Bool) : List (Source ℕ) → Option (List GrpcArg)
  | [] => some []
  | s :: ss => (passArg σ byAddress s).bind fun x => (passAll σ byAddress ss).map (x :: ·)

/-- The gRPC call a factory call with these arguments asks for, where `passed` is
what the arguments are converted to. -/
def requested (cpo : Cpo) (args : List Argument) (passed : List (Source ℕ)) (σ : Store ℕ)
    (tag : ℕ) : Option RpcCall :=
  match cpo.member, args, passed with
  | some m, _ :: responder :: _, _ :: _ :: rest =>
      (passAll σ (cpo.writesTo responder.expr.ty.head) rest).map fun xs =>
        { object := responder.loc, callee := .member m, args := xs, tag := tag }
  | none, _ :: rpc :: service :: _, s :: _ :: _ :: rest =>
      (s.value σ).bind fun context => (σ.object rpc.loc).bind fun x =>
        (passAll σ true rest).map fun xs =>
          { object := service.loc
            callee := .pointer x
            args := xs ++ [.completionQueue context, .completionQueue context]
            tag := tag }
  | _, _, _ => none

/-- The caller keeps the object at `l`: it passed it as an lvalue. -/
def Kept (args : List Argument) (l : ℕ) : Prop :=
  ∃ a ∈ args, a.expr.isLvalue = true ∧ a.loc = l

/-- **The contract** of the factory call `cpo(args...)`: it compiles and goes
to the `tag_invoke` overload declared for it, and its sender, connected at any
address and started at any later time at which what the caller keeps is
unchanged, makes exactly one gRPC call, the one that was asked for. -/
def PerformsItsCall (C : Classes TypeName) (cpo : Cpo) (args : List Argument)
    (σ : Store ℕ) : Prop :=
  ∃ o c, tagInvokeFor C cpo (exprs args) = some o ∧
    dispatch C cpo (exprs args) = some (c, o) ∧
    ∃ sender σ', factory C c o args σ = some (sender, σ') ∧
      ∀ τ, σ'.Later τ → (∀ l, Kept args l → τ.object l = σ.object l) →
        ∀ tag, ∃ call, requested cpo args (sources C o.types args) σ tag = some call ∧
          (sender.connect tag).startAsyncRpc τ = some [call]

/-! ### The lambdas, read off the table -/

/-- The parameters a lambda's body uses. -/
def MethodCall.uses (m : MethodCall) : List ParamName :=
  m.object :: (match m.callee with
    | .member _ => []
    | .pointer p => [p]) ++ m.args.filterMap fun
    | .address p => some p
    | .value p => some p
    | .completionQueue => none

/-- The class template of the parameter after the scheduler. -/
def TagInvoke.responder (o : TagInvoke) : TypeName :=
  ((o.types[1]?).bind fun p => p.pat.head?).getD .scheduler

def passes (byAddress : Bool) (p : ParamName) : CallArg :=
  if byAddress then .address p else .value p

/-- The customization points whose overloads keep the contract. -/
def keepers : List Cpo := [.asyncRequest, .asyncRead, .asyncWrite, .asyncFinish]

/-- The overloads that keep the contract: an overload of the customization
point agrees with them, and their lambdas use all parameters after the
scheduler and copy exactly those that are taken by value. -/
theorem keepers_eq : ∀ o ∈ tagInvokes, o.tag ∈ keepers →
    (∃ c ∈ operators, Agrees c o = true) ∧
      ∀ p ∈ o.params.tail, p.1 ∈ o.call.uses ∧
        p.2.passing.isReference = !decide (p.1 ∈ o.copied) := by
  decide +kernel

/-- The others: no overload of the customization point agrees with them, or
their lambdas use a parameter taken by value and do not copy it. -/
theorem others_eq : ∀ o ∈ tagInvokes, o.tag ∉ keepers →
    (∀ c ∈ operators, Agrees c o = false) ∨
      ∃ p ∈ o.params.tail, p.1 ∈ o.call.uses ∧ p.2.passing.isReference = false ∧
        p.1 ∉ o.copied := by
  decide +kernel

/-- What the lambdas of `AsyncRead`, `AsyncWrite` and `AsyncFinish` call. -/
theorem member_call_eq : ∀ o ∈ tagInvokes, o.tag ∈ keepers → o.tag ≠ .asyncRequest →
    o.copied = [] ∧ o.tag.member.map Callee.member = some o.call.callee ∧
      o.names.tail = o.call.object :: o.names.drop 2 ∧
      o.call.args = (o.names.drop 2).map (passes (o.tag.writesTo o.responder)) := by
  decide +kernel

/-- Their responders are template arguments, and all they take after them is taken
by reference. -/
theorem member_types : ∀ o ∈ tagInvokes, o.tag ∈ keepers → o.tag ≠ .asyncRequest →
    (o.types[1]?).any (fun p => !p.pat.closed && p.pat.head?.isSome) = true ∧
      ∀ p ∈ o.types.drop 2, p.passing.isReference = true := by
  decide +kernel

/-- What the lambdas of `AsyncRequest` call. -/
theorem request_call_eq : ∀ o ∈ tagInvokes, o.tag = .asyncRequest →
    o.copied = [.rpc] ∧ o.names.tail = .rpc :: .service :: o.names.drop 3 ∧
      o.call = {
        object := .service
        callee := .pointer .rpc
        args := (o.names.drop 3).map (passes true) ++ [.completionQueue, .completionQueue] } := by
  decide +kernel

/-- The types of method and service are deduced, and all that is taken after them
is taken by reference. -/
theorem request_types : ∀ o ∈ tagInvokes, o.tag = .asyncRequest →
    (o.types[1]?).any (fun p => !p.pat.closed) = true ∧
      (o.types[2]?).any (fun p => !p.pat.closed) = true ∧
      ∀ p ∈ o.types.drop 3, p.passing.isReference = true := by
  decide +kernel

/-! ### What the body of a lambda reads -/

namespace Lambda

variable {f : Lambda} {σ τ : Store ℕ}

/-- In the store `τ`, the parameter `p` of the lambda reads what was passed as
`s` in `σ`, and is that object if it is not a copy. -/
structure Reads (f : Lambda) (σ τ : Store ℕ) (p : ParamName) (s : Source ℕ) : Prop where
  value : f.valueOf τ p = s.value σ
  object : p ∉ f.overload.copied → f.objectOf τ p = s.location

theorem arguments_append (context : ℕ) (xs ys : List CallArg) :
    f.arguments τ context (xs ++ ys) =
      (f.arguments τ context xs).bind fun as => (f.arguments τ context ys).map (as ++ ·) := by
  induction xs with
  | nil =>
    show _ = (some []).bind fun as => (f.arguments τ context ys).map (as ++ ·)
    rw [Option.bind_some]
    exact Option.map_id'.symm
  | cons x xs ih =>
    rw [List.cons_append, arguments, arguments, ih]
    cases f.argument τ context x with
    | none => rfl
    | some a =>
      rw [Option.bind_some, Option.bind_some]
      cases f.arguments τ context xs with
      | none => rfl
      | some as =>
        rw [Option.bind_some, Option.map_some, Option.bind_some, Option.map_map]
        rfl

/-- Arguments that read what the caller passed are what was asked for. -/
theorem arguments_eq {byAddress : Bool} {ps : List ParamName} {ss : List (Source ℕ)}
    (h : List.Forall₂ (f.Reads σ τ) ps ss) (hcopied : ∀ p ∈ ps, p ∉ f.overload.copied)
    (context : ℕ) :
    f.arguments τ context (ps.map (passes byAddress)) = passAll σ byAddress ss := by
  induction h with
  | nil => rfl
  | @cons p s ps ss hp _ ih =>
    have hobject := hp.object (hcopied p List.mem_cons_self)
    have hrest := ih fun q hq => hcopied q (List.mem_cons_of_mem p hq)
    rw [List.map_cons, arguments, passAll, hrest]
    congr 1
    cases byAddress with
    | true =>
      show (f.objectOf τ p).map GrpcArg.address = s.location.map .address
      rw [hobject]
    | false =>
      show (f.valueOf τ p).map GrpcArg.value = (s.value σ).map .value
      rw [hp.value]

/-- A call is made only if every parameter the body uses has a value. -/
theorem valueOf_of_invoke {context tag : ℕ} {call : RpcCall}
    (h : f.invoke τ context tag = some call) {p : ParamName} (hp : p ∈ f.overload.call.uses) :
    (f.valueOf τ p).isSome = true := by
  have hof : ∀ {q l}, f.objectOf τ q = some l → (f.valueOf τ q).isSome = true := by
    intro q l hq
    obtain ⟨x, hx, hl⟩ := Option.bind_eq_some_iff.mp hq
    rw [valueOf, hx]
    exact Captured.value_isSome_of_location hl
  obtain ⟨object, hobject, h⟩ := Option.bind_eq_some_iff.mp h
  obtain ⟨callee, hcallee, h⟩ := Option.bind_eq_some_iff.mp h
  obtain ⟨args, hargs, -⟩ := Option.map_eq_some_iff.mp h
  rw [MethodCall.uses, List.cons_append, List.mem_cons, List.mem_append] at hp
  rcases hp with rfl | hp | hp
  · exact hof hobject
  · unfold Lambda.callee at hcallee
    split at hcallee
    next m hm =>
      rw [hm] at hp
      exact absurd hp List.not_mem_nil
    next q hq =>
      rw [hq] at hp
      rw [List.mem_singleton.mp hp]
      obtain ⟨x, hx, -⟩ := Option.map_eq_some_iff.mp hcallee
      exact Option.isSome_iff_exists.mpr ⟨x, hx⟩
  · -- the arguments, one after the other
    generalize f.overload.call.args = xs at hargs hp
    induction xs generalizing args with
    | nil => exact absurd hp List.not_mem_nil
    | cons x xs ih =>
      obtain ⟨y, hy, hrest⟩ := Option.bind_eq_some_iff.mp hargs
      obtain ⟨ys, hys, -⟩ := Option.map_eq_some_iff.mp hrest
      cases x with
      | address q =>
        rcases List.mem_cons.mp hp with rfl | hp
        · obtain ⟨l, hl, -⟩ := Option.map_eq_some_iff.mp hy
          exact hof hl
        · exact ih ys hys hp
      | value q =>
        rcases List.mem_cons.mp hp with rfl | hp
        · obtain ⟨v, hv, -⟩ := Option.map_eq_some_iff.mp hy
          exact Option.isSome_iff_exists.mpr ⟨v, hv⟩
        · exact ih ys hys hp
      | completionQueue => exact ih ys hys hp

end Lambda

/-- Objects that are alive can be passed, by their values and by their
addresses. -/
theorem passAll_isSome {σ : Store ℕ} {ss : List (Source ℕ)} (byAddress : Bool)
    (hlive : ∀ s ∈ ss, (s.value σ).isSome) (hobject : ∀ s ∈ ss, s.location.isSome) :
    ∃ xs, passAll σ byAddress ss = some xs := by
  induction ss with
  | nil => exact ⟨[], rfl⟩
  | cons s ss ih =>
    obtain ⟨xs, hxs⟩ := ih (fun r hr => hlive r (List.mem_cons_of_mem s hr)) fun r hr =>
      hobject r (List.mem_cons_of_mem s hr)
    obtain ⟨v, hv⟩ := Option.isSome_iff_exists.mp (hlive s List.mem_cons_self)
    obtain ⟨l, hl⟩ := Option.isSome_iff_exists.mp (hobject s List.mem_cons_self)
    rw [passAll, hxs, passArg, hv, hl]
    split
    · exact ⟨_, rfl⟩
    · exact ⟨_, rfl⟩

/-- The lambdas of `AsyncRequest` make the call that was asked for, where their
parameters read what the caller passed. -/
theorem invoke_request {f : Lambda} {σ τ : Store ℕ} {executor rpc service : Argument}
    {args : List Argument} {s : Source ℕ} {rest : List (Source ℕ)}
    (ho : f.overload ∈ tagInvokes) (htag : f.overload.tag = .asyncRequest)
    (hreads : List.Forall₂ (f.Reads σ τ) f.overload.names.tail
      (.object rpc.loc :: .object service.loc :: rest))
    (hrpc : (σ.object rpc.loc).isSome) (hlive : ∀ r ∈ rest, (r.value σ).isSome)
    (hobject : ∀ r ∈ rest, r.location.isSome) {context : ℕ} (hs : s.value σ = some context)
    (tag : ℕ) :
    ∃ call, requested f.overload.tag (executor :: rpc :: service :: args)
        (s :: .object rpc.loc :: .object service.loc :: rest) σ tag = some call ∧
      f.invoke τ context tag = some call := by
  obtain ⟨hcopied, hnames, hcall⟩ := request_call_eq f.overload ho htag
  have hnodup := (names_eq f.overload ho).1
  rw [(names_eq f.overload ho).2, hnames] at hnodup
  rw [hnames] at hreads
  obtain - | ⟨hreadsRpc, hreads⟩ := hreads
  obtain - | ⟨hreadsService, hreads⟩ := hreads
  obtain ⟨x, hx⟩ := Option.isSome_iff_exists.mp hrpc
  obtain ⟨xs, hxs⟩ := passAll_isSome true hlive hobject
  -- only `rpc` is copied, and no other parameter has its name
  have hservice : ParamName.service ∉ f.overload.copied := by
    rw [hcopied]
    decide
  have hrest : ∀ p ∈ f.overload.names.drop 3, p ∉ f.overload.copied := by
    intro p hp
    rw [hcopied, List.mem_singleton]
    rintro rfl
    have hne := (List.nodup_cons.mp (List.nodup_cons.mp hnodup).2).1
    exact hne (List.mem_cons_of_mem _ hp)
  have hobj : f.objectOf τ f.overload.call.object = some service.loc := by
    rw [hcall]
    exact hreadsService.object hservice
  have hcallee : f.callee τ = some (.pointer x) := by
    unfold Lambda.callee
    rw [hcall]
    show (f.valueOf τ .rpc).map Callee.pointer = some (.pointer x)
    rw [hreadsRpc.value, Source.value, hx, Option.map_some]
  have hargs : f.arguments τ context f.overload.call.args
      = some (xs ++ [.completionQueue context, .completionQueue context]) := by
    rw [hcall]
    show f.arguments τ context (_ ++ _) = _
    rw [Lambda.arguments_append, Lambda.arguments_eq hreads hrest context, hxs]
    rfl
  refine ⟨{
    object := service.loc
    callee := .pointer x
    args := xs ++ [.completionQueue context, .completionQueue context]
    tag := tag }, ?_, ?_⟩
  · have hmember : f.overload.tag.member = none := by
      rw [htag]
      rfl
    simp only [requested, hmember, hs, hx, hxs, Option.bind_some, Option.map_some]
  · rw [Lambda.invoke, hobj, Option.bind_some, hcallee, Option.bind_some, hargs,
      Option.map_some]

/-- So do those of `AsyncRead`, `AsyncWrite` and `AsyncFinish`. -/
theorem invoke_member {f : Lambda} {σ τ : Store ℕ} {executor responder : Argument}
    {args : List Argument} {s : Source ℕ} {rest : List (Source ℕ)}
    (ho : f.overload ∈ tagInvokes) (htag : f.overload.tag ∈ keepers)
    (hne : f.overload.tag ≠ .asyncRequest)
    (hreads : List.Forall₂ (f.Reads σ τ) f.overload.names.tail (.object responder.loc :: rest))
    (hlive : ∀ r ∈ rest, (r.value σ).isSome) (hobject : ∀ r ∈ rest, r.location.isSome)
    (hresponder : responder.expr.ty.head = f.overload.responder) (context tag : ℕ) :
    ∃ call, requested f.overload.tag (executor :: responder :: args)
        (s :: .object responder.loc :: rest) σ tag = some call ∧
      f.invoke τ context tag = some call := by
  obtain ⟨hcopied, hmember, hnames, hcall⟩ := member_call_eq f.overload ho htag hne
  rw [hnames] at hreads
  obtain - | ⟨hreadsResponder, hreads⟩ := hreads
  have hnone : ∀ p, p ∉ f.overload.copied := by
    intro p
    rw [hcopied]
    exact List.not_mem_nil
  obtain ⟨xs, hxs⟩ := passAll_isSome (f.overload.tag.writesTo f.overload.responder) hlive hobject
  obtain ⟨m, hm, hcm⟩ := Option.map_eq_some_iff.mp hmember
  have hcallee : f.callee τ = some (.member m) := by
    unfold Lambda.callee
    rw [← hcm]
  have hargs : f.arguments τ context f.overload.call.args = some xs := by
    rw [hcall, Lambda.arguments_eq hreads (fun p _ => hnone p) context, hxs]
  have hobj : f.objectOf τ f.overload.call.object = some responder.loc :=
    hreadsResponder.object (hnone _)
  refine ⟨{ object := responder.loc, callee := .member m, args := xs, tag := tag }, ?_, ?_⟩
  · simp only [requested, hm, hresponder, hxs, Option.map_some]
  · rw [Lambda.invoke, hobj, Option.bind_some, hcallee, Option.bind_some, hargs,
      Option.map_some]

/-! ### From the captures to the call -/

section Factory

variable {C : Classes TypeName} {c : Operator} {o : TagInvoke} {executor : Argument}
  {args : List Argument} {σ σ' : Store ℕ} {sender : AsyncRPCSender}

/-- How the lambda has captured a parameter after the scheduler. -/
theorem captured_spec (hcall : FactoryCall C c o (executor :: args) σ)
    (hf : factory C c o (executor :: args) σ = some (sender, σ')) {i : ℕ}
    {p : ParamName × RpcParam} {s : Source ℕ} (hp : o.params.tail[i]? = some p)
    (hs : (sources C o.types.tail args)[i]? = some s) :
    ∃ x, sender.rpc.captured p.1 = some x ∧
      CapturedAs σ σ' p.2.passing (decide (p.1 ∈ o.copied)) s x := by
  obtain ⟨x, hx, has⟩ := (factory_spec hcall hf).2.2 i p s hp hs
  refine ⟨x, ?_, has⟩
  -- the name is at the parameter's position and nowhere else
  have hname : o.names[i + 1]? = some p.1 := by
    rw [TagInvoke.names, ← List.getElem?_tail, ← List.map_tail, List.getElem?_map, hp,
      Option.map_some]
  obtain ⟨hi, hget⟩ := List.getElem?_eq_some_iff.mp hname
  have hidx : o.names.idxOf p.1 = i + 1 := by
    rw [← hget]
    exact (names_eq o hcall.declared).1.idxOf_getElem (i + 1) hi
  rw [Lambda.captured, factory_overload hf, hidx]
  exact hx

theorem startAsyncRpc_iff {τ : Store ℕ} {tag : ℕ} {call : RpcCall} :
    (sender.connect tag).startAsyncRpc τ = some [call] ↔
      sender.rpc.invoke τ sender.context tag = some call := by
  show (sender.rpc.invoke τ sender.context tag).map (fun call => [call]) = some [call] ↔ _
  simp

/-- If the operation makes a call, a parameter the lambda uses has a value. -/
theorem captured_value_isSome (hf : factory C c o (executor :: args) σ = some (sender, σ'))
    {τ : Store ℕ} {tag : ℕ} {call : RpcCall}
    (hstart : (sender.connect tag).startAsyncRpc τ = some [call]) {p : ParamName}
    {x : Captured ℕ} (hx : sender.rpc.captured p = some x) (huse : p ∈ o.call.uses) :
    (x.value τ).isSome = true := by
  have huse' : p ∈ sender.rpc.overload.call.uses := by
    rw [factory_overload hf]
    exact huse
  have hsome := Lambda.valueOf_of_invoke (startAsyncRpc_iff.mp hstart) huse'
  rw [Lambda.valueOf, hx] at hsome
  exact hsome

theorem sources_getElem? {i : ℕ} {p : ParamName × RpcParam} {a : Argument}
    (hp : o.params.tail[i]? = some p) (ha : args[i]? = some a) :
    (sources C o.types.tail args)[i]? = some (a.source C p.2) := by
  rw [sources, List.getElem?_zipWith, TagInvoke.types, ← List.map_tail, List.getElem?_map, hp, ha]
  rfl

/-- A parameter reads what the caller passed, as long as that is there unchanged
if it is a reference. -/
theorem reads_param (hcall : FactoryCall C c o (executor :: args) σ) (htag : o.tag ∈ keepers)
    (hf : factory C c o (executor :: args) σ = some (sender, σ')) {τ : Store ℕ} {i : ℕ}
    {p : ParamName × RpcParam} {s : Source ℕ} (hp : o.params.tail[i]? = some p)
    (hs : (sources C o.types.tail args)[i]? = some s)
    (hkeep : p.2.passing.isReference = true → ∃ l, s = .object l ∧ τ.object l = σ.object l) :
    sender.rpc.Reads σ τ p.1 s := by
  obtain ⟨x, hx, has⟩ := captured_spec hcall hf hp hs
  have href := ((keepers_eq o hcall.declared htag).2 p (List.mem_of_getElem? hp)).2
  by_cases hcp : p.1 ∈ o.copied
  · obtain ⟨v, hv, rfl⟩ := has.copy (decide_eq_true hcp)
    refine ⟨?_, fun hn => ?_⟩
    · rw [Lambda.valueOf, hx, hv]
      rfl
    · rw [factory_overload hf] at hn
      exact absurd hcp hn
  · have hr : p.2.passing.isReference = true := by
      rw [href, decide_eq_false hcp]
      rfl
    obtain ⟨l, rfl, hτ⟩ := hkeep hr
    obtain ⟨k, rfl, hpass⟩ := has.ref (decide_eq_false hcp) hr
    obtain rfl : k = l := hpass.object l rfl
    refine ⟨?_, fun _ => ?_⟩
    · rw [Lambda.valueOf, hx]
      exact hτ
    · rw [Lambda.objectOf, hx]
      apply Captured.location_ref
      rw [hτ]
      apply hcall.live.sources (.object k)
      rw [(sources_eq hcall).2]
      exact List.mem_cons_of_mem _ (List.mem_of_getElem? hs)

/-- So do all, if what is passed by reference is there unchanged. -/
theorem reads_of_unchanged (hcall : FactoryCall C c o (executor :: args) σ)
    (htag : o.tag ∈ keepers)
    (hf : factory C c o (executor :: args) σ = some (sender, σ')) {τ : Store ℕ}
    (hkeep : ∀ x ∈ o.types.tail.zip args, x.1.passing.isReference = true →
      ∃ l, x.2.source C x.1 = .object l ∧ τ.object l = σ.object l) :
    List.Forall₂ (sender.rpc.Reads σ τ) o.names.tail (sources C o.types.tail args) := by
  have hparams : o.types.tail.length = o.params.tail.length := by
    rw [TagInvoke.types, List.length_tail, List.length_tail, List.length_map]
  have hargs : o.types.tail.length = args.length := by
    rw [List.length_tail, hcall.length]
    rfl
  have hnames : o.names.tail.length = (sources C o.types.tail args).length := by
    rw [sources, List.length_zipWith, ← hargs, Nat.min_self, hparams, TagInvoke.names,
      List.length_tail, List.length_tail, List.length_map]
  apply List.forall₂_of_length_eq_of_get hnames
  intro i hi₁ hi₂
  have hia : i < args.length := by
    rw [sources, List.length_zipWith, hargs, Nat.min_self] at hi₂
    exact hi₂
  have hip : i < o.params.tail.length := by
    rw [← hparams, hargs]
    exact hia
  have hp : o.params.tail[i]? = some o.params.tail[i] := List.getElem?_eq_getElem hip
  have ha : args[i]? = some args[i] := List.getElem?_eq_getElem hia
  have hs := sources_getElem? (C := C) hp ha
  have hname : o.names.tail.get ⟨i, hi₁⟩ = o.params.tail[i].1 := by
    simp [TagInvoke.names]
  have hsource : (sources C o.types.tail args).get ⟨i, hi₂⟩
      = args[i].source C o.params.tail[i].2 := by
    apply Option.some.inj
    rw [← hs]
    exact (List.getElem?_eq_getElem hi₂).symm
  rw [hname, hsource]
  apply reads_param hcall htag hf hp hs
  apply hkeep (o.params.tail[i].2, args[i])
  apply List.mem_of_getElem? (i := i)
  rw [List.getElem?_zip_eq_some]
  refine ⟨?_, ha⟩
  rw [TagInvoke.types, ← List.map_tail, List.getElem?_map, hp, Option.map_some]

end Factory

/-! ### The contract -/

section Contract

variable {C : Classes TypeName} {cpo : Cpo} {executor : Argument} {args : List Argument}
  {σ : Store ℕ} {o : TagInvoke}

/-- What a declared overload says about the call. -/
theorem declared_cases {as : List Argument} (hdecl : tagInvokeFor C cpo (exprs as) = some o) :
    o ∈ tagInvokes ∧ o.tag = cpo ∧ viable C o.types (exprs as) = true ∧
      o.types.length = as.length ∧ ∃ executor args, as = executor :: args := by
  obtain ⟨ho, htag, hv⟩ := viable_of_tagInvokeFor hdecl
  have hlen := length_of_viable hv
  rw [exprs, List.length_map] at hlen
  refine ⟨ho, htag, hv, hlen, ?_⟩
  cases as with
  | nil =>
    rw [(types_eq o ho).1] at hlen
    cases hlen
  | cons executor args => exact ⟨executor, args, rfl⟩

/-- A call that is dispatched goes through an overload that agrees. -/
theorem agrees_of_dispatch {as : List Argument}
    (hdecl : tagInvokeFor C cpo (exprs as) = some o) {c : Operator}
    (h : dispatch C cpo (exprs as) = some (c, o)) : Agrees c o = true := by
  obtain ⟨-, -, -, hcompiles⟩ := viable_of_dispatch h
  obtain ⟨ho, rfl, hv, -⟩ := declared_cases hdecl
  by_cases hno : ∀ c ∈ operators, Agrees c o = false
  · rw [dispatch_of_not_agrees ho hno hv] at h
    cases h
  · obtain ⟨c', hc', hag⟩ : ∃ c' ∈ operators, Agrees c' o = true := by simpa using hno
    rw [dispatch_of_agrees hc' ho hag hv hcompiles] at h
    obtain ⟨rfl, -⟩ := Prod.mk.inj (Option.some.inj h)
    exact hag

/-- What the caller keeps was there before the call, and is unchanged when the
factory call returns. -/
theorem kept_of_factory {c : Operator} {sender : AsyncRPCSender} {σ' : Store ℕ}
    (hcall : FactoryCall C c o (executor :: args) σ)
    (hf : factory C c o (executor :: args) σ = some (sender, σ')) {l : ℕ}
    (hl : Kept (executor :: args) l) : l < σ.size ∧ σ'.object l = σ.object l := by
  obtain ⟨a, ha, -, rfl⟩ := hl
  obtain ⟨v, hv⟩ := Option.isSome_iff_exists.mp (hcall.live.arguments a ha)
  have hlt := Store.lt_size_of_object hv
  exact ⟨hlt, (factory_spec hcall hf).1 a.loc hlt⟩

/-- A customization point that keeps its contract on some call is one of the
first four. -/
theorem keepers_of_performs {as : List Argument}
    (hdecl : tagInvokeFor C cpo (exprs as) = some o) (hlive : Live C o.types as σ)
    (h : PerformsItsCall C cpo as σ) : cpo ∈ keepers := by
  by_contra hnot
  obtain ⟨ho, rfl, hv, hlen, executor, args, rfl⟩ := declared_cases hdecl
  obtain ⟨o', c, hdecl', hdisp, sender, σ', hf, hlater⟩ := h
  obtain rfl : o = o' := Option.some.inj (hdecl.symm.trans hdecl')
  have hcall : FactoryCall C c o (executor :: args) σ :=
    ⟨ho, agrees_of_dispatch hdecl hdisp, hlen, hlive⟩
  rcases others_eq o ho hnot with hno | ⟨p, hp, huse, hval, hcp⟩
  · rw [dispatch_of_not_agrees ho hno hv] at hdisp
    cases hdisp
  · -- the lambda uses `p`, which died when the factory call returned
    obtain ⟨call, -, hstart⟩ := hlater σ' (Store.Later.refl σ')
      (fun l hl => (kept_of_factory hcall hf hl).2) 0
    obtain ⟨i, hi, rfl⟩ := List.getElem_of_mem hp
    have hia : i < args.length := by
      have htypes : o.types.length = o.params.length := List.length_map _
      rw [List.length_tail, ← htypes, hlen] at hi
      exact hi
    obtain ⟨x, hx, has⟩ := captured_spec hcall hf (List.getElem?_eq_getElem hi)
      (sources_getElem? (List.getElem?_eq_getElem hi) (List.getElem?_eq_getElem hia))
    have hsome := captured_value_isSome hf hstart hx huse
    rw [has.dead (decide_eq_false hcp) hval σ' (Store.Later.refl σ')] at hsome
    cases hsome

/-- On such a call the caller keeps everything that is passed by reference: the
sender can start after anything else has died. -/
theorem kept_of_performs {as : List Argument}
    (hdecl : tagInvokeFor C cpo (exprs as) = some o) (hlive : Live C o.types as σ)
    (h : PerformsItsCall C cpo as σ) :
    ∀ x ∈ o.types.zip as, x.1.passing.isReference = true →
      ∃ l, x.2.source C x.1 = .object l ∧ Kept as l := by
  have hkeeper := keepers_of_performs hdecl hlive h
  obtain ⟨ho, rfl, hv, hlen, executor, args, rfl⟩ := declared_cases hdecl
  obtain ⟨o', c, hdecl', hdisp, sender, σ', hf, hlater⟩ := h
  obtain rfl : o = o' := Option.some.inj (hdecl.symm.trans hdecl')
  have hcall : FactoryCall C c o (executor :: args) σ :=
    ⟨ho, agrees_of_dispatch hdecl hdisp, hlen, hlive⟩
  rintro ⟨t, a⟩ hx href
  obtain ⟨i, hi⟩ := List.mem_iff_getElem?.mp hx
  obtain ⟨hti, hai⟩ := List.getElem?_zip_eq_some.mp hi
  cases i with
  | zero =>
    -- the scheduler is taken by value
    rw [(types_eq o ho).1] at hti
    obtain rfl := Option.some.inj hti
    cases href
  | succ i =>
    rw [TagInvoke.types, List.getElem?_map] at hti
    obtain ⟨p, hp, rfl⟩ := Option.map_eq_some_iff.mp hti
    rw [← List.getElem?_tail] at hp
    rw [List.getElem?_cons_succ] at hai
    obtain ⟨huse, hcp⟩ := (keepers_eq o ho hkeeper).2 p (List.mem_of_getElem? hp)
    have hcp' : decide (p.1 ∈ o.copied) = false := by
      rw [href] at hcp
      simpa using hcp.symm
    obtain ⟨x, hx, has⟩ := captured_spec hcall hf hp (sources_getElem? hp hai)
    obtain ⟨l, rfl, hpass⟩ := has.ref hcp' href
    by_contra hnot
    -- start it when the object at `l` has died, and nothing else has
    obtain ⟨call, -, hstart⟩ := hlater (σ'.endAt l) (σ'.later_endAt l) (by
      intro k hk
      obtain ⟨hlt, hsame⟩ := kept_of_factory hcall hf hk
      have hne : k ≠ l := by
        rintro rfl
        cases hs : a.source C p.2 with
        | object m =>
          rw [hs] at hpass
          obtain rfl : k = m := hpass.object m rfl
          exact hnot ⟨k, hs, hk⟩
        | new y =>
          rw [hs] at hpass
          exact absurd hlt (Nat.not_lt.mpr (hpass.temporary rfl))
      rw [σ'.endAt_object_of_ne hne, hsame]) 0
    have hsome := captured_value_isSome hf hstart hx huse
    have hdead : (Captured.ref l : Captured ℕ).value (σ'.endAt l) = none :=
      σ'.endAt_object_self l
    rw [hdead] at hsome
    cases hsome

/-- An argument a parameter type is deduced from is passed as it is. -/
theorem source_of_open {θ : TemplateParam → RpcTy} {p : RpcParam} {a : Argument}
    (h : Accepts C θ p a.expr) (ho : p.pat.closed = false) : a.source C p = .object a.loc := by
  rw [Argument.source, h.conversion_of_open ho]

/-- What is passed to `AsyncRead`, `AsyncWrite` and `AsyncFinish`: the responder
itself, which is of the parameter's class template, and the rest. -/
theorem sources_member (ho : o ∈ tagInvokes) (htag : o.tag ∈ keepers)
    (hne : o.tag ≠ .asyncRequest) (hv : viable C o.types (exprs (executor :: args)) = true) :
    ∃ responder as, args = responder :: as ∧ responder.expr.ty.head = o.responder ∧
      sources C o.types.tail args = .object responder.loc :: sources C (o.types.drop 2) as := by
  obtain ⟨hopen, -⟩ := member_types o ho htag hne
  obtain ⟨θ, hθ⟩ := Option.isSome_iff_exists.mp hv
  have hall := accepts_of_deduced hθ
  rcases hT : o.types with - | ⟨t₀, - | ⟨t, ts⟩⟩
  · simp [hT] at hopen
  · simp [hT] at hopen
  rw [hT] at hall
  cases args with
  | nil => obtain - | ⟨-, ⟨⟩⟩ := hall
  | cons responder as =>
    obtain - | ⟨-, hall⟩ := hall
    obtain - | ⟨hresponder, -⟩ := hall
    have ht : o.types[1]? = some t := by rw [hT]; rfl
    rw [ht, Option.any_some, Bool.and_eq_true, Bool.not_eq_true'] at hopen
    obtain ⟨c, hc⟩ := Option.isSome_iff_exists.mp hopen.2
    have hr : o.responder = c := by
      rw [TagInvoke.responder, ht, Option.bind_some, hc, Option.getD_some]
    refine ⟨responder, as, rfl, ?_, ?_⟩
    · rw [hr]
      exact head_of_viable hv ht rfl hopen.1 hc
    · show responder.source C t :: sources C ts as = _
      rw [source_of_open hresponder hopen.1]
      rfl

/-- What is passed to `AsyncRequest`: method and service themselves, and the
rest. -/
theorem sources_request (ho : o ∈ tagInvokes) (htag : o.tag = .asyncRequest)
    (hv : viable C o.types (exprs (executor :: args)) = true) :
    ∃ rpc service as, args = rpc :: service :: as ∧
      sources C o.types.tail args
        = .object rpc.loc :: .object service.loc :: sources C (o.types.drop 3) as := by
  obtain ⟨hrpc, hservice, -⟩ := request_types o ho htag
  obtain ⟨θ, hθ⟩ := Option.isSome_iff_exists.mp hv
  have hall := accepts_of_deduced hθ
  rcases hT : o.types with - | ⟨t₀, - | ⟨t₁, - | ⟨t₂, ts⟩⟩⟩
  · simp [hT] at hrpc
  · simp [hT] at hrpc
  · simp [hT] at hservice
  rw [hT] at hall
  rcases args with - | ⟨rpc, - | ⟨service, as⟩⟩
  · obtain - | ⟨-, ⟨⟩⟩ := hall
  · obtain - | ⟨-, - | ⟨-, ⟨⟩⟩⟩ := hall
  · obtain - | ⟨-, hall⟩ := hall
    obtain - | ⟨haccrpc, hall⟩ := hall
    obtain - | ⟨haccservice, -⟩ := hall
    have hopen₁ : t₁.pat.closed = false := by simpa [hT] using hrpc
    have hopen₂ : t₂.pat.closed = false := by simpa [hT] using hservice
    refine ⟨rpc, service, as, rfl, ?_⟩
    show rpc.source C t₁ :: service.source C t₂ :: sources C ts as = _
    rw [source_of_open haccrpc hopen₁, source_of_open haccservice hopen₂]
    rfl

/-- What is passed by reference and kept is an object. -/
theorem location_isSome {as : List Argument} {n : ℕ}
    (href : ∀ p ∈ o.types.drop n, p.passing.isReference = true)
    (hkept : ∀ x ∈ o.types.zip as, x.1.passing.isReference = true →
      ∃ l, x.2.source C x.1 = .object l ∧ Kept as l) :
    ∀ s ∈ sources C (o.types.drop n) (as.drop n), s.location.isSome := by
  intro s hs
  rw [sources, ← List.map_uncurry_zip_eq_zipWith, List.mem_map] at hs
  obtain ⟨⟨p, a⟩, hx, rfl⟩ := hs
  have hx' : (p, a) ∈ o.types.zip as := by
    rw [List.zip, ← List.drop_zipWith] at hx
    exact List.mem_of_mem_drop hx
  obtain ⟨l, hl, -⟩ := hkept (p, a) hx' (href p (List.of_mem_zip hx).1)
  show (a.source C p).location.isSome = true
  rw [hl]
  rfl

/-- A call of one of the first four that compiles and keeps everything that is
passed by reference is performed. -/
theorem performs_of_kept {as : List Argument}
    (hdecl : tagInvokeFor C cpo (exprs as) = some o) (hlive : Live C o.types as σ)
    (hkeeper : cpo ∈ keepers) (hcompiles : o.compiles C (exprs as) = true)
    (hkept : ∀ x ∈ o.types.zip as, x.1.passing.isReference = true →
      ∃ l, x.2.source C x.1 = .object l ∧ Kept as l) :
    PerformsItsCall C cpo as σ := by
  obtain ⟨ho, rfl, hv, hlen, executor, args, rfl⟩ := declared_cases hdecl
  obtain ⟨⟨c, hc, hag⟩, -⟩ := keepers_eq o ho hkeeper
  have hcall : FactoryCall C c o (executor :: args) σ := ⟨ho, hag, hlen, hlive⟩
  obtain ⟨sender, σ', hf⟩ := factory_isSome hcall
  refine ⟨o, c, hdecl, dispatch_of_agrees hc ho hag hv hcompiles, sender, σ', hf, ?_⟩
  intro τ _ hτ tag
  have hreads := reads_of_unchanged hcall hkeeper hf (τ := τ) (by
    intro x hx href
    obtain ⟨l, hl, hk⟩ := hkept x (by
      rw [(types_eq o ho).1]
      exact List.mem_cons_of_mem _ hx) href
    exact ⟨l, hl, hτ l hk⟩)
  have hs : (executor.source C schedulerParam.2).value σ = some sender.context :=
    (factory_spec hcall hf).2.1
  have hsources := hlive.sources
  obtain ⟨call, hreq, hinvoke⟩ : ∃ call,
      requested o.tag (executor :: args) (sources C o.types (executor :: args)) σ tag
          = some call ∧
        sender.rpc.invoke τ sender.context tag = some call := by
    rw [(sources_eq hcall).2] at hsources ⊢
    obtain rfl := factory_overload hf
    by_cases htag : sender.rpc.overload.tag = .asyncRequest
    · obtain ⟨rpc, service, as, rfl, heq⟩ := sources_request ho htag hv
      obtain ⟨-, -, href⟩ := request_types _ ho htag
      rw [heq] at hreads hsources ⊢
      apply invoke_request ho htag hreads _ _ (location_isSome href hkept) hs
      · exact hsources (.object rpc.loc) (by simp)
      · intro r hr
        exact hsources r (by simp [hr])
    · obtain ⟨responder, as, rfl, hresponder, heq⟩ := sources_member ho hkeeper htag hv
      obtain ⟨-, href⟩ := member_types _ ho hkeeper htag
      rw [heq] at hreads hsources ⊢
      apply invoke_member ho hkeeper htag hreads _ (location_isSome href hkept) hresponder
      intro r hr
      exact hsources r (by simp [hr])
  exact ⟨call, hreq, startAsyncRpc_iff.mpr hinvoke⟩

/-- **Which factory calls keep their contract.**  A call a `tag_invoke`
overload is declared for, on live objects, performs the RPC it was made for,
however late its sender starts, if and only if its customization point is
`AsyncRequest`, `AsyncRead`, `AsyncWrite` or `AsyncFinish`, the body of the
overload compiles, that is if the service has the method, and the caller keeps
every object that the overload takes by reference: it is one that was passed as
an lvalue, no temporary, whether passed or made by a conversion, and no other
object that a conversion names. -/
theorem performsItsCall_iff (C : Classes TypeName) {cpo : Cpo} {args : List Argument}
    {σ : Store ℕ} {o : TagInvoke} (hdecl : tagInvokeFor C cpo (exprs args) = some o)
    (hlive : Live C o.types args σ) :
    PerformsItsCall C cpo args σ ↔
      cpo ∈ [.asyncRequest, .asyncRead, .asyncWrite, .asyncFinish] ∧
        o.compiles C (exprs args) = true ∧
        ∀ x ∈ o.types.zip args, x.1.passing.isReference = true →
          ∃ l, x.2.source C x.1 = .object l ∧ Kept args l := by
  constructor
  · intro h
    obtain ⟨o', c, hdecl', hdisp, -⟩ := id h
    obtain rfl : o = o' := Option.some.inj (hdecl.symm.trans hdecl')
    obtain ⟨-, -, -, hcompiles⟩ := viable_of_dispatch hdisp
    exact ⟨keepers_of_performs hdecl hlive h, hcompiles, kept_of_performs hdecl hlive h⟩
  · rintro ⟨hkeeper, hcompiles, hkept⟩
    exact performs_of_kept hdecl hlive hkeeper hcompiles hkept

end Contract

/-! ### Three calls -/

/-- A store with the objects `0`, ..., `n - 1`. -/
def liveStore (n : ℕ) : Store ℕ where
  size := n
  object l := if l < n then some l else none
  unused _ hl := if_neg (Nat.not_lt.mpr hl)

/-- Lvalues of the given types, at the locations from `l` on. -/
def lvalues : ℕ → List RpcTy → List Argument
  | _, [] => []
  | l, t :: ts => { expr := ⟨t, true⟩, loc := l, converted := l } :: lvalues (l + 1) ts

/-- `(scheduler, reader, response, status)`, for `AsyncFinish`. -/
def finishArgs : List Argument :=
  lvalues 0 [.con .scheduler, .app (.app (.con .serverAsyncReader) (.con (.user 0)))
    (.con (.user 1)), .con (.user 0), .con .status]

/-- `(scheduler, writer, response, options, status)`, for
`AsyncWriteAndFinish`. -/
def writeAndFinishArgs : List Argument :=
  lvalues 0 [.con .scheduler, .app (.con .serverAsyncWriter) (.con (.user 0)),
    .con (.user 0), .con .writeOptions, .con .status]

theorem performsItsCall_finish :
    PerformsItsCall Classes.unrelated .asyncFinish finishArgs (liveStore 4) := by
  have hdecl : tagInvokeFor Classes.unrelated .asyncFinish (exprs finishArgs)
      = some finishReader := by decide +kernel
  have hlive : Live Classes.unrelated finishReader.types finishArgs (liveStore 4) :=
    ⟨by decide, by decide⟩
  refine (performsItsCall_iff Classes.unrelated hdecl hlive).mpr
    ⟨by decide, by decide +kernel, ?_⟩
  rintro ⟨t, a⟩ hx -
  have ha := (List.of_mem_zip hx).2
  have hlvalue : ∀ a ∈ finishArgs, a.expr.isLvalue = true := by decide
  have hsource : ∀ x ∈ finishReader.types.zip finishArgs,
      x.2.source Classes.unrelated x.1 = .object x.2.loc := by decide
  exact ⟨a.loc, hsource (t, a) hx, a, ha, hlvalue a ha, rfl⟩

/-- A class whose objects convert to a new status. -/
def convertsToStatus : Classes TypeName where
  derives _ _ := false
  converts e p t :=
    if e.ty.bare = .con (.user 2) ∧ p = .byConstRef ∧ t = .con .status then some .temporary
    else none
  converts_byRef e t h := by simp at h

/-- The same call with an lvalue of that class compiles, and its sender refers to
a status that is gone. -/
example :
    let args : List Argument :=
      lvalues 0 [.con .scheduler, .app (.app (.con .serverAsyncReader) (.con (.user 0)))
        (.con (.user 1)), .con (.user 0), .con (.user 2)]
    dispatch convertsToStatus .asyncFinish (exprs args) = some (asyncFinishReader, finishReader) ∧
      ¬ PerformsItsCall convertsToStatus .asyncFinish args (liveStore 4) := by
  intro args
  have hdecl : tagInvokeFor convertsToStatus .asyncFinish (exprs args) = some finishReader := by
    decide +kernel
  have hlive : Live convertsToStatus finishReader.types args (liveStore 4) :=
    ⟨by decide, by decide⟩
  refine ⟨by decide +kernel, fun h => ?_⟩
  obtain ⟨l, hl, -⟩ := kept_of_performs hdecl hlive h
    (cref (cls .status), { expr := ⟨.con (.user 2), true⟩, loc := 3, converted := 3 }) (by decide)
    rfl
  cases hl

/-- **The contract does not hold** for `AsyncWriteAndFinish`: the call compiles
and all its arguments are lvalues, but the sender refers to the `options` of
the `tag_invoke` call that made it. -/
theorem not_performsItsCall :
    tagInvokeFor Classes.unrelated .asyncWriteAndFinish (exprs writeAndFinishArgs)
        = some writeAndFinishWriter ∧
      dispatch Classes.unrelated .asyncWriteAndFinish (exprs writeAndFinishArgs)
        = some (asyncWriteAndFinishWriter, writeAndFinishWriter) ∧
      (∀ a ∈ writeAndFinishArgs,
        ((liveStore 5).object a.loc).isSome = true ∧ a.expr.isLvalue = true) ∧
      ¬ PerformsItsCall Classes.unrelated .asyncWriteAndFinish writeAndFinishArgs
        (liveStore 5) := by
  have hdecl : tagInvokeFor Classes.unrelated .asyncWriteAndFinish (exprs writeAndFinishArgs)
      = some writeAndFinishWriter := by decide +kernel
  have hlive : Live Classes.unrelated writeAndFinishWriter.types writeAndFinishArgs
      (liveStore 5) := ⟨by decide, by decide⟩
  refine ⟨hdecl, by decide +kernel, by decide, ?_⟩
  intro h
  exact absurd (keepers_of_performs hdecl hlive h) (by decide)

end Agrpc
