/-
Agrpc/Rpcs/Compiles.lean

Which calls of a customization point compile, and where they go.

A call goes to the `tag_invoke` overload it would go to without the
customization point in between, but for the two overloads whose guard in
`rpcs.h` asks for another tag: these are never reached (`dispatch_eq`).  In
particular no call compiles that no overload is declared for, or whose overload
has a body that does not compile.
-/
import Agrpc.Rpcs.Dispatch

namespace Agrpc

open Lifetimes Overloading

variable {C : Classes TypeName}

/-! ### The two tables -/

/-- The overloads no customization point reaches. -/
def unreached : List TagInvoke := [finishWithErrorReader, sendInitialMetadata]

/-- Which overloads are reached is decided by the tables alone. -/
theorem reached_iff : ∀ o ∈ tagInvokes, o ∉ unreached ↔ ∃ c ∈ operators, Agrees c o = true := by
  decide +kernel

/-- An overload of a customization point has the parameters of a `tag_invoke`
overload with its tag, or is apart from it. -/
theorem params_eq_or_apart : ∀ c ∈ operators, ∀ o ∈ tagInvokes, o.tag = c.cpo →
    c.params = executorParam :: o.types.tail ∨ apart o.types c.params = true := by
  decide +kernel

/-- The responder is not forwarded. -/
theorem second_passing : ∀ c ∈ operators, ∀ p, c.params[1]? = some p → p.passing ≠ .forward := by
  decide +kernel

/-! ### What is called -/

/-- The body passes its parameters on under their own types. -/
theorem not_viable_named {c : Operator} (hc : c ∈ operators) {ps : List RpcParam}
    {es : List (Expr TypeName)} (h : apart ps c.params = true)
    (hes : c.params.length = es.length) (θ : TemplateParam → RpcTy) :
    viable C ps (List.zipWith (named θ) es c.params) = false := by
  rw [Bool.eq_false_iff]
  intro hv
  have hlen := length_of_viable hv
  rw [List.length_zipWith] at hlen
  rcases apart_cases h with hne | ⟨p, q, a, b, hp, hq, hpo, -, ha, hb, hne⟩
  · omega
  · have hlt : 1 < es.length := by
      rw [← hes]
      exact (List.getElem?_eq_some_iff.mp hq).1
    have he : (List.zipWith (named θ) es c.params)[1]? = some (named θ es[1] q) := by
      rw [List.getElem?_zipWith, List.getElem?_eq_getElem hlt, hq]
    have hty : (named θ es[1] q).ty.head = (q.pat.inst θ).head := by
      unfold named
      cases hpass : q.passing with
      | forward => exact absurd hpass (second_passing c hc q hq)
      | _ => rfl
    apply hne
    rw [← head_of_viable hv hp he hpo ha, hty, Pat.head_inst hb θ]

/-- **What compiles was declared**: the overload a call goes to takes the
arguments of the call themselves, and its body compiles with them. -/
theorem viable_of_dispatch {cpo : Cpo} {es : List (Expr TypeName)} {c : Operator}
    {o : TagInvoke} (h : dispatch C cpo es = some (c, o)) :
    o ∈ tagInvokes ∧ o.tag = cpo ∧ viable C o.types es = true ∧ o.compiles C es = true := by
  obtain ⟨c', hop, hmap⟩ := Option.bind_eq_some_iff.mp h
  obtain ⟨o', hcallee, heq⟩ := Option.map_eq_some_iff.mp hmap
  obtain ⟨rfl, rfl⟩ := Prod.mk.inj heq
  obtain ⟨hc, hok⟩ := mem_of_resolve hop
  rw [Bool.and_eq_true, decide_eq_true_eq] at hok
  obtain ⟨rfl, hacc⟩ := hok
  obtain ⟨θ, hθ, hresult⟩ := Option.bind_eq_some_iff.mp hcallee
  obtain ⟨hfor, hbody⟩ := Option.filter_eq_some_iff.mp hresult
  obtain ⟨ho, htag, hnamed⟩ := viable_of_tagInvokeFor hfor
  rcases params_eq_or_apart c' hc o' ho htag with hparams | hapart
  · -- the executor is passed on as it came, and the others fit already
    have hall := accepts_of_deduced hθ
    rw [hparams] at hall hnamed hbody
    cases hall with
    | @cons _ e _ rest _ hrest =>
      obtain ⟨e', rest', θ', heq, he, -⟩ := viable_cases ho hnamed
      obtain rfl : e = e' := (List.cons.inj heq).1
      have hes : List.Forall₂ (Accepts C θ) o'.types (e :: rest) :=
        accepts_cons ho (accepts_scheduler he) hrest
      have hnames := accepts_cons ho (accepts_scheduler he)
        (accepts_named_all hrest fun p hp => ((types_eq o' ho).2 p hp).1)
      refine ⟨ho, htag, viable_iff.mpr ⟨θ, hes⟩, ?_⟩
      rw [compiles_eq ho hes, ← compiles_eq ho hnames]
      exact hbody
  · rw [not_viable_named hc hapart (accepts_of_deduced hθ).length_eq θ] at hnamed
    cases hnamed

/-- **The customization points are transparent**, but for two overloads: for
all types, value categories and numbers of arguments, and whatever the classes
of the program derive from and convert to, a call compiles if and only if a
`tag_invoke` overload with its tag takes the arguments and compiles with them
that is not one of the two, and then it goes there. -/
theorem dispatch_eq (C : Classes TypeName) (cpo : Cpo) (es : List (Expr TypeName)) :
    (dispatch C cpo es).map Prod.snd
      = (tagInvokeFor C cpo es).filter fun o => o ∉ unreached ∧ o.compiles C es = true := by
  cases hfor : tagInvokeFor C cpo es with
  | none =>
    rw [Option.filter_none, Option.map_eq_none_iff, Option.eq_none_iff_forall_not_mem]
    rintro ⟨c, o⟩ hd
    obtain ⟨ho, rfl, hv, -⟩ := viable_of_dispatch hd
    rw [tagInvokeFor_eq_some ho hv] at hfor
    cases hfor
  | some o =>
    obtain ⟨ho, rfl, hv⟩ := viable_of_tagInvokeFor hfor
    rw [Option.filter_some]
    by_cases hreach : o ∉ unreached
    · cases hcompiles : o.compiles C es with
      | true =>
        obtain ⟨c, hc, hag⟩ := (reached_iff o ho).mp hreach
        rw [dispatch_of_agrees hc ho hag hv hcompiles, if_pos (by simpa using hreach)]
        rfl
      | false =>
        rw [if_neg (by simp), Option.map_eq_none_iff, Option.eq_none_iff_forall_not_mem]
        rintro ⟨c, o'⟩ hd
        obtain ⟨ho', htag, hv', hcompiles'⟩ := viable_of_dispatch hd
        have hfor' := tagInvokeFor_eq_some ho' hv'
        rw [htag, hfor] at hfor'
        obtain rfl := Option.some.inj hfor'
        rw [hcompiles] at hcompiles'
        cases hcompiles'
    · have hno : ∀ c ∈ operators, Agrees c o = false := by
        intro c hc
        rw [Bool.eq_false_iff]
        intro hag
        exact hreach ((reached_iff o ho).mpr ⟨c, hc, hag⟩)
      rw [dispatch_of_not_agrees ho hno hv, if_neg (by simp [hreach])]
      rfl

/-- `AsyncRequest` with a service of a class that has nothing to do with the
method: an overload takes it, and does not compile. -/
example :
    let es : List (Expr TypeName) :=
      [⟨.con .scheduler, true⟩,
        ⟨.app (.app (.con .serverSingleArgRequest) (.con (.user 0))) (.con (.user 1)), false⟩,
        ⟨.con (.user 2), true⟩, ⟨.con .serverContext, true⟩, ⟨.con (.user 1), true⟩]
    tagInvokeFor Classes.unrelated .asyncRequest es = some requestSingleArg ∧
      dispatch Classes.unrelated .asyncRequest es = none := by
  decide +kernel

end Agrpc
