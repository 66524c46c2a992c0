/-
Agrpc/Rpcs/Dispatch.lean

The two overload tables against each other.  `Agrees c o` compares an overload
of a customization point with a `tag_invoke` overload, parameter by parameter
and guard entry by parameter; it does not look at a call.  It decides what every
call does: where an overload of the customization point agrees with `o`, every
call `o` is viable for and compiles goes through it to `o`
(`dispatch_of_agrees`), for all types, all value categories and whatever the
classes of the program, and where none does, no such call compiles
(`dispatch_of_not_agrees`).
-/
import Agrpc.Rpcs.CustomizationPoints

namespace Agrpc

open Lifetimes Overloading

variable {C : Classes TypeName}

/-! ### Overloads that cannot both be viable -/

/-- The parameter lists differ in length, or in the class template of their
second parameter. -/
def apart (ps qs : List RpcParam) : Bool :=
  ps.length != qs.length ||
    match ps[1]?, qs[1]? with
    | some p, some q =>
        !p.pat.closed && !q.pat.closed && p.pat.head?.isSome && q.pat.head?.isSome &&
          p.pat.head? != q.pat.head?
    | _, _ => false

/-- How `apart` tells two lists from each other. -/
theorem apart_cases {ps qs : List RpcParam} (h : apart ps qs = true) :
    ps.length ≠ qs.length ∨
      ∃ p q c d, ps[1]? = some p ∧ qs[1]? = some q ∧ p.pat.closed = false ∧
        q.pat.closed = false ∧ p.pat.head? = some c ∧ q.pat.head? = some d ∧ c ≠ d := by
  unfold apart at h
  rw [Bool.or_eq_true] at h
  rcases h with hlen | hhead
  · exact .inl (bne_iff_ne.mp hlen)
  · right
    rcases hp : ps[1]? with - | p
    · simp [hp] at hhead
    rcases hq : qs[1]? with - | q
    · simp [hp, hq] at hhead
    simp only [hp, hq, Bool.and_eq_true, Bool.not_eq_true', bne_iff_ne, ne_eq] at hhead
    obtain ⟨⟨⟨⟨hpc, hqc⟩, hps⟩, hqs⟩, hne⟩ := hhead
    obtain ⟨c, hc⟩ := Option.isSome_iff_exists.mp hps
    obtain ⟨d, hd⟩ := Option.isSome_iff_exists.mp hqs
    refine ⟨p, q, c, d, rfl, rfl, hpc, hqc, hc, hd, ?_⟩
    rintro rfl
    exact hne (hc.trans hd.symm)

theorem not_viable_of_apart {ps qs : List RpcParam} {es : List (Expr TypeName)}
    (h : apart ps qs = true) (hp : viable C ps es = true) :
    viable C qs es = false := by
  rw [Bool.eq_false_iff]
  intro hq
  rcases apart_cases h with hlen | ⟨p, q, c, d, hp₁, hq₁, hpo, hqo, hc, hd, hne⟩
  · exact hlen ((length_of_viable hp).trans (length_of_viable hq).symm)
  · have hlt : 1 < es.length := by
      rw [← length_of_viable hp]
      exact (List.getElem?_eq_some_iff.mp hp₁).1
    have he : es[1]? = some es[1] := List.getElem?_eq_getElem hlt
    apply hne
    rw [← head_of_viable hp hp₁ he hpo hc, head_of_viable hq hq₁ he hqo hd]

/-- Types written in a guard that are apart from an overload's parameters are
no arguments for it. -/
theorem not_viable_declval {ps gs : List RpcParam} (h : apart ps gs = true)
    (hfw : ∀ g, gs[1]? = some g → g.passing ≠ .forward) (θ : TemplateParam → RpcTy)
    (e : Expr TypeName) : viable C ps (gs.map (declval θ e)) = false := by
  rw [Bool.eq_false_iff]
  intro hp
  have hlen := length_of_viable hp
  rw [List.length_map] at hlen
  rcases apart_cases h with hne | ⟨p, g, c, d, hp₁, hg₁, hpo, -, hc, hd, hne⟩
  · exact hne hlen
  · have he : (gs.map (declval θ e))[1]? = some (declval θ e g) := by
      rw [List.getElem?_map, hg₁, Option.map_some]
    have hty : (declval θ e g).ty.head = (g.pat.inst θ).head := by
      unfold declval
      cases hpass : g.passing with
      | forward => exact absurd hpass (hfw g hg₁)
      | _ => rfl
    apply hne
    rw [← head_of_viable hp hp₁ he hpo hc, hty, Pat.head_inst hd θ]

/-- Two overloads with one tag are apart. -/
theorem tagInvokes_apart : ∀ o ∈ tagInvokes, ∀ o' ∈ tagInvokes, o.tag = o'.tag →
    o = o' ∨ apart o.types o'.types = true := by
  decide +kernel

/-- Two overloads of one customization point are apart. -/
theorem operators_apart : ∀ c ∈ operators, ∀ c' ∈ operators, c.cpo = c'.cpo →
    c = c' ∨ apart c.params c'.params = true := by
  decide +kernel

/-- A viable overload is the one a call resolves to. -/
theorem tagInvokeFor_eq_some {o : TagInvoke} {es : List (Expr TypeName)} (ho : o ∈ tagInvokes)
    (hv : viable C o.types es = true) : tagInvokeFor C o.tag es = some o := by
  apply resolve_eq_some
  · decide +kernel
  · exact ho
  · simp [hv]
  · intro o' ho' hok
    rw [Bool.and_eq_true, decide_eq_true_eq] at hok
    rcases tagInvokes_apart o ho o' ho' hok.1.symm with heq | hapart
    · exact heq.symm
    · have hv' := not_viable_of_apart hapart hv
      rw [hok.2] at hv'
      cases hv'

theorem viable_of_tagInvokeFor {tag : Cpo} {o : TagInvoke} {es : List (Expr TypeName)}
    (h : tagInvokeFor C tag es = some o) :
    o ∈ tagInvokes ∧ o.tag = tag ∧ viable C o.types es = true := by
  obtain ⟨ho, hok⟩ := mem_of_resolve h
  rw [Bool.and_eq_true, decide_eq_true_eq] at hok
  exact ⟨ho, hok.1, hok.2⟩

/-! ### Agreement -/

/-- The guard entry `g` stands for the parameter `p`. -/
def guardEntryAgrees (g p : RpcParam) : Bool :=
  g.pat = p.pat && (p.passing != .byRef || g.passing = .byRef) && g.passing != .forward

/-- The overload `c` of a customization point and the `tag_invoke` overload `o`
have the same parameters, up to executor and scheduler, and the guard of `c`
asks for `o`. -/
def Agrees (c : Operator) (o : TagInvoke) : Bool :=
  c.cpo = o.tag && c.params = executorParam :: o.types.tail && c.guardTag = o.tag &&
    c.guard.head? = some executorParam && c.guard.tail.length = o.types.tail.length &&
    (c.guard.tail.zip o.types.tail).all fun x => guardEntryAgrees x.1 x.2

/-- No `tag_invoke` overload takes the tag and the types in the guard of `c`,
whatever the template arguments. -/
def guardFails (c : Operator) : Bool :=
  (tagInvokes.all fun o => o.tag != c.guardTag || apart o.types c.guard) &&
    c.guard[1]?.all fun g => g.passing != .forward

/-- What every overload's parameter list looks like. -/
theorem types_eq : ∀ o ∈ tagInvokes, o.types = byValue (cls .scheduler) :: o.types.tail ∧
    (∀ p ∈ o.types.tail, p.passing ≠ .forward ∧ p.pat.mentions .executor = false) := by
  decide +kernel

/-- Where no overload of the customization point agrees with `o`, those that
could take a call `o` is viable for have a guard that fails. -/
theorem apart_or_guardFails : ∀ o ∈ tagInvokes, (∀ c ∈ operators, Agrees c o = false) →
    ∀ c ∈ operators, c.cpo = o.tag → apart o.types c.params = true ∨ guardFails c = true := by
  decide +kernel

/-- What `Agrees` says. -/
theorem agrees_cases {c : Operator} {o : TagInvoke} (h : Agrees c o = true) :
    c.cpo = o.tag ∧ c.params = executorParam :: o.types.tail ∧ c.guardTag = o.tag ∧
      ∃ gs, c.guard = executorParam :: gs ∧
        List.Forall₂ (fun g p => guardEntryAgrees g p = true) gs o.types.tail := by
  simp only [Agrees, Bool.and_eq_true, decide_eq_true_eq] at h
  obtain ⟨⟨⟨⟨⟨hcpo, hparams⟩, htag⟩, hhead⟩, hlen⟩, hall⟩ := h
  refine ⟨hcpo, hparams, htag, c.guard.tail, ?_, ?_⟩
  · exact (List.cons_head?_tail hhead).symm
  · rw [List.forall₂_iff_zip]
    refine ⟨hlen, ?_⟩
    intro g p hgp
    exact List.all_eq_true.mp hall (g, p) hgp

/-! ### What the parameters accept along a call -/

/-- The scheduler parameter is no template, so what it accepts does not depend
on template arguments. -/
theorem accepts_scheduler {θ θ' : TemplateParam → RpcTy} {e : Expr TypeName}
    (h : Accepts C θ (byValue (cls .scheduler)) e) :
    Accepts C θ' (byValue (cls .scheduler)) e :=
  ⟨h.conversion, fun ho => by cases ho⟩

/-- The executor parameter accepts everything. -/
theorem accepts_executor (θ : TemplateParam → RpcTy) (e : Expr TypeName) :
    Accepts C (Function.update θ .executor e.ty) executorParam e := by
  refine ⟨rfl, fun _ => ?_⟩
  show e.ty = Function.update θ .executor e.ty .executor
  rw [Function.update_self]

/-- A parameter accepts the type its guard entry writes for it. -/
theorem accepts_declval {g p : RpcParam} (hg : guardEntryAgrees g p = true)
    {θ : TemplateParam → RpcTy} {x : Expr TypeName} (hx : Accepts C θ p x)
    (hfw : p.passing ≠ .forward) (e : Expr TypeName) : Accepts C θ p (declval θ e g) := by
  obtain ⟨gp, gw⟩ := g
  simp only [guardEntryAgrees, Bool.and_eq_true, decide_eq_true_eq] at hg
  obtain ⟨⟨rfl, hw⟩, hgfw⟩ := hg
  cases gw with
  | forward => cases hgfw
  | byRef => exact hx.of_type hfw (.inl rfl) fun _ => rfl
  | byValue =>
    have href : p.passing ≠ .byRef := fun hp => by
      rw [hp] at hw
      cases hw
    exact hx.of_type hfw (.inl rfl) fun hp => absurd hp href
  | byConstRef =>
    have href : p.passing ≠ .byRef := fun hp => by
      rw [hp] at hw
      cases hw
    exact hx.of_type hfw (.inr ⟨rfl, href⟩) fun hp => absurd hp href

/-- A parameter accepts the name of one of its own type. -/
theorem accepts_named {p : RpcParam} {θ : TemplateParam → RpcTy} {x : Expr TypeName}
    (hx : Accepts C θ p x) (hfw : p.passing ≠ .forward) : Accepts C θ p (named θ x p) := by
  unfold named
  cases hpass : p.passing with
  | forward => exact absurd hpass hfw
  | byConstRef => exact hx.of_type hfw (.inr ⟨rfl, by rw [hpass]; decide⟩) fun _ => rfl
  | _ => exact hx.of_type hfw (.inl rfl) fun _ => rfl

theorem accepts_declval_all {gs ps : List RpcParam} {es : List (Expr TypeName)}
    {θ : TemplateParam → RpcTy} (hgs : List.Forall₂ (fun g p => guardEntryAgrees g p = true) gs ps)
    (hes : List.Forall₂ (Accepts C θ) ps es) (hfw : ∀ p ∈ ps, p.passing ≠ .forward)
    (e : Expr TypeName) : List.Forall₂ (Accepts C θ) ps (gs.map (declval θ e)) := by
  induction hgs generalizing es with
  | nil => exact .nil
  | @cons g p gs ps hg _ ih =>
    obtain - | ⟨hx, hes⟩ := hes
    refine .cons (accepts_declval hg hx (hfw p List.mem_cons_self) e) ?_
    exact ih hes fun q hq => hfw q (List.mem_cons_of_mem p hq)

theorem accepts_named_all {ps : List RpcParam} {es : List (Expr TypeName)}
    {θ : TemplateParam → RpcTy} (hes : List.Forall₂ (Accepts C θ) ps es)
    (hfw : ∀ p ∈ ps, p.passing ≠ .forward) :
    List.Forall₂ (Accepts C θ) ps (List.zipWith (named θ) es ps) := by
  induction hes with
  | nil => exact .nil
  | @cons p e ps es hx _ ih =>
    refine .cons (accepts_named hx (hfw p List.mem_cons_self)) ?_
    exact ih fun q hq => hfw q (List.mem_cons_of_mem p hq)

/-- A call an overload is viable for has a scheduler first, and arguments its
other parameters accept. -/
theorem viable_cases {o : TagInvoke} (ho : o ∈ tagInvokes) {es : List (Expr TypeName)}
    (h : viable C o.types es = true) :
    ∃ e rest θ, es = e :: rest ∧ Accepts C θ (byValue (cls .scheduler)) e ∧
      List.Forall₂ (Accepts C θ) o.types.tail rest := by
  obtain ⟨θ, hθ⟩ := Option.isSome_iff_exists.mp h
  have hall := accepts_of_deduced hθ
  rw [(types_eq o ho).1] at hall
  cases hall with
  | @cons _ e _ rest he hrest => exact ⟨e, rest, θ, rfl, he, hrest⟩

/-- An overload accepts a scheduler and arguments its other parameters accept. -/
theorem accepts_cons {o : TagInvoke} (ho : o ∈ tagInvokes) {θ : TemplateParam → RpcTy}
    {e : Expr TypeName} {rest : List (Expr TypeName)}
    (he : Accepts C θ (byValue (cls .scheduler)) e)
    (hrest : List.Forall₂ (Accepts C θ) o.types.tail rest) :
    List.Forall₂ (Accepts C θ) o.types (e :: rest) := by
  rw [(types_eq o ho).1]
  exact .cons he hrest

/-- Where the parameters after the executor are those of `o`, a call `o` is
viable for deduces template arguments, and they make these parameters accept
its arguments. -/
theorem deduced_of_viable {c : Operator} {o : TagInvoke} (ho : o ∈ tagInvokes)
    (hparams : c.params = executorParam :: o.types.tail) {es : List (Expr TypeName)}
    (h : viable C o.types es = true) :
    ∃ e rest θ, es = e :: rest ∧ deduced C c.params es = some θ ∧
      Accepts C θ (byValue (cls .scheduler)) e ∧
      List.Forall₂ (Accepts C θ) o.types.tail rest := by
  obtain ⟨e, rest, θ₀, rfl, he, hrest⟩ := viable_cases ho h
  -- with the executor's type for `Executor`, the template arguments of `o` do for `c`
  have hc : viable C c.params (e :: rest) = true := by
    rw [viable_iff]
    refine ⟨Function.update θ₀ .executor e.ty, ?_⟩
    rw [hparams]
    refine .cons (accepts_executor θ₀ e) ?_
    refine List.Forall₂.imp ?_ ((List.forall₂_and_left _ _).mpr ⟨(types_eq o ho).2, hrest⟩)
    rintro p x ⟨⟨-, hp⟩, hx⟩
    refine ⟨hx.conversion, ?_⟩
    rw [Pat.inst_update hp]
    exact hx.type
  obtain ⟨θ, hθ⟩ := Option.isSome_iff_exists.mp hc
  have hall := accepts_of_deduced hθ
  rw [hparams] at hall
  cases hall with
  | cons _ hrest' => exact ⟨e, rest, θ, rfl, hθ, accepts_scheduler he, hrest'⟩

/-! ### Bodies -/

/-- The template arguments `bodyCompiles` looks at occur in the parameter types. -/
theorem pointer_params : ∀ o ∈ tagInvokes, o.call.callee.isPointer = true →
    (∃ p ∈ o.types, p.pat.closed = false ∧ p.pat.mentions .service = true) ∧
      ∃ p ∈ o.types, p.pat.closed = false ∧ p.pat.mentions .rpc = true := by
  decide +kernel

/-- Whether a call compiles does not depend on how its arguments are passed on,
as long as the same template arguments make the parameters accept them. -/
theorem compiles_eq {o : TagInvoke} (ho : o ∈ tagInvokes) {es : List (Expr TypeName)}
    {θ : TemplateParam → RpcTy} (hes : List.Forall₂ (Accepts C θ) o.types es) :
    o.compiles C es = o.bodyCompiles C θ := by
  obtain ⟨e, rest, rfl⟩ : ∃ e rest, es = e :: rest := by
    rw [(types_eq o ho).1] at hes
    obtain - | @⟨_, e, _, rest, -, -⟩ := hes
    exact ⟨e, rest, rfl⟩
  obtain ⟨θ', hθ'⟩ := Option.isSome_iff_exists.mp (viable_iff.mpr ⟨θ, hes⟩)
  have hes' := accepts_of_deduced hθ'
  rw [TagInvoke.compiles, hθ', Option.any_some, TagInvoke.bodyCompiles, TagInvoke.bodyCompiles]
  split
  next hptr =>
    obtain ⟨⟨p, hp, hpo, hpv⟩, q, hq, hqo, hqv⟩ := pointer_params o ho hptr
    rw [Accepts.unique hes' hes hp hpo hpv, Accepts.unique hes' hes hq hqo hqv]
  · rfl

/-- A call whose arguments the overload accepts goes there if it compiles. -/
theorem tagInvokeResult_eq_some {o : TagInvoke} (ho : o ∈ tagInvokes)
    {es : List (Expr TypeName)} {θ : TemplateParam → RpcTy}
    (hes : List.Forall₂ (Accepts C θ) o.types es) (hbody : o.bodyCompiles C θ = true) :
    tagInvokeResult C o.tag es = some o := by
  have hv : viable C o.types es = true := by
    rw [(types_eq o ho).1] at hes ⊢
    obtain - | ⟨he, hrest⟩ := hes
    exact viable_iff.mpr ⟨θ, .cons he hrest⟩
  rw [tagInvokeResult, tagInvokeFor_eq_some ho hv, Option.filter_some, compiles_eq ho hes,
    if_pos hbody]

/-! ### Dispatch -/

/-- The guard of an overload that agrees with `o` finds `o`. -/
theorem accepts_of_agrees {c : Operator} {o : TagInvoke} (ho : o ∈ tagInvokes)
    (hag : Agrees c o = true) {es : List (Expr TypeName)}
    (hv : viable C o.types es = true) (hcompiles : o.compiles C es = true) :
    c.accepts C es = true := by
  obtain ⟨-, hparams, htag, gs, hguard, hgs⟩ := agrees_cases hag
  obtain ⟨e, rest, θ, rfl, hθ, he, hrest⟩ := deduced_of_viable ho hparams hv
  have hguard' : List.Forall₂ (Accepts C θ) o.types (c.guard.map (declval θ e)) := by
    rw [hguard]
    apply accepts_cons ho he
    exact accepts_declval_all hgs hrest (fun p hp => ((types_eq o ho).2 p hp).1) e
  rw [compiles_eq ho (accepts_cons ho he hrest)] at hcompiles
  simp only [Operator.accepts, hθ, Operator.guardHolds, htag,
    tagInvokeResult_eq_some ho hguard' hcompiles, Option.isSome_some]

/-- The body of an overload that agrees with `o` calls `o`. -/
theorem callee_of_agrees {c : Operator} {o : TagInvoke} (ho : o ∈ tagInvokes)
    (hag : Agrees c o = true) {es : List (Expr TypeName)}
    (hv : viable C o.types es = true) (hcompiles : o.compiles C es = true) :
    c.callee C es = some o := by
  obtain ⟨hcpo, hparams, -, -⟩ := agrees_cases hag
  obtain ⟨e, rest, θ, rfl, hθ, he, hrest⟩ := deduced_of_viable ho hparams hv
  have hnamed : List.Forall₂ (Accepts C θ) o.types
      (List.zipWith (named θ) (e :: rest) c.params) := by
    rw [hparams]
    apply accepts_cons ho he
    exact accepts_named_all hrest fun p hp => ((types_eq o ho).2 p hp).1
  rw [compiles_eq ho (accepts_cons ho he hrest)] at hcompiles
  simp only [Operator.callee, hθ, Option.bind_some, hcpo,
    tagInvokeResult_eq_some ho hnamed hcompiles]

theorem viable_of_accepts_call {c : Operator} {es : List (Expr TypeName)}
    (h : c.accepts C es = true) : viable C c.params es = true := by
  unfold Operator.accepts at h
  cases hθ : deduced C c.params es with
  | none =>
    rw [hθ] at h
    cases h
  | some θ => exact Option.isSome_iff_exists.mpr ⟨θ, hθ⟩

/-- **Dispatch**: where an overload of the customization point agrees with `o`,
every call that `o` is viable for and that compiles is accepted and goes to
`o`. -/
theorem dispatch_of_agrees {c : Operator} {o : TagInvoke} (hc : c ∈ operators)
    (ho : o ∈ tagInvokes) (hag : Agrees c o = true) {es : List (Expr TypeName)}
    (hv : viable C o.types es = true) (hcompiles : o.compiles C es = true) :
    dispatch C o.tag es = some (c, o) := by
  obtain ⟨hcpo, -⟩ := agrees_cases hag
  have hacc := accepts_of_agrees ho hag hv hcompiles
  have hop : operatorFor C o.tag es = some c := by
    apply resolve_eq_some
    · decide +kernel
    · exact hc
    · simp [hcpo, hacc]
    · intro c' hc' hok
      rw [Bool.and_eq_true, decide_eq_true_eq] at hok
      rcases operators_apart c hc c' hc' (hcpo.trans hok.1.symm) with heq | hapart
      · exact heq.symm
      · have hv' := not_viable_of_apart hapart (viable_of_accepts_call hacc)
        rw [viable_of_accepts_call hok.2] at hv'
        cases hv'
  rw [dispatch, hop, Option.bind_some, callee_of_agrees ho hag hv hcompiles, Option.map_some]

/-- A guard that fails takes its overload out of every call. -/
theorem not_accepts_of_guardFails {c : Operator} (h : guardFails c = true)
    (es : List (Expr TypeName)) : c.accepts C es = false := by
  rw [guardFails, Bool.and_eq_true] at h
  obtain ⟨hall, hfw⟩ := h
  have hfw' : ∀ g, c.guard[1]? = some g → g.passing ≠ .forward := by
    intro g hg
    rw [hg] at hfw
    exact bne_iff_ne.mp hfw
  unfold Operator.accepts
  split
  next θ e es hθ =>
    show (tagInvokeResult C c.guardTag (c.guard.map (declval θ e))).isSome = false
    have hnone : tagInvokeFor C c.guardTag (c.guard.map (declval θ e)) = none := by
      apply resolve_eq_none
      intro o ho
      rcases Bool.or_eq_true_iff.mp (List.all_eq_true.mp hall o ho) with htag | hapart
      · simp [bne_iff_ne.mp htag]
      · rw [not_viable_declval hapart hfw', Bool.and_false]
    rw [tagInvokeResult, hnone, Option.filter_none, Option.isSome_none]
  · rfl

/-- **No dispatch**: where no overload of the customization point agrees with
`o`, no call that `o` is viable for is accepted. -/
theorem dispatch_of_not_agrees {o : TagInvoke} (ho : o ∈ tagInvokes)
    (hno : ∀ c ∈ operators, Agrees c o = false) {es : List (Expr TypeName)}
    (hv : viable C o.types es = true) : dispatch C o.tag es = none := by
  have hop : operatorFor C o.tag es = none := by
    apply resolve_eq_none
    intro c hc
    by_cases hcpo : c.cpo = o.tag
    · rcases apart_or_guardFails o ho hno c hc hcpo with hapart | hfails
      · have hnv := not_viable_of_apart hapart hv
        cases hacc : c.accepts C es with
        | false => rw [Bool.and_false]
        | true =>
          rw [viable_of_accepts_call hacc] at hnv
          cases hnv
      · rw [not_accepts_of_guardFails hfails, Bool.and_false]
    · simp [hcpo]
  rw [dispatch, hop, Option.bind_none]

end Agrpc
