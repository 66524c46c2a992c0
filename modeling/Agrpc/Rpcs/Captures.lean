/-
Agrpc/Rpcs/Captures.lean

What the lambda of a sender has captured when the factory call has returned.
Through both calls, a parameter that is a reference in both names what the
caller passed, an object of its own or a temporary, and a parameter taken by
value is an object of a call that has ended; so a captured parameter is what
was passed, a copy of its value, or dead (`CapturedAs`).
-/
import Agrpc.Rpcs.Dispatch
import Agrpc.Rpcs.Sender

namespace Agrpc

open Lifetimes Overloading

/-! ### Captures -/

/-- Capturing a list of parameters captures each of them. -/
theorem captureAll_getElem? {σ : Store ℕ} {copied ps : List ParamName} {ls : List ℕ}
    {xs : List (Captured ℕ)} (h : captureAll σ copied ps ls = some xs) {i : ℕ} {p : ParamName}
    {l : ℕ} (hp : ps[i]? = some p) (hl : ls[i]? = some l) :
    ∃ x, xs[i]? = some x ∧ Captured.capture σ (decide (p ∈ copied)) l = some x := by
  induction ps generalizing ls xs i with
  | nil => cases hp
  | cons q ps ih =>
    cases ls with
    | nil => cases hl
    | cons k ls =>
      obtain ⟨y, hy, hrest⟩ := Option.bind_eq_some_iff.mp h
      obtain ⟨ys, hys, rfl⟩ := Option.map_eq_some_iff.mp hrest
      cases i with
      | zero =>
        obtain rfl := Option.some.inj hp
        obtain rfl := Option.some.inj hl
        exact ⟨y, rfl, hy⟩
      | succ i => exact ih hys hp hl

/-- Parameters bound to live objects can be captured. -/
theorem captureAll_isSome {σ : Store ℕ} {ls : List ℕ} (copied ps : List ParamName)
    (hlive : ∀ l ∈ ls, (σ.object l).isSome) : ∃ xs, captureAll σ copied ps ls = some xs := by
  induction ps generalizing ls with
  | nil => exact ⟨[], by cases ls <;> rfl⟩
  | cons p ps ih =>
    cases ls with
    | nil => exact ⟨[], rfl⟩
    | cons l ls =>
      obtain ⟨xs, hxs⟩ := ih fun k hk => hlive k (List.mem_cons_of_mem l hk)
      obtain ⟨y, hy⟩ := Option.isSome_iff_exists.mp (hlive l List.mem_cons_self)
      rw [captureAll, hxs, Captured.capture, hy]
      split
      · exact ⟨_, rfl⟩
      · exact ⟨_, rfl⟩

/-- How a parameter that both calls take as `p` is captured, for what is passed
as `s` in a call from the store `σ` that returned with `σ'`. -/
structure CapturedAs (σ σ' : Store ℕ) (p : Passing) (byCopy : Bool) (s : Source ℕ)
    (x : Captured ℕ) : Prop where
  copy : byCopy = true → ∃ v, s.value σ = some v ∧ x = .copy v
  ref : byCopy = false → p.isReference = true → ∃ l, x = .ref l ∧ Store.Passed σ σ' s l
  dead : byCopy = false → p.isReference = false → ∀ τ, σ'.Later τ → x.value τ = none

/-- A parameter that both calls take as `p`, bound to `l` in the outer and to `k`
in the inner one, is captured so. -/
theorem capturedAs_of_receives {σ σ₀ σ₁ σ₁' σ₂ : Store ℕ} {p : Passing} {s : Source ℕ}
    {l k : ℕ} {byCopy : Bool} {x : Captured ℕ} (houter : Store.Receives σ σ₀ σ₁ p s l)
    (hinner : Store.Receives σ₁ σ₁' σ₂ p (.object l) k) (hsize : σ₀.size ≤ σ₁'.size)
    (halive : (σ₂.object k).isSome) (hcap : Captured.capture σ₂ byCopy k = some x) :
    CapturedAs σ (σ₂.endFrom σ₀.size) p byCopy s x := by
  have hvalue : σ₂.object k = s.value σ := hinner.value.trans houter.value
  refine ⟨?_, ?_, ?_⟩
  · intro hcopy
    rw [hcopy, Captured.capture, if_pos rfl, hvalue] at hcap
    obtain ⟨v, hv, rfl⟩ := Option.map_eq_some_iff.mp hcap
    exact ⟨v, hv, rfl⟩
  · intro hcopy href
    rw [hcopy, Captured.capture, if_neg Bool.false_ne_true] at hcap
    obtain rfl := Option.some.inj hcap
    obtain rfl : k = l := (hinner.reference href).object l rfl
    have hpass := houter.reference href
    have hlt : k < σ₀.size := by
      rw [hvalue, ← hpass.value] at halive
      obtain ⟨v, hv⟩ := Option.isSome_iff_exists.mp halive
      exact Store.lt_size_of_object hv
    refine ⟨k, rfl, hpass.object, hpass.temporary, ?_⟩
    rw [σ₂.endFrom_object_of_lt hlt, hvalue]
  · intro hcopy href τ hlater
    rw [hcopy, Captured.capture, if_neg Bool.false_ne_true] at hcap
    obtain rfl := Option.some.inj hcap
    obtain ⟨v, hv⟩ := Option.isSome_iff_exists.mp halive
    exact Captured.value_ref_dead (Nat.le_trans hsize (hinner.own href))
      (Store.lt_size_of_object hv) hlater

/-! ### The two calls -/

/-- The arguments of a call denote objects that are alive, and so do the objects
their conversions give. -/
structure Live (C : Classes TypeName) (ps : List RpcParam) (args : List Argument)
    (σ : Store ℕ) : Prop where
  arguments : ∀ a ∈ args, (σ.object a.loc).isSome
  sources : ∀ s ∈ sources C ps args, (s.value σ).isSome

/-- Parameter names are distinct, and the scheduler is the first. -/
theorem names_eq : ∀ o ∈ tagInvokes, o.names.Nodup ∧ o.names = .s :: o.names.tail := by
  decide +kernel

theorem idxOf_scheduler {o : TagInvoke} (ho : o ∈ tagInvokes) : o.names.idxOf .s = 0 := by
  rw [(names_eq o ho).2]
  rfl

/-- A factory call on live arguments, from an overload of the customization point
to a `tag_invoke` overload it agrees with. -/
structure FactoryCall (C : Classes TypeName) (c : Operator) (o : TagInvoke)
    (args : List Argument) (σ : Store ℕ) : Prop where
  declared : o ∈ tagInvokes
  agrees : Agrees c o = true
  length : o.types.length = args.length
  live : Live C o.types args σ

section Calls

variable {C : Classes TypeName} {c : Operator} {o : TagInvoke} {executor : Argument}
  {args : List Argument} {σ σ₁ σ₂ : Store ℕ} {ls ks : List ℕ}

/-- What the customization point is passed: the executor as it is, and what the
overload takes. -/
theorem sources_eq (hcall : FactoryCall C c o (executor :: args) σ) :
    sources C c.params (executor :: args)
        = .object executor.loc :: sources C o.types.tail args ∧
      sources C o.types (executor :: args)
        = executor.source C schedulerParam.2 :: sources C o.types.tail args := by
  obtain ⟨-, hparams, -⟩ := agrees_cases hcall.agrees
  refine ⟨?_, ?_⟩
  · rw [hparams]
    rfl
  · rw [(types_eq o hcall.declared).1]
    rfl

/-- The outer call is passed what exists. -/
theorem live_sources (hcall : FactoryCall C c o (executor :: args) σ) :
    ∀ s ∈ sources C c.params (executor :: args), (s.value σ).isSome := by
  have hsources := hcall.live.sources
  rw [(sources_eq hcall).2] at hsources
  rw [(sources_eq hcall).1]
  intro s hs
  rcases List.mem_cons.mp hs with rfl | hs
  · exact hcall.live.arguments executor List.mem_cons_self
  · exact hsources s (List.mem_cons_of_mem _ hs)

/-- So is the scheduler of the inner call. -/
theorem scheduler_isSome (hcall : FactoryCall C c o (executor :: args) σ) :
    ((executor.source C schedulerParam.2).value σ).isSome := by
  apply hcall.live.sources
  rw [(sources_eq hcall).2]
  exact List.mem_cons_self

/-- Both calls have as many parameters as there are arguments. -/
theorem length_params (hcall : FactoryCall C c o (executor :: args) σ) :
    c.params.length = (executor :: args).length := by
  obtain ⟨-, hparams, -⟩ := agrees_cases hcall.agrees
  rw [← hcall.length, hparams, (types_eq o hcall.declared).1]
  rfl

theorem length_sources (hcall : FactoryCall C c o (executor :: args) σ) :
    (c.params.map ParamType.passing).length = (sources C c.params (executor :: args)).length := by
  rw [List.length_map, sources, List.length_zipWith, length_params hcall, Nat.min_self]

/-- The outer call has the executor bound to what it was, and passes it on as the
scheduler it converts to; the other parameters it passes on by their locations,
which are alive. -/
theorem passedOn_eq (hcall : FactoryCall C c o (executor :: args) σ)
    (h : σ.call (c.params.map ParamType.passing) (sources C c.params (executor :: args))
      = some (ls, σ₁)) :
    passedOn C (executor :: args) ls
        = executor.source C schedulerParam.2 :: ls.tail.map .object ∧
      ∀ s ∈ passedOn C (executor :: args) ls, (s.value σ₁).isSome := by
  obtain ⟨-, -, hkeep, -, hlive₁, hpar⟩ :=
    Store.call_spec (length_sources hcall) (live_sources hcall) h
  obtain ⟨-, hparams, -⟩ := agrees_cases hcall.agrees
  obtain ⟨l, hl, hb⟩ := hpar 0 .forward (.object executor.loc) (by rw [hparams]; rfl)
    (by rw [(sources_eq hcall).1]; rfl)
  obtain rfl : l = executor.loc := (hb.reference rfl).object _ rfl
  have hls : ls = executor.loc :: ls.tail := by
    cases ls with
    | nil => cases hl
    | cons k ls => rw [Option.some.inj hl, List.tail_cons]
  have heq : passedOn C (executor :: args) ls
      = executor.source C schedulerParam.2 :: ls.tail.map .object := by
    rw [hls]
    rfl
  refine ⟨heq, ?_⟩
  rw [heq]
  intro s hs
  rcases List.mem_cons.mp hs with rfl | hs
  · rw [Source.value_congr hkeep (scheduler_isSome hcall)]
    exact scheduler_isSome hcall
  · obtain ⟨k, hk, rfl⟩ := List.mem_map.mp hs
    exact hlive₁ k (List.mem_of_mem_tail hk)

theorem length_passedOn (hcall : FactoryCall C c o (executor :: args) σ)
    (h : σ.call (c.params.map ParamType.passing) (sources C c.params (executor :: args))
      = some (ls, σ₁)) :
    (o.types.map ParamType.passing).length = (passedOn C (executor :: args) ls).length := by
  obtain ⟨-, -, -, hls, -, -⟩ :=
    Store.call_spec (length_sources hcall) (live_sources hcall) h
  rw [← length_sources hcall, List.length_map, length_params hcall] at hls
  rw [(passedOn_eq hcall h).1, List.length_cons, List.length_map, List.length_map,
    List.length_tail, hls, hcall.length]
  rfl

/-- **What a factory call leaves**: the objects that were there, the context of
the scheduler, and the captures of the other parameters. -/
theorem factory_spec {σ' : Store ℕ} {sender : AsyncRPCSender}
    (hcall : FactoryCall C c o (executor :: args) σ)
    (h : factory C c o (executor :: args) σ = some (sender, σ')) :
    (∀ l, l < σ.size → σ'.object l = σ.object l) ∧
      (executor.source C schedulerParam.2).value σ = some sender.context ∧
      ∀ (i : ℕ) (p : ParamName × RpcParam) (s : Source ℕ), o.params.tail[i]? = some p →
        (sources C o.types.tail args)[i]? = some s →
          ∃ x, sender.rpc.captures[i + 1]? = some x ∧
            CapturedAs σ σ' p.2.passing (decide (p.1 ∈ o.copied)) s x := by
  unfold factory at h
  obtain ⟨⟨ls, σ₁⟩, h₁, h⟩ := Option.bind_eq_some_iff.mp h
  obtain ⟨⟨ks, σ₂⟩, h₂, h⟩ := Option.bind_eq_some_iff.mp h
  obtain ⟨captures, hcaps, h⟩ := Option.bind_eq_some_iff.mp h
  obtain ⟨context, hctx, heq⟩ := Option.map_eq_some_iff.mp h
  obtain ⟨rfl, rfl⟩ := Prod.mk.inj heq
  obtain ⟨hsize₀, hsize₁, hkeep₁, -, -, hpar₁⟩ :=
    Store.call_spec (length_sources hcall) (live_sources hcall) h₁
  obtain ⟨hon, hlive'⟩ := passedOn_eq hcall h₁
  obtain ⟨hsize₂, -, hkeep₂, -, hlive₂, hpar₂⟩ :=
    Store.call_spec (length_passedOn hcall h₁) hlive' h₂
  obtain ⟨-, hparams, -⟩ := agrees_cases hcall.agrees
  refine ⟨?_, ?_, ?_⟩
  · intro l hl
    rw [σ₂.endFrom_object_of_lt (Nat.lt_of_lt_of_le hl hsize₀),
      hkeep₂ l (Nat.lt_of_lt_of_le hl (Nat.le_trans hsize₀ hsize₁)), hkeep₁ l hl]
  · obtain ⟨k, hk, hb⟩ := hpar₂ 0 .byValue (executor.source C schedulerParam.2)
      (by rw [(types_eq o hcall.declared).1]; rfl) (by rw [hon]; rfl)
    rw [idxOf_scheduler hcall.declared, hk, Option.bind_some, hb.value,
      Source.value_congr hkeep₁ (scheduler_isSome hcall)] at hctx
    exact hctx
  · intro i p s hp hs
    have htype : o.types.tail[i]? = some p.2 := by
      rw [TagInvoke.types, ← List.map_tail, List.getElem?_map, hp, Option.map_some]
    obtain ⟨l, hl, hb₁⟩ := hpar₁ (i + 1) p.2.passing s
      (by rw [hparams, List.map_cons, List.getElem?_cons_succ, List.getElem?_map, htype,
        Option.map_some])
      (by rw [(sources_eq hcall).1, List.getElem?_cons_succ, hs])
    obtain ⟨k, hk, hb₂⟩ := hpar₂ (i + 1) p.2.passing (.object l)
      (by rw [(types_eq o hcall.declared).1, List.map_cons, List.getElem?_cons_succ,
        List.getElem?_map, htype, Option.map_some])
      (by rw [hon, List.getElem?_cons_succ, List.getElem?_map, List.getElem?_tail, hl,
        Option.map_some])
    have hname : o.names[i + 1]? = some p.1 := by
      rw [TagInvoke.names, ← List.getElem?_tail, ← List.map_tail, List.getElem?_map, hp,
        Option.map_some]
    obtain ⟨x, hx, hcap⟩ := captureAll_getElem? hcaps hname hk
    exact ⟨x, hx, capturedAs_of_receives hb₁ hb₂ (Nat.le_trans hsize₁ hsize₂)
      (hlive₂ k (List.mem_of_getElem? hk)) hcap⟩

theorem factory_overload {as : List Argument} {σ' : Store ℕ} {sender : AsyncRPCSender}
    (h : factory C c o as σ = some (sender, σ')) : sender.rpc.overload = o := by
  unfold factory at h
  obtain ⟨⟨ls, σ₁⟩, -, h⟩ := Option.bind_eq_some_iff.mp h
  obtain ⟨⟨ks, σ₂⟩, -, h⟩ := Option.bind_eq_some_iff.mp h
  obtain ⟨captures, -, h⟩ := Option.bind_eq_some_iff.mp h
  obtain ⟨context, -, heq⟩ := Option.map_eq_some_iff.mp h
  obtain ⟨rfl, -⟩ := Prod.mk.inj heq
  rfl

/-- A factory call on live objects returns a sender. -/
theorem factory_isSome (hcall : FactoryCall C c o (executor :: args) σ) :
    ∃ sender σ', factory C c o (executor :: args) σ = some (sender, σ') := by
  obtain ⟨⟨ls, σ₁⟩, h₁⟩ :=
    Store.call_isSome (c.params.map ParamType.passing) (live_sources hcall)
  obtain ⟨-, hlive'⟩ := passedOn_eq hcall h₁
  obtain ⟨⟨ks, σ₂⟩, h₂⟩ := Store.call_isSome (o.types.map ParamType.passing) hlive'
  obtain ⟨-, -, -, -, hlive₂, hpar₂⟩ :=
    Store.call_spec (length_passedOn hcall h₁) hlive' h₂
  obtain ⟨captures, hcaps⟩ := captureAll_isSome o.copied o.names hlive₂
  obtain ⟨k, hk, -⟩ := hpar₂ 0 .byValue (executor.source C schedulerParam.2)
    (by rw [(types_eq o hcall.declared).1]; rfl) (by rw [(passedOn_eq hcall h₁).1]; rfl)
  obtain ⟨context, hctx⟩ := Option.isSome_iff_exists.mp (hlive₂ k (List.mem_of_getElem? hk))
  refine ⟨{ context := context, rpc := { overload := o, captures := captures } },
    σ₂.endFrom (σ.materialise (sources C c.params (executor :: args))).2.size, ?_⟩
  simp only [factory, h₁, Option.bind_some, h₂, hcaps, idxOf_scheduler hcall.declared, hk, hctx,
    Option.map_some]

end Calls

end Agrpc
