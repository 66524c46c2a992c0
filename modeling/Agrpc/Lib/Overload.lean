/-
Agrpc/Lib/Overload.lean

Overload resolution between function templates.

Types are first-order terms over type constructors `κ`, parameter types are
patterns with template parameters `ν`.  A call deduces the template parameters
by matching the parameter types with the types of the argument expressions
(`deduce`).  A parameter type without template parameters also takes an
argument of a derived class, and one that the program's classes convert to it
(`Classes`).  An overload is viable if every argument is taken, and a call
resolves to the overload that alone is viable (`resolve`): ambiguity is an
error, and no partial order of templates is needed where it cannot arise.

`viable_iff` says what deduction decides: that some template arguments make
every parameter accept its argument; `Accepts.unique` that there is one choice
for those that occur in a parameter type.  `head_of_viable` and
`length_of_viable` are how two overloads, or an overload and a call, are told
apart.
-/
import Agrpc.Lib.Lifetime

namespace Overloading

open Lifetimes

/-! ### Types and patterns -/

/-- Types: class names and class templates applied to types, and `const`. -/
inductive Ty (κ : Type*) where
  | con (c : κ)
  | app (f x : Ty κ)
  | const (t : Ty κ)
  deriving DecidableEq, Repr

/-- Parameter types, over template parameters. -/
inductive Pat (κ ν : Type*) where
  | var (v : ν)
  | con (c : κ)
  | app (f x : Pat κ ν)
  deriving DecidableEq, Repr

variable {κ ν : Type*}

namespace Ty

/-- The outermost template or class name. -/
def head : Ty κ → κ
  | con c => c
  | app f _ => f.head
  | const t => t.head

/-- The type without `const` on the outside. -/
def bare : Ty κ → Ty κ
  | const t => t.bare
  | con c => con c
  | app f x => app f x

def isConst : Ty κ → Bool
  | const _ => true
  | _ => false

theorem head_bare (t : Ty κ) : t.bare.head = t.head := by
  induction t with
  | con c => rfl
  | app f x _ _ => rfl
  | const t ih => exact ih

theorem bare_bare (t : Ty κ) : t.bare.bare = t.bare := by
  induction t with
  | con c => rfl
  | app f x _ _ => rfl
  | const t ih => exact ih

end Ty

namespace Pat

/-- The type a pattern stands for under template arguments `θ`. -/
def inst (θ : ν → Ty κ) : Pat κ ν → Ty κ
  | var v => θ v
  | con c => .con c
  | app f x => .app (f.inst θ) (x.inst θ)

/-- No template parameter occurs in the pattern. -/
def closed : Pat κ ν → Bool
  | var _ => false
  | con _ => true
  | app f x => f.closed && x.closed

/-- The outermost name of a pattern that is not a template parameter. -/
def head? : Pat κ ν → Option κ
  | var _ => none
  | con c => some c
  | app f _ => f.head?

/-- The template parameter `v` occurs in the pattern. -/
def mentions [DecidableEq ν] (v : ν) : Pat κ ν → Bool
  | var w => w = v
  | con _ => false
  | app f x => f.mentions v || x.mentions v

theorem inst_closed {p : Pat κ ν} (h : p.closed = true) (θ θ' : ν → Ty κ) :
    p.inst θ = p.inst θ' := by
  induction p with
  | var v => cases h
  | con c => rfl
  | app f x ihf ihx =>
    rw [closed, Bool.and_eq_true] at h
    rw [inst, inst, ihf h.1, ihx h.2]

theorem head_inst {p : Pat κ ν} {c : κ} (h : p.head? = some c) (θ : ν → Ty κ) :
    (p.inst θ).head = c := by
  induction p with
  | var v => cases h
  | con d => exact Option.some.inj h
  | app f x ihf _ => exact ihf h

/-- A pattern without template parameters has no `const` on the outside. -/
theorem bare_inst_closed {p : Pat κ ν} (h : p.closed = true) (θ : ν → Ty κ) :
    (p.inst θ).bare = p.inst θ ∧ (p.inst θ).isConst = false := by
  cases p with
  | var v => cases h
  | con c => exact ⟨rfl, rfl⟩
  | app f x => exact ⟨rfl, rfl⟩

/-- What a pattern stands for determines the template arguments in it. -/
theorem inst_injective [DecidableEq ν] {p : Pat κ ν} {θ θ' : ν → Ty κ}
    (h : p.inst θ = p.inst θ') {v : ν} (hv : p.mentions v = true) : θ v = θ' v := by
  induction p with
  | var w =>
    obtain rfl : w = v := of_decide_eq_true hv
    exact h
  | con c => cases hv
  | app f x ihf ihx =>
    obtain ⟨hf, hx⟩ := Ty.app.inj h
    rcases Bool.or_eq_true_iff.mp hv with hv | hv
    · exact ihf hf hv
    · exact ihx hx hv

theorem inst_update [DecidableEq ν] {p : Pat κ ν} {v : ν} (h : p.mentions v = false)
    (θ : ν → Ty κ) (t : Ty κ) : p.inst (Function.update θ v t) = p.inst θ := by
  induction p with
  | var w =>
    have hw : w ≠ v := by simpa [mentions] using h
    show Function.update θ v t w = θ w
    rw [Function.update_of_ne hw]
  | con c => rfl
  | app f x ihf ihx =>
    rw [mentions, Bool.or_eq_false_iff] at h
    rw [inst, inst, ihf h.1, ihx h.2]

end Pat

/-! ### Deduction -/

section Deduction

variable [DecidableEq κ] [DecidableEq ν]

/-- Match a pattern with a type, extending the template arguments `σ`. -/
def deduce : Pat κ ν → Ty κ → (ν → Option (Ty κ)) → Option (ν → Option (Ty κ))
  | .var v, t, σ =>
      match σ v with
      | none => some (Function.update σ v (some t))
      | some u => if u = t then some σ else none
  | .con c, .con d, σ => if c = d then some σ else none
  | .app f x, .app g y, σ => (deduce f g σ).bind (deduce x y)
  | _, _, _ => none

/-- `θ` gives every template parameter the argument `σ` has for it. -/
def Extends (θ : ν → Ty κ) (σ : ν → Option (Ty κ)) : Prop := ∀ v t, σ v = some t → θ v = t

/-- What deduction found makes the pattern the type, and it keeps what it was
given. -/
theorem deduce_sound {p : Pat κ ν} {t : Ty κ} {σ τ : ν → Option (Ty κ)}
    (h : deduce p t σ = some τ) {θ : ν → Ty κ} (hθ : Extends θ τ) :
    p.inst θ = t ∧ Extends θ σ := by
  induction p generalizing t σ τ with
  | var v =>
    rw [deduce.eq_def] at h
    cases hv : σ v with
    | none =>
      simp only [hv, Option.some.injEq] at h
      subst h
      refine ⟨hθ v t (Function.update_self _ _ _), ?_⟩
      intro w u hw
      apply hθ w u
      rw [Function.update_of_ne]
      · exact hw
      · rintro rfl
        rw [hv] at hw
        cases hw
    | some u =>
      simp only [hv, Option.ite_none_right_eq_some, Option.some.injEq] at h
      obtain ⟨rfl, rfl⟩ := h
      exact ⟨hθ v u hv, hθ⟩
  | con c =>
    cases t with
    | con d =>
      rw [deduce, Option.ite_none_right_eq_some, Option.some.injEq] at h
      obtain ⟨rfl, rfl⟩ := h
      exact ⟨rfl, hθ⟩
    | app g y => cases h
    | const u => cases h
  | app f x ihf ihx =>
    cases t with
    | con d => cases h
    | const u => cases h
    | app g y =>
      obtain ⟨ρ, hf, hx⟩ := Option.bind_eq_some_iff.mp h
      obtain ⟨hy, hρ⟩ := ihx hx hθ
      obtain ⟨hg, hσ⟩ := ihf hf hρ
      refine ⟨?_, hσ⟩
      rw [Pat.inst, hg, hy]

/-- Deduction finds template arguments that are there to be found. -/
theorem deduce_complete {θ : ν → Ty κ} (p : Pat κ ν) {σ : ν → Option (Ty κ)}
    (hσ : Extends θ σ) : ∃ τ, deduce p (p.inst θ) σ = some τ ∧ Extends θ τ := by
  induction p generalizing σ with
  | var v =>
    rw [deduce.eq_def]
    cases hv : σ v with
    | none =>
      refine ⟨_, by simp only [hv]; rfl, ?_⟩
      intro w u hw
      by_cases hwv : w = v
      · rw [hwv, Function.update_self] at hw
        rw [hwv]
        exact Option.some.inj hw
      · rw [Function.update_of_ne hwv] at hw
        exact hσ w u hw
    | some u =>
      have hu : u = θ v := (hσ v u hv).symm
      exact ⟨σ, by simp [hv, hu, Pat.inst], hσ⟩
  | con c => exact ⟨σ, by rw [Pat.inst, deduce, if_pos rfl], hσ⟩
  | app f x ihf ihx =>
    obtain ⟨ρ, hf, hρ⟩ := ihf hσ
    obtain ⟨τ, hx, hτ⟩ := ihx hρ
    exact ⟨τ, by rw [Pat.inst, deduce, hf, Option.bind_some, hx], hτ⟩

end Deduction

/-! ### Arguments -/

/-- The type of an argument expression, and its value category. -/
structure Expr (κ : Type*) where
  ty : Ty κ
  isLvalue : Bool
  deriving DecidableEq, Repr

/-- What a user-defined conversion gives: another object, by a conversion
function that returns a reference to it, or a new object. -/
inductive UserConversion where
  | object
  | temporary
  deriving DecidableEq, Repr

/-- How an argument is converted to a parameter type: not at all, but for a
view as its base class, or by the user. -/
inductive Conversion where
  | identity
  | user (k : UserConversion)
  deriving DecidableEq, Repr

/-- What the classes of a program say about overload resolution. -/
structure Classes (κ : Type*) where
  /-- the second is an accessible and unambiguous base class of the first -/
  derives : Ty κ → Ty κ → Bool
  /-- the user-defined conversion of an expression, for a parameter of the type
  that is passed so -/
  converts : Expr κ → Passing → Ty κ → Option UserConversion
  /-- `T &` binds to no temporary -/
  converts_byRef : ∀ e t, converts e .byRef t ≠ some .temporary

/-- Classes that have nothing to do with each other. -/
def Classes.unrelated : Classes κ where
  derives _ _ := false
  converts _ _ _ := none
  converts_byRef _ _ h := by cases h

/-- The conversion of an expression to a type without `const`.  Within a class
and its bases no user-defined conversion is looked for, and `T &` takes lvalues
of non-const type only. -/
def Classes.conversion [DecidableEq κ] (C : Classes κ) (p : Passing) (e : Expr κ) (t : Ty κ) :
    Option Conversion :=
  if e.ty.bare = t ∨ C.derives e.ty.bare t then
    if p = .byRef ∧ (e.ty.isConst ∨ ¬ e.isLvalue) then none else some .identity
  else (C.converts e p t).map .user

/-- The type of a parameter. -/
structure ParamType (κ ν : Type*) where
  pat : Pat κ ν
  passing : Passing
  deriving DecidableEq, Repr

/-- The type the parameter is deduced from: `T` and `const T &` leave out the
`const` of the argument, `T &` deduces it with `T`. -/
def Expr.matched (p : Passing) (e : Expr κ) : Ty κ :=
  match p with
  | .byRef | .forward => e.ty
  | .byValue | .byConstRef => e.ty.bare

theorem Expr.head_matched (p : Passing) (e : Expr κ) : (e.matched p).head = e.ty.head := by
  cases p with
  | byRef => rfl
  | forward => rfl
  | byValue => exact e.ty.head_bare
  | byConstRef => exact e.ty.head_bare

/-- A parameter whose type is deduced binds to the expression: `T &` to an
lvalue, or to anything that made it `const`. -/
def takes (p : Passing) (e : Expr κ) : Bool :=
  match p with
  | .byRef => e.isLvalue || e.ty.isConst
  | _ => true

/-- How the argument is converted, if the parameter takes it; one whose type is
deduced takes it as it is. -/
def ParamType.conversion [DecidableEq κ] (C : Classes κ) (p : ParamType κ ν) (e : Expr κ) :
    Option Conversion :=
  if p.pat.closed then C.conversion p.passing e (p.pat.inst fun _ => e.ty)
  else if takes p.passing e then some .identity
  else none

/-! ### Viable overloads -/

section Viable

variable [DecidableEq κ]

/-- Under the template arguments `θ` the parameter accepts the argument. -/
structure Accepts (C : Classes κ) (θ : ν → Ty κ) (p : ParamType κ ν) (e : Expr κ) : Prop where
  conversion : (p.conversion C e).isSome = true
  type : p.pat.closed = false → e.matched p.passing = p.pat.inst θ

variable {C : Classes κ} {θ : ν → Ty κ} {p : ParamType κ ν} {e : Expr κ}

/-- An argument a template parameter is deduced from is not converted. -/
theorem Accepts.conversion_of_open (h : Accepts C θ p e) (ho : p.pat.closed = false) :
    p.conversion C e = some .identity := by
  have hconv := h.conversion
  rw [ParamType.conversion, if_neg (Bool.eq_false_iff.mp ho)] at hconv ⊢
  by_cases ht : takes p.passing e = true
  · exact if_pos ht
  · rw [if_neg ht] at hconv
    cases hconv

/-- Only `T &` deduces a `const`. -/
theorem Accepts.bare_inst (h : Accepts C θ p e) (hfw : p.passing ≠ .forward)
    (hp : p.pat.closed = true ∨ p.passing ≠ .byRef) : (p.pat.inst θ).bare = p.pat.inst θ := by
  cases hc : p.pat.closed with
  | true => exact (Pat.bare_inst_closed hc θ).1
  | false =>
    rw [← h.type hc]
    cases hpass : p.passing with
    | byRef => exact absurd hpass (hp.resolve_left (Bool.eq_false_iff.mp hc))
    | forward => exact absurd hpass hfw
    | byValue => exact Ty.bare_bare e.ty
    | byConstRef => exact Ty.bare_bare e.ty

/-- Where the parameter accepts some argument, it accepts one of its own type,
`const` or not unless it is a `T &`. -/
theorem Accepts.of_type {x : Expr κ} (h : Accepts C θ p e) (hfw : p.passing ≠ .forward)
    (hty : x.ty = p.pat.inst θ ∨ x.ty = .const (p.pat.inst θ) ∧ p.passing ≠ .byRef)
    (hlvalue : p.passing = .byRef → x.isLvalue = true) : Accepts C θ p x := by
  have href : p.passing = .byRef → x.ty = p.pat.inst θ := fun hp =>
    hty.resolve_right fun hc => hc.2 hp
  have hbare : p.pat.closed = true ∨ p.passing ≠ .byRef → x.ty.bare = p.pat.inst θ := by
    intro hp
    rcases hty with hx | ⟨hx, -⟩
    · rw [hx, h.bare_inst hfw hp]
    · rw [hx]
      exact h.bare_inst hfw hp
  refine ⟨?_, fun ho => ?_⟩
  · cases hc : p.pat.closed with
    | true =>
      have hself : x.ty.bare = p.pat.inst fun _ => x.ty := by
        rw [hbare (.inl hc), Pat.inst_closed hc]
      have hbinds : ¬ (p.passing = .byRef ∧ (x.ty.isConst = true ∨ ¬ x.isLvalue = true)) := by
        rintro ⟨hp, hconst | hl⟩
        · rw [href hp, (Pat.bare_inst_closed hc θ).2] at hconst
          cases hconst
        · exact hl (hlvalue hp)
      rw [ParamType.conversion, if_pos hc, Classes.conversion, if_pos (.inl hself),
        if_neg hbinds, Option.isSome_some]
    | false =>
      have ht : takes p.passing x = true := by
        unfold takes
        cases hpass : p.passing with
        | byRef => simp [hlvalue hpass]
        | _ => rfl
      rw [ParamType.conversion, if_neg (Bool.eq_false_iff.mp hc), if_pos ht, Option.isSome_some]
  · cases hpass : p.passing with
    | byRef => exact href hpass
    | forward => exact absurd hpass hfw
    | byValue => exact hbare (.inr (by rw [hpass]; decide))
    | byConstRef => exact hbare (.inr (by rw [hpass]; decide))

variable [DecidableEq ν]

/-- **There is one choice**: the arguments of a call determine the template
arguments that occur in the parameter types. -/
theorem Accepts.unique {θ' : ν → Ty κ} {ps : List (ParamType κ ν)} {es : List (Expr κ)}
    (h : List.Forall₂ (Accepts C θ) ps es) (h' : List.Forall₂ (Accepts C θ') ps es)
    (hp : p ∈ ps) (ho : p.pat.closed = false) {v : ν} (hv : p.pat.mentions v = true) :
    θ v = θ' v := by
  obtain ⟨i, hi, rfl⟩ := List.getElem_of_mem hp
  have hi' : i < es.length := h.length_eq ▸ hi
  have ha : Accepts C θ ps[i] es[i] := h.get hi hi'
  have ha' : Accepts C θ' ps[i] es[i] := h'.get hi hi'
  apply Pat.inst_injective _ hv
  rw [← ha.type ho, ha'.type ho]

variable (C)

/-- Deduce the template arguments from all arguments of a call. -/
def deduceAll : List (ParamType κ ν) → List (Expr κ) → (ν → Option (Ty κ)) →
    Option (ν → Option (Ty κ))
  | [], [], σ => some σ
  | p :: ps, e :: es, σ =>
      if (p.conversion C e).isSome then
        if p.pat.closed then deduceAll ps es σ
        else (deduce p.pat (e.matched p.passing) σ).bind (deduceAll ps es)
      else none
  | _, _, _ => none

/-- The template arguments of a call, if the overload is viable; those that
nothing determines do not matter. -/
def deduced (ps : List (ParamType κ ν)) (es : List (Expr κ)) : Option (ν → Ty κ) :=
  match es with
  | [] => none
  | e :: _ => (deduceAll C ps es fun _ => none).map fun σ v => (σ v).getD e.ty

def viable (ps : List (ParamType κ ν)) (es : List (Expr κ)) : Bool :=
  (deduced C ps es).isSome

variable {C}

theorem deduceAll_sound {ps : List (ParamType κ ν)} {es : List (Expr κ)}
    {σ τ : ν → Option (Ty κ)} (h : deduceAll C ps es σ = some τ) {θ : ν → Ty κ}
    (hθ : Extends θ τ) : List.Forall₂ (Accepts C θ) ps es ∧ Extends θ σ := by
  induction ps generalizing es σ with
  | nil =>
    cases es with
    | nil =>
      obtain rfl := Option.some.inj h
      exact ⟨.nil, hθ⟩
    | cons e es => cases h
  | cons p ps ih =>
    cases es with
    | nil => cases h
    | cons e es =>
      rw [deduceAll, Option.ite_none_right_eq_some] at h
      obtain ⟨hconv, h⟩ := h
      split at h
      next hc =>
        obtain ⟨hall, hσ⟩ := ih h
        refine ⟨.cons ⟨hconv, fun ho => ?_⟩ hall, hσ⟩
        rw [hc] at ho
        cases ho
      next hc =>
        obtain ⟨ρ, hp, hrest⟩ := Option.bind_eq_some_iff.mp h
        obtain ⟨hall, hρ⟩ := ih hrest
        obtain ⟨hty, hσ⟩ := deduce_sound hp hρ
        exact ⟨.cons ⟨hconv, fun _ => hty.symm⟩ hall, hσ⟩

theorem deduceAll_complete {θ : ν → Ty κ} {ps : List (ParamType κ ν)} {es : List (Expr κ)}
    (h : List.Forall₂ (Accepts C θ) ps es) {σ : ν → Option (Ty κ)} (hσ : Extends θ σ) :
    ∃ τ, deduceAll C ps es σ = some τ := by
  induction h generalizing σ with
  | nil => exact ⟨σ, rfl⟩
  | @cons p e ps es hp _ ih =>
    rw [deduceAll, if_pos hp.conversion]
    cases hc : p.pat.closed with
    | true =>
      obtain ⟨τ, hτ⟩ := ih hσ
      exact ⟨τ, hτ⟩
    | false =>
      obtain ⟨ρ, hρ, hext⟩ := deduce_complete p.pat hσ
      obtain ⟨τ, hτ⟩ := ih hext
      refine ⟨τ, ?_⟩
      rw [if_neg (by decide), hp.type hc, hρ, Option.bind_some, hτ]

/-- The deduced template arguments make every parameter accept its argument. -/
theorem accepts_of_deduced {ps : List (ParamType κ ν)} {es : List (Expr κ)} {θ : ν → Ty κ}
    (h : deduced C ps es = some θ) : List.Forall₂ (Accepts C θ) ps es := by
  cases es with
  | nil => cases h
  | cons e es =>
    obtain ⟨σ, hσ, rfl⟩ := Option.map_eq_some_iff.mp h
    refine (deduceAll_sound hσ ?_).1
    intro v t hv
    show (σ v).getD e.ty = t
    rw [hv, Option.getD_some]

/-- **What deduction decides**: a call with arguments is viable if and only if
some template arguments make every parameter accept its argument. -/
theorem viable_iff {ps : List (ParamType κ ν)} {e : Expr κ} {es : List (Expr κ)} :
    viable C ps (e :: es) = true ↔
      ∃ θ : ν → Ty κ, List.Forall₂ (Accepts C θ) ps (e :: es) := by
  constructor
  · intro h
    obtain ⟨θ, hθ⟩ := Option.isSome_iff_exists.mp h
    exact ⟨θ, accepts_of_deduced hθ⟩
  · rintro ⟨θ, hθ⟩
    obtain ⟨τ, hτ⟩ := deduceAll_complete hθ (σ := fun _ => none) (fun _ _ h => by cases h)
    show ((deduceAll C ps (e :: es) fun _ => none).map _).isSome = true
    rw [hτ]
    rfl

/-- A viable call has as many arguments as the overload has parameters. -/
theorem length_of_viable {ps : List (ParamType κ ν)} {es : List (Expr κ)}
    (h : viable C ps es = true) : ps.length = es.length := by
  obtain ⟨θ, hθ⟩ := Option.isSome_iff_exists.mp h
  exact (accepts_of_deduced hθ).length_eq

/-- Where a parameter type has a template parameter and an outermost name, a
viable call has an argument type of that name. -/
theorem head_of_viable {ps : List (ParamType κ ν)} {es : List (Expr κ)}
    (h : viable C ps es = true) {i : ℕ} {p : ParamType κ ν} {e : Expr κ} {c : κ}
    (hp : ps[i]? = some p) (he : es[i]? = some e) (hopen : p.pat.closed = false)
    (hc : p.pat.head? = some c) : e.ty.head = c := by
  obtain ⟨θ, hθ⟩ := Option.isSome_iff_exists.mp h
  obtain ⟨hi, rfl⟩ := List.getElem?_eq_some_iff.mp hp
  obtain ⟨hi', rfl⟩ := List.getElem?_eq_some_iff.mp he
  have ha : Accepts C θ ps[i] es[i] := (accepts_of_deduced hθ).get hi hi'
  rw [← Expr.head_matched ps[i].passing, ha.type hopen]
  exact Pat.head_inst hc θ

end Viable

/-! ### Resolution -/

/-- The one candidate that passes the test; none if there is no such candidate
or more than one. -/
def resolve {β : Type*} (candidates : List β) (ok : β → Bool) : Option β :=
  match candidates.filter ok with
  | [b] => some b
  | _ => none

section Resolve

variable {β : Type*} {candidates : List β} {ok : β → Bool} {b : β}

theorem mem_of_resolve (h : resolve candidates ok = some b) :
    b ∈ candidates ∧ ok b = true := by
  unfold resolve at h
  split at h
  next c hc =>
    obtain rfl := Option.some.inj h
    have hb : c ∈ candidates.filter ok := by
      rw [hc]
      exact List.mem_singleton_self c
    exact List.mem_filter.mp hb
  · cases h

/-- The candidate that passes, where no other does. -/
theorem resolve_eq_some (hnodup : candidates.Nodup) (hb : b ∈ candidates) (hok : ok b = true)
    (huniq : ∀ c ∈ candidates, ok c = true → c = b) : resolve candidates ok = some b := by
  have hmem : b ∈ candidates.filter ok := List.mem_filter.mpr ⟨hb, hok⟩
  have hall : candidates.filter ok = List.replicate (candidates.filter ok).length b := by
    apply List.eq_replicate_of_mem
    intro c hc
    exact huniq c (List.mem_filter.mp hc).1 (List.mem_filter.mp hc).2
  have hle : (candidates.filter ok).length ≤ 1 := by
    have hnd : (candidates.filter ok).Nodup := hnodup.filter ok
    rw [hall] at hnd
    exact List.nodup_replicate.mp hnd
  have hone : (candidates.filter ok).length = 1 :=
    Nat.le_antisymm hle (List.length_pos_of_mem hmem)
  have hfilter : candidates.filter ok = [b] := by
    rw [hall, hone]
    rfl
  unfold resolve
  rw [hfilter]

theorem resolve_eq_none (h : ∀ c ∈ candidates, ok c = false) : resolve candidates ok = none := by
  have hfilter : candidates.filter ok = [] := by
    rw [List.filter_eq_nil_iff]
    intro c hc
    rw [h c hc]
    exact Bool.false_ne_true
  unfold resolve
  rw [hfilter]

end Resolve

end Overloading
