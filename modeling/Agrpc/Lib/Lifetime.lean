/-
Agrpc/Lib/Lifetime.lean

Objects, calls and captures, in a language where a function can return a
closure over its parameters.

A store maps locations to the objects alive there.  A location is never used
twice, so an object whose lifetime ended leaves its location dead for good.
The call of a function creates an object for every parameter taken by value
and makes the others names of the arguments; when the call ends, so do the
lifetimes of everything created since it began.  An argument that is converted
may be a temporary, which is there before the call and outlives it, but not by
much.  A closure captures a parameter by reference, which keeps the location it
names, or by copy, which keeps the value.

* `Store.materialise` — the temporaries of a call;
* `Store.bind` — a call initialises its parameters, and `bind_spec` what it
  leaves unchanged and what its parameters name;
* `Store.call` — both, and `call_spec`;
* `Store.endFrom` — the call ends;
* `Store.Later` — a store some time later;
* `Captured` — what a closure keeps.  A reference to a parameter taken by
  value is dead once the call has ended (`value_ref_dead`).
-/
import Mathlib.Data.List.Forall2
import Mathlib.Logic.Function.Basic

namespace Lifetimes

/-! ### The store -/

/-- The objects alive, by location.  Locations from `size` on are unused. -/
structure Store (α : Type*) where
  size : ℕ
  object : ℕ → Option α
  unused : ∀ l, size ≤ l → object l = none

namespace Store

variable {α : Type*}

/-- A new object. -/
def create (σ : Store α) (x : α) : Store α where
  size := σ.size + 1
  object := Function.update σ.object σ.size (some x)
  unused l hl := by
    rw [Function.update_of_ne (by omega)]
    exact σ.unused l (by omega)

/-- End the lifetimes of all objects created at `n` or later. -/
def endFrom (σ : Store α) (n : ℕ) : Store α where
  size := σ.size
  object l := if l < n then σ.object l else none
  unused l hl := by
    split
    · exact σ.unused l hl
    · rfl

/-- `τ` is a store some time after `σ`: what was dead is dead. -/
def Later (σ τ : Store α) : Prop := ∀ l, l < σ.size → σ.object l = none → τ.object l = none

theorem Later.refl (σ : Store α) : σ.Later σ := fun _ _ h => h

theorem lt_size_of_object {σ : Store α} {l : ℕ} {x : α} (h : σ.object l = some x) :
    l < σ.size := by
  by_contra hl
  rw [σ.unused l (Nat.le_of_not_lt hl)] at h
  cases h

theorem create_object_self (σ : Store α) (x : α) : (σ.create x).object σ.size = some x :=
  Function.update_self _ _ _

theorem create_object_of_lt (σ : Store α) (x : α) {l : ℕ} (h : l < σ.size) :
    (σ.create x).object l = σ.object l :=
  Function.update_of_ne (Nat.ne_of_lt h) _ _

theorem endFrom_object_of_lt (σ : Store α) {n l : ℕ} (h : l < n) :
    (σ.endFrom n).object l = σ.object l := if_pos h

theorem endFrom_object_of_le (σ : Store α) {n l : ℕ} (h : n ≤ l) :
    (σ.endFrom n).object l = none := if_neg (Nat.not_lt.mpr h)

/-- The store in which the object at `l` has died, too. -/
def endAt (σ : Store α) (l : ℕ) : Store α where
  size := σ.size
  object := Function.update σ.object l none
  unused k hk := by
    by_cases h : k = l
    · rw [h, Function.update_self]
    · rw [Function.update_of_ne h]
      exact σ.unused k hk

theorem later_endAt (σ : Store α) (l : ℕ) : σ.Later (σ.endAt l) := by
  intro k _ hk
  show Function.update σ.object l none k = none
  by_cases h : k = l
  · rw [h, Function.update_self]
  · rw [Function.update_of_ne h]
    exact hk

theorem endAt_object_self (σ : Store α) (l : ℕ) : (σ.endAt l).object l = none :=
  Function.update_self _ _ _

theorem endAt_object_of_ne (σ : Store α) {l k : ℕ} (h : k ≠ l) :
    (σ.endAt l).object k = σ.object k :=
  Function.update_of_ne h _ _

end Store

/-! ### Temporaries -/

/-- What is passed for a parameter: an object that is there, or a new one. -/
inductive Source (α : Type*) where
  | object (l : ℕ)
  | new (x : α)
  deriving DecidableEq, Repr

namespace Source

variable {α : Type*}

def value (σ : Store α) : Source α → Option α
  | object l => σ.object l
  | new x => some x

/-- The object that is passed, if it was there. -/
def location : Source α → Option ℕ
  | object l => some l
  | new _ => none

/-- What exists keeps its value as long as the store keeps its objects. -/
theorem value_congr {σ τ : Store α} (h : ∀ l, l < σ.size → τ.object l = σ.object l)
    {s : Source α} (hs : (s.value σ).isSome) : s.value τ = s.value σ := by
  cases s with
  | new x => rfl
  | object l =>
    obtain ⟨v, hv⟩ := Option.isSome_iff_exists.mp hs
    exact h l (Store.lt_size_of_object hv)

end Source

namespace Store

variable {α : Type*}

/-- Create the temporaries that are passed: the locations of all that is
passed. -/
def materialise (σ : Store α) : List (Source α) → List ℕ × Store α
  | [] => ([], σ)
  | .object l :: ss => (l :: (σ.materialise ss).1, (σ.materialise ss).2)
  | .new x :: ss =>
      (σ.size :: ((σ.create x).materialise ss).1, ((σ.create x).materialise ss).2)

/-- What is passed as `s` is at `l`, between the store `σ` before the call and a
store `τ` with its temporaries. -/
structure Passed (σ τ : Store α) (s : Source α) (l : ℕ) : Prop where
  object : ∀ k, s.location = some k → l = k
  temporary : s.location = none → σ.size ≤ l
  value : τ.object l = s.value σ

/-- **What the temporaries of a call do**: the objects that were there stay as
they were. -/
theorem materialise_spec {σ : Store α} {ss : List (Source α)}
    (hlive : ∀ s ∈ ss, (s.value σ).isSome) :
    σ.size ≤ (σ.materialise ss).2.size ∧
      (∀ l, l < σ.size → (σ.materialise ss).2.object l = σ.object l) ∧
      List.Forall₂ (Passed σ (σ.materialise ss).2) ss (σ.materialise ss).1 := by
  induction ss generalizing σ with
  | nil => exact ⟨Nat.le_refl _, fun _ _ => rfl, .nil⟩
  | cons s ss ih =>
    have hs : (s.value σ).isSome := hlive s List.mem_cons_self
    have hlive' : ∀ s ∈ ss, (s.value σ).isSome := fun s hs =>
      hlive s (List.mem_cons_of_mem _ hs)
    cases s with
    | object l =>
      obtain ⟨hsize, hkeep, hall⟩ := ih hlive'
      obtain ⟨v, hv⟩ := Option.isSome_iff_exists.mp hs
      refine ⟨hsize, hkeep, .cons ⟨?_, ?_, hkeep l (lt_size_of_object hv)⟩ hall⟩
      · intro k hk
        exact Option.some.inj hk
      · intro hn
        cases hn
    | new x =>
      -- `σ.create x` agrees with `σ` on what else is passed
      have hvalue : ∀ s ∈ ss, s.value (σ.create x) = s.value σ := fun s hs =>
        Source.value_congr (fun l hl => σ.create_object_of_lt x hl) (hlive' s hs)
      obtain ⟨hsize, hkeep, hall⟩ := ih (σ := σ.create x) (fun s hs => by
        rw [hvalue s hs]
        exact hlive' s hs)
      refine ⟨Nat.le_of_succ_le hsize, ?_, .cons ⟨?_, fun _ => Nat.le_refl _, ?_⟩ ?_⟩
      · intro l hl
        exact (hkeep l (Nat.lt_succ_of_lt hl)).trans (σ.create_object_of_lt x hl)
      · intro k hk
        cases hk
      · exact (hkeep σ.size (Nat.lt_succ_self _)).trans (σ.create_object_self x)
      · refine List.Forall₂.imp ?_ ((List.forall₂_and_left _ _).mpr ⟨hvalue, hall⟩)
        rintro s l ⟨hs, hp⟩
        refine ⟨hp.object, ?_, hp.value.trans hs⟩
        intro hn
        exact Nat.le_of_succ_le (hp.temporary hn)

/-- `materialise_spec` for one argument at a time. -/
theorem materialise_getElem? {σ : Store α} {ss : List (Source α)}
    (hlive : ∀ s ∈ ss, (s.value σ).isSome) :
    (σ.materialise ss).1.length = ss.length ∧
      (∀ l ∈ (σ.materialise ss).1, ((σ.materialise ss).2.object l).isSome) ∧
      ∀ (i : ℕ) (s : Source α), ss[i]? = some s →
        ∃ l, (σ.materialise ss).1[i]? = some l ∧ Passed σ (σ.materialise ss).2 s l := by
  obtain ⟨-, -, hall⟩ := materialise_spec hlive
  have hlen := hall.length_eq
  refine ⟨hlen.symm, ?_, ?_⟩
  · intro l hl
    obtain ⟨i, hi, rfl⟩ := List.getElem_of_mem hl
    have hp := hall.get (hlen ▸ hi) hi
    simp only [List.get_eq_getElem] at hp
    rw [hp.value]
    exact hlive _ (List.getElem_mem (hlen ▸ hi))
  · intro i s hs
    obtain ⟨hi, rfl⟩ := List.getElem?_eq_some_iff.mp hs
    exact ⟨_, List.getElem?_eq_getElem (hlen ▸ hi), hall.get hi (hlen ▸ hi)⟩

end Store

/-! ### Calls -/

/-- How a parameter takes its argument: `T`, `T &`, `const T &`, or the
forwarding `T &&`. -/
inductive Passing where
  | byValue
  | byRef
  | byConstRef
  | forward
  deriving DecidableEq, Repr

/-- The parameter names its argument's object and is no object of its own. -/
def Passing.isReference : Passing → Bool
  | .byValue => false
  | _ => true

namespace Store

variable {α : Type*}

/-- Initialise the parameters of a call with the arguments at the given
locations: the locations the parameters name.  No result if the object to copy
is dead. -/
def bind (σ : Store α) : List (Passing × ℕ) → Option (List ℕ × Store α)
  | [] => some ([], σ)
  | (p, l) :: ps =>
      if p.isReference then (σ.bind ps).map fun (ls, τ) => (l :: ls, τ)
      else (σ.object l).bind fun x =>
        ((σ.create x).bind ps).map fun (ls, τ) => (σ.size :: ls, τ)

/-- A parameter passed as `a` and bound to `l`, between the store `σ` before
the call and the store `τ` its body sees. -/
structure Bound (σ τ : Store α) (a : Passing × ℕ) (l : ℕ) : Prop where
  reference : a.1.isReference = true → l = a.2
  own : a.1.isReference = false → σ.size ≤ l
  value : τ.object l = σ.object a.2

/-- **What a call's initialisation does**: the objects that were there stay as
they were, and every parameter is bound to its argument or to a copy. -/
theorem bind_spec {σ τ : Store α} {as : List (Passing × ℕ)} {ls : List ℕ}
    (hlive : ∀ a ∈ as, a.2 < σ.size) (h : σ.bind as = some (ls, τ)) :
    σ.size ≤ τ.size ∧ (∀ l, l < σ.size → τ.object l = σ.object l) ∧
      List.Forall₂ (Bound σ τ) as ls := by
  induction as generalizing σ ls with
  | nil =>
    obtain ⟨rfl, rfl⟩ := by simpa [bind] using h
    exact ⟨Nat.le_refl _, fun _ _ => rfl, .nil⟩
  | cons a as ih =>
    obtain ⟨p, l⟩ := a
    have hl : l < σ.size := hlive (p, l) List.mem_cons_self
    have hlive' : ∀ a ∈ as, a.2 < σ.size := fun a ha => hlive a (List.mem_cons_of_mem _ ha)
    rw [bind] at h
    cases hp : p.isReference with
    | true =>
      rw [if_pos hp] at h
      obtain ⟨⟨ks, τ'⟩, hrest, heq⟩ := Option.map_eq_some_iff.mp h
      obtain ⟨rfl, rfl⟩ := Prod.mk.inj heq
      obtain ⟨hsize, hkeep, hall⟩ := ih hlive' hrest
      refine ⟨hsize, hkeep, .cons ⟨fun _ => rfl, ?_, hkeep l hl⟩ hall⟩
      intro hp'
      rw [hp'] at hp
      cases hp
    | false =>
      rw [if_neg (Bool.eq_false_iff.mp hp)] at h
      obtain ⟨x, hx, hbind⟩ := Option.bind_eq_some_iff.mp h
      obtain ⟨⟨ks, τ'⟩, hrest, heq⟩ := Option.map_eq_some_iff.mp hbind
      obtain ⟨rfl, rfl⟩ := Prod.mk.inj heq
      have hmore : ∀ a ∈ as, a.2 < (σ.create x).size := fun a ha =>
        Nat.lt_succ_of_lt (hlive' a ha)
      obtain ⟨hsize, hkeep, hall⟩ := ih hmore hrest
      have hkeep' : ∀ l, l < σ.size → τ'.object l = σ.object l := by
        intro k hk
        rw [hkeep k (Nat.lt_succ_of_lt hk), σ.create_object_of_lt x hk]
      refine ⟨Nat.le_of_succ_le hsize, hkeep', .cons ⟨?_, fun _ => Nat.le_refl _, ?_⟩ ?_⟩
      · intro hp'
        rw [hp] at hp'
        cases hp'
      · rw [hkeep σ.size (Nat.lt_succ_self _), σ.create_object_self, hx]
      · -- the rest was bound from `σ.create x`, which agrees with `σ` on the arguments
        refine List.Forall₂.imp ?_ ((List.forall₂_and_left _ _).mpr ⟨hlive', hall⟩)
        rintro ⟨q, m⟩ k ⟨hm, hb⟩
        refine ⟨hb.reference, ?_, ?_⟩
        · intro hq
          exact Nat.le_of_succ_le (hb.own hq)
        · rw [hb.value, σ.create_object_of_lt x hm]

/-- `bind_spec` for one parameter at a time. -/
theorem bind_getElem? {σ τ : Store α} {ps : List Passing} {as ls : List ℕ}
    (hlen : ps.length = as.length) (hlive : ∀ l ∈ as, (σ.object l).isSome)
    (h : σ.bind (ps.zip as) = some (ls, τ)) :
    σ.size ≤ τ.size ∧ (∀ l, l < σ.size → τ.object l = σ.object l) ∧ ls.length = as.length ∧
      (∀ l ∈ ls, (τ.object l).isSome) ∧
      ∀ (i : ℕ) (p : Passing) (a : ℕ), ps[i]? = some p → as[i]? = some a →
        ∃ l, ls[i]? = some l ∧ Bound σ τ (p, a) l := by
  have hlt : ∀ x ∈ ps.zip as, x.2 < σ.size := by
    rintro ⟨p, a⟩ hx
    obtain ⟨v, hv⟩ := Option.isSome_iff_exists.mp (hlive a (List.of_mem_zip hx).2)
    exact lt_size_of_object hv
  obtain ⟨hsize, hkeep, hall⟩ := bind_spec hlt h
  have hls : ls.length = as.length := by
    rw [← hall.length_eq, List.length_zip, hlen, Nat.min_self]
  have hpar : ∀ (i : ℕ) (p : Passing) (a : ℕ), ps[i]? = some p → as[i]? = some a →
      ∃ l, ls[i]? = some l ∧ Bound σ τ (p, a) l := by
    intro i p a hp ha
    have hx : (ps.zip as)[i]? = some (p, a) := List.getElem?_zip_eq_some.mpr ⟨hp, ha⟩
    obtain ⟨hi, hget⟩ := List.getElem?_eq_some_iff.mp hx
    have hi' : i < ls.length := hall.length_eq ▸ hi
    refine ⟨ls[i], List.getElem?_eq_getElem hi', ?_⟩
    rw [← hget]
    exact hall.get hi hi'
  refine ⟨hsize, hkeep, hls, ?_, hpar⟩
  intro l hl
  obtain ⟨i, hi, rfl⟩ := List.getElem_of_mem hl
  have hia : i < as.length := hls ▸ hi
  have hip : i < ps.length := hlen ▸ hia
  obtain ⟨l', hl', hb⟩ := hpar i ps[i] as[i] (List.getElem?_eq_getElem hip)
    (List.getElem?_eq_getElem hia)
  rw [List.getElem?_eq_getElem hi] at hl'
  rw [Option.some.inj hl', hb.value]
  exact hlive _ (List.getElem_mem hia)

/-- A call whose arguments are alive can initialise its parameters. -/
theorem bind_isSome {σ : Store α} {as : List (Passing × ℕ)}
    (hlive : ∀ a ∈ as, (σ.object a.2).isSome) : ∃ p, σ.bind as = some p := by
  induction as generalizing σ with
  | nil => exact ⟨_, rfl⟩
  | cons a as ih =>
    obtain ⟨p, l⟩ := a
    have hlive' : ∀ a ∈ as, (σ.object a.2).isSome := fun a ha =>
      hlive a (List.mem_cons_of_mem _ ha)
    obtain ⟨x, hx⟩ := Option.isSome_iff_exists.mp (hlive (p, l) List.mem_cons_self)
    rw [bind]
    split
    · obtain ⟨q, hq⟩ := ih hlive'
      exact ⟨_, by rw [hq, Option.map_some]⟩
    · have hmore : ∀ a ∈ as, ((σ.create x).object a.2).isSome := by
        intro a ha
        obtain ⟨y, hy⟩ := Option.isSome_iff_exists.mp (hlive' a ha)
        rw [σ.create_object_of_lt x (lt_size_of_object hy)]
        exact hlive' a ha
      obtain ⟨q, hq⟩ := ih hmore
      refine ⟨(σ.size :: q.1, q.2), ?_⟩
      rw [show σ.object l = some x from hx, Option.bind_some, hq, Option.map_some]

end Store

/-! ### Calls with temporaries -/

namespace Store

variable {α : Type*}

/-- Create the temporaries of a call, and initialise its parameters. -/
def call (σ : Store α) (ps : List Passing) (ss : List (Source α)) :
    Option (List ℕ × Store α) :=
  (σ.materialise ss).2.bind (ps.zip (σ.materialise ss).1)

/-- A parameter passed as `p` gets what is passed as `s`, and is bound to `l`:
from the store `σ` before the call to `σ₀`, with its temporaries, and to `τ`,
which its body sees. -/
structure Receives (σ σ₀ τ : Store α) (p : Passing) (s : Source α) (l : ℕ) : Prop where
  reference : p.isReference = true → Passed σ σ₀ s l
  own : p.isReference = false → σ₀.size ≤ l
  value : τ.object l = s.value σ

/-- **What a call does**: what was there stays as it was, and every parameter gets
what is passed for it. -/
theorem call_spec {σ τ : Store α} {ps : List Passing} {ss : List (Source α)} {ls : List ℕ}
    (hlen : ps.length = ss.length) (hlive : ∀ s ∈ ss, (s.value σ).isSome)
    (h : σ.call ps ss = some (ls, τ)) :
    σ.size ≤ (σ.materialise ss).2.size ∧ (σ.materialise ss).2.size ≤ τ.size ∧
      (∀ l, l < σ.size → τ.object l = σ.object l) ∧ ls.length = ss.length ∧
      (∀ l ∈ ls, (τ.object l).isSome) ∧
      ∀ (i : ℕ) (p : Passing) (s : Source α), ps[i]? = some p → ss[i]? = some s →
        ∃ l, ls[i]? = some l ∧ Receives σ (σ.materialise ss).2 τ p s l := by
  obtain ⟨hsize, hkeep, -⟩ := materialise_spec hlive
  obtain ⟨hlen₀, hlive₀, hpassed⟩ := materialise_getElem? hlive
  obtain ⟨hsize', hkeep', hls, hlive', hbound⟩ :=
    bind_getElem? (hlen.trans hlen₀.symm) hlive₀ h
  refine ⟨hsize, hsize', ?_, hls.trans hlen₀, hlive', ?_⟩
  · intro l hl
    rw [hkeep' l (Nat.lt_of_lt_of_le hl hsize), hkeep l hl]
  · intro i p s hp hs
    obtain ⟨l₀, hl₀, hpass⟩ := hpassed i s hs
    obtain ⟨l, hl, hb⟩ := hbound i p l₀ hp hl₀
    refine ⟨l, hl, ?_, hb.own, hb.value.trans hpass.value⟩
    intro href
    rw [hb.reference href]
    exact hpass

/-- A call that is passed what exists can initialise its parameters. -/
theorem call_isSome {σ : Store α} {ss : List (Source α)} (ps : List Passing)
    (hlive : ∀ s ∈ ss, (s.value σ).isSome) : ∃ q, σ.call ps ss = some q := by
  obtain ⟨-, hlive₀, -⟩ := materialise_getElem? hlive
  apply bind_isSome
  rintro ⟨p, l⟩ hx
  exact hlive₀ l (List.of_mem_zip hx).2

end Store

/-! ### Captures -/

/-- What a closure keeps of a parameter. -/
inductive Captured (α : Type*) where
  | ref (l : ℕ)
  | copy (x : α)

namespace Captured

variable {α : Type*}

/-- The value a captured parameter has in the store `σ`. -/
def value (σ : Store α) : Captured α → Option α
  | ref l => σ.object l
  | copy x => some x

/-- The caller's object a captured parameter denotes, if it is alive; a copy
denotes none. -/
def location (σ : Store α) : Captured α → Option ℕ
  | ref l => if (σ.object l).isSome then some l else none
  | copy _ => none

/-- Capture the parameter bound to `l`. -/
def capture (σ : Store α) (byCopy : Bool) (l : ℕ) : Option (Captured α) :=
  if byCopy then (σ.object l).map copy else some (ref l)

theorem value_isSome_of_location {σ : Store α} {c : Captured α} {l : ℕ}
    (h : c.location σ = some l) : (c.value σ).isSome = true := by
  cases c with
  | ref k =>
    simp only [location] at h
    split at h
    next hk => exact hk
    · cases h
  | copy x => cases h

/-- A reference to a live object denotes it. -/
theorem location_ref {σ : Store α} {l : ℕ} (h : (σ.object l).isSome = true) :
    (ref l : Captured α).location σ = some l := if_pos h

/-- **A reference into a call that has ended is dead**, however much later it
is used. -/
theorem value_ref_dead {σ τ : Store α} {n l : ℕ} (hl : n ≤ l) (hsize : l < σ.size)
    (hlater : (σ.endFrom n).Later τ) : (ref l : Captured α).value τ = none :=
  hlater l hsize (σ.endFrom_object_of_le hl)

end Captured

end Lifetimes
