/-
Agrpc/Context/Coroutine.lean

Coroutines that await the context's senders.

`co_await agrpc::AsyncRead(scheduler, reader, message)` connects a sender and
starts the operation; the coroutine waits until the operation's receiver is given
its value, and goes on with it.  Here a coroutine is a program that makes one RPC
after another, and any number of them run on one context, next to whatever else
uses it, with queues, wake-ups and passes of the loop between them.

Every run is one of the context (`exec_context`); what it is for the coroutines
is `Agrpc.Context.DirectStyle`.
-/
import Agrpc.Context.Executor
import Agrpc.Lib.Program

namespace Agrpc

open Interleaving Sequential

variable {σ γ : Type*}

/-! ### The coroutines -/

/-- The context and the coroutines. -/
structure Clients (σ γ : Type*) where
  context : State := {}
  /-- where a coroutine is in its code -/
  position : ℕ → σ
  /-- the operation whose result a coroutine waits for -/
  awaiting : ℕ → Option ℕ := fun _ => none
  /-- `receiver_` and `rpc_` of an operation: the coroutine that waits for it,
  and what it calls -/
  operation : ℕ → Option (ℕ × γ) := fun _ => none

inductive ClientAction where
  /-- a step of the context, or of somebody else who uses it -/
  | context (a : Action)
  /-- coroutine `t` connects and starts operation `id`, on the loop thread or on
  another one -/
  | await (t id : ℕ) (onLoop : Bool)
  deriving DecidableEq, Repr

/-- An observation of the context, with what the operation it is about has been
connected to. -/
abbrev ClientObservation (γ : Type*) := Observation × Option (ℕ × γ)

/-- The operation an RPC is called for, is reported for, or is given its value. -/
def Observation.operation? : Observation → Option ℕ
  | rpcInvoked id | setValue id _ => some id
  | nextReturned tag _ => tag
  | _ => none

/-- The action of the context. -/
def ClientAction.action : ClientAction → Action
  | context a => a
  | await _ id onLoop => if onLoop then .startOnLoop id else .start id

namespace Clients

/-- The operation is connected to coroutine `t`. -/
def connect (s : Clients σ γ) (t id : ℕ) (rpc : γ) : Clients σ γ :=
  { s with
    awaiting := Function.update s.awaiting t (some id)
    operation := Function.update s.operation id (some (t, rpc)) }

def tag (s : Clients σ γ) (o : Observation) : ClientObservation γ :=
  (o, o.operation?.bind s.operation)

variable (P : Program σ γ Bool)

/-- `set_value` resumes the coroutine. -/
def see (s : Clients σ γ) : Observation → Clients σ γ
  | .setValue id ok =>
      match s.operation id with
      | some (t, _) =>
          { s with
            position := Function.update s.position t (P.resume (s.position t) ok)
            awaiting := Function.update s.awaiting t none }
      | none => s
  | _ => s

/-- The context takes a step. -/
def move (s : Clients σ γ) (a : Action) : Option (Clients σ γ × List (ClientObservation γ)) :=
  (s.context.step a).map fun (x, e) => ({ e.foldl (see P) s with context := x }, e.map s.tag)

/-- The receiver that runs is a coroutine's.  Its `set_value` does not throw:
what goes wrong in a coroutine stays in its promise. -/
def inCoroutine (s : Clients σ γ) : Bool :=
  match s.context.pc? with
  | some (.executing id _ _) => (s.operation id).isSome
  | _ => false

def step (s : Clients σ γ) : ClientAction → Option (Clients σ γ × List (ClientObservation γ))
  | .context a =>
      if a = .setValueThrows ∧ s.inCoroutine then none else s.move P a
  | .await t id onLoop =>
      match P.call (s.position t) with
      | some rpc =>
          if s.awaiting t = none ∧ s.operation id = none then
            (s.connect t id rpc).move P (if onLoop then .startOnLoop id else .start id)
          else none
      | none => none

end Clients

/-- Coroutines of one kind on a context, each with its own start. -/
def coroutines (P : Program σ γ Bool) (start : ℕ → σ) :
    Machine (Clients σ γ) ClientAction (ClientObservation γ) where
  init := { position := start }
  step := Clients.step P

/-! ### Steps -/

section Runs

variable {P : Program σ γ Bool} {start : ℕ → σ} {as : List ClientAction} {s s' : Clients σ γ}
  {a : Action} {c : ClientAction} {h k : List (ClientObservation γ)}

theorem Clients.move_cases (hm : s.move P a = some (s', k)) :
    ∃ e, contextMachine.step s.context a = some (s'.context, e) ∧
      s' = { e.foldl (Clients.see P) s with context := s'.context } ∧ k = e.map s.tag := by
  obtain ⟨⟨x, e⟩, hstep, heq⟩ := Option.map_eq_some_iff.mp hm
  obtain ⟨rfl, rfl⟩ := Prod.mk.inj heq
  exact ⟨e, hstep, rfl, rfl⟩

/-- A step of the coroutines, and the move of the context it makes. -/
inductive ClientStep (P : Program σ γ Bool) (s : Clients σ γ) :
    ClientAction → Clients σ γ → List (ClientObservation γ) → Prop
  | context {a : Action} {s' k} (hm : s.move P a = some (s', k)) : ClientStep P s (.context a) s' k
  | await {t id : ℕ} {onLoop : Bool} {rpc s' k} (hcall : P.call (s.position t) = some rpc)
      (hw : s.awaiting t = none) (hid : s.operation id = none)
      (hm : (s.connect t id rpc).move P (ClientAction.await t id onLoop).action = some (s', k)) :
      ClientStep P s (.await t id onLoop) s' k

theorem clientStep_cases (hs : (coroutines P start).step s c = some (s', k)) :
    ClientStep P s c s' k := by
  change s.step P c = some (s', k) at hs
  cases c with
  | context a =>
    rw [Clients.step, Option.ite_none_left_eq_some] at hs
    exact .context hs.2
  | await t id onLoop =>
    rw [Clients.step] at hs
    split at hs
    next rpc hcall =>
      obtain ⟨⟨hw, hid⟩, hm⟩ := Option.ite_none_right_eq_some.mp hs
      exact .await hcall hw hid hm
    next => cases hs

/-- The context takes the step. -/
theorem ClientStep.context_step (hs : ClientStep P s c s' k) :
    contextMachine.step s.context c.action = some (s'.context, k.map Prod.fst) := by
  have hfst : ∀ (x : Clients σ γ) (e : List Observation), (e.map x.tag).map Prod.fst = e := by
    intro x e
    rw [List.map_map]
    exact List.map_id' e
  cases hs with
  | context hm =>
    obtain ⟨e, hstep, -, rfl⟩ := Clients.move_cases hm
    rw [hfst]
    exact hstep
  | await _ _ _ hm =>
    obtain ⟨e, hstep, -, rfl⟩ := Clients.move_cases hm
    rw [hfst]
    exact hstep

/-- Every run is one of the context. -/
theorem exec_context (hrun : (coroutines P start).exec as = some (s, h)) :
    contextMachine.exec (as.map ClientAction.action) = some (s.context, h.map Prod.fst) := by
  induction as using List.reverseRecOn generalizing s h with
  | nil =>
    cases hrun
    rfl
  | append_singleton as c ih =>
    obtain ⟨s₁, h₁, e, hl, hs, rfl⟩ := Machine.exec_concat.mp hrun
    rw [List.map_append, List.map_append]
    exact Machine.exec_concat.mpr
      ⟨_, _, _, ih hl, (clientStep_cases hs).context_step, rfl⟩

end Runs

end Agrpc
