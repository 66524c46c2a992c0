/-
Agrpc/Lib/Fifo.lean

The FIFO executor: the abstract machine an event loop with a queue refines.
Its state is the queue; an arrival joins at the back, and only the item at the
front can be served.

`fifo_exec` is what a simulation into it is worth: in every run the arrivals
are, in order, what has been served followed by what is still queued, so the
served sequence is a prefix of the arrivals.
-/
import Agrpc.Lib.Machine

namespace Interleaving

variable {α : Type*} [DecidableEq α]

inductive FifoAction (α : Type*) where
  | arrive (x : α)
  | serve (x : α)

namespace FifoAction

def arrival? : FifoAction α → Option α
  | arrive x => some x
  | serve _ => none

def served? : FifoAction α → Option α
  | arrive _ => none
  | serve x => some x

end FifoAction

/-- The FIFO executor. -/
def fifo (α : Type*) [DecidableEq α] : Machine (List α) (FifoAction α) Empty where
  init := []
  step := fun
    | q, .arrive x => some (q ++ [x], [])
    | [], .serve _ => none
    | y :: q, .serve x => if y = x then some (q, []) else none

@[simp] theorem fifo_step_arrive (q : List α) (x : α) :
    (fifo α).step q (.arrive x) = some (q ++ [x], []) := by
  cases q <;> rfl

@[simp] theorem fifo_step_serve_self (q : List α) (x : α) :
    (fifo α).step (x :: q) (.serve x) = some (q, []) := if_pos rfl

/-- Only the item at the front can be served. -/
theorem fifo_step_serve {q q' : List α} {x : α} {e : List Empty}
    (h : (fifo α).step q (.serve x) = some (q', e)) : q = x :: q' := by
  cases q with
  | nil => simp [fifo] at h
  | cons y q =>
    obtain ⟨rfl, rfl, -⟩ : y = x ∧ q = q' ∧ [] = e := by simpa [fifo] using h
    rfl

/-- A batch of arrivals joins the queue in its own order. -/
theorem fifo_arrivals (q xs : List α) :
    (fifo α).execFrom q (xs.map .arrive) = some (q ++ xs, []) := by
  induction xs generalizing q with
  | nil => simp [Machine.execFrom]
  | cons x xs ih => simp [Machine.execFrom, ih]

/-- The items at the front are served in queue order. -/
theorem fifo_services (xs q : List α) :
    (fifo α).execFrom (xs ++ q) (xs.map .serve) = some (q, []) := by
  induction xs with
  | nil => simp [Machine.execFrom]
  | cons x xs ih => simp [Machine.execFrom, ih]

/-- **Arrivals are the served items followed by the queued ones.** -/
theorem fifo_exec {as : List (FifoAction α)} {q : List α} {o : List Empty}
    (hrun : (fifo α).exec as = some (q, o)) :
    as.filterMap FifoAction.arrival? = as.filterMap FifoAction.served? ++ q := by
  induction as using List.reverseRecOn generalizing q o with
  | nil =>
    obtain ⟨rfl, -⟩ : [] = q ∧ [] = o := by simpa [fifo] using hrun
    rfl
  | append_singleton as a ih =>
    obtain ⟨q₀, o₀, e, hl, hs, -⟩ := Machine.exec_concat.mp hrun
    rw [List.filterMap_append, List.filterMap_append, ih hl]
    cases a with
    | arrive x =>
      obtain ⟨rfl, -⟩ : q₀ ++ [x] = q ∧ [] = e := by simpa using hs
      simp [FifoAction.arrival?, FifoAction.served?]
    | serve x =>
      obtain rfl := fifo_step_serve hs
      simp [FifoAction.arrival?, FifoAction.served?]

end Interleaving
