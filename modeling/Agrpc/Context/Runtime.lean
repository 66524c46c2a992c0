/-
Agrpc/Context/Runtime.lean

What the context relies on of the two libraries below it, neither of which is
part of the repository.

* libunifex's `atomic_intrusive_queue`: inactive, or active with a FIFO list.
  `enqueue` appends atomically and reports whether the queue was inactive;
  `try_mark_inactive_or_dequeue_all` is defined on an active queue only, makes
  an empty one inactive and takes the items of a non-empty one.
* gRPC's completion queue and alarm: a tag handed to gRPC comes back once, in
  any order and after any delay; every `Set` of the alarm gives one event;
  `Next` returns false only after `Shutdown` and once nothing is pending.

The interleavings are those of these atomic operations, so an operation is a
function of the state and what the environment chooses is an argument.
-/
import Mathlib.Data.List.Basic

namespace Agrpc

/-! ### libunifex: `atomic_intrusive_queue` -/

inductive AtomicQueue (α : Type*) where
  | inactive
  | active (items : List α)

namespace AtomicQueue

variable {α : Type*}

def isActive : AtomicQueue α → Bool
  | inactive => false
  | active _ => true

/-- What is linked in the queue, oldest first. -/
def items : AtomicQueue α → List α
  | inactive => []
  | active xs => xs

/-- `enqueue`: the flag says the queue was inactive. -/
def enqueue (x : α) : AtomicQueue α → Bool × AtomicQueue α
  | inactive => (true, active [x])
  | active xs => (false, active (xs ++ [x]))

/-- `try_mark_inactive_or_dequeue_all`; no result on an inactive queue, where
the operation is not defined. -/
def tryMarkInactiveOrDequeueAll : AtomicQueue α → Option (List α × AtomicQueue α)
  | inactive => none
  | active [] => some ([], inactive)
  | active (x :: xs) => some (x :: xs, active [])

@[simp] theorem items_enqueue (x : α) (q : AtomicQueue α) :
    (q.enqueue x).2.items = q.items ++ [x] := by
  cases q <;> rfl

@[simp] theorem isActive_enqueue (x : α) (q : AtomicQueue α) :
    (q.enqueue x).2.isActive = true := by
  cases q <;> rfl

@[simp] theorem enqueue_fst (x : α) (q : AtomicQueue α) :
    (q.enqueue x).1 = !q.isActive := by
  cases q <;> rfl

theorem items_of_not_isActive {q : AtomicQueue α} (h : q.isActive = false) : q.items = [] := by
  cases q with
  | inactive => rfl
  | active xs => simp [isActive] at h

/-- The two outcomes on an active queue, and that there is no other. -/
theorem tryMarkInactiveOrDequeueAll_cases {q q' : AtomicQueue α} {xs : List α}
    (h : q.tryMarkInactiveOrDequeueAll = some (xs, q')) :
    q.isActive = true ∧ q.items = xs ∧ q'.items = [] ∧ q'.isActive = !xs.isEmpty := by
  rcases q with - | ⟨- | ⟨x, ys⟩⟩
  · simp [tryMarkInactiveOrDequeueAll] at h
  all_goals
    simp only [tryMarkInactiveOrDequeueAll, Option.some.injEq, Prod.mk.injEq] at h
    obtain ⟨rfl, rfl⟩ := h
    simp [isActive, items]

end AtomicQueue

/-! ### gRPC: completion queue and alarm -/

/-- The events of a completion queue.  An operation is named by its tag. -/
structure CompletionQueue where
  /-- alarm events that were `Set` and that `Next` has not returned yet -/
  alarms : ℕ := 0
  /-- tags handed to gRPC whose operation is still running -/
  tags : List ℕ := []
  /-- finished operations, waiting for `Next` -/
  events : List (ℕ × Bool) := []
  isShutdown : Bool := false

/-- How a call of `Next` ends: with the alarm's event, with the tag of a
finished operation, or by returning false. -/
inductive NextResult where
  | alarm (ok : Bool)
  | tag (id : ℕ) (ok : Bool)
  | shutdown
  deriving DecidableEq, Repr

namespace CompletionQueue

/-- Shut down, with every pending event delivered. -/
def drained (cq : CompletionQueue) : Bool :=
  cq.isShutdown && cq.alarms == 0 && cq.tags.isEmpty && cq.events.isEmpty

/-- `Alarm::Set`.  A drained queue takes no new work. -/
def set (cq : CompletionQueue) : Option CompletionQueue :=
  if cq.drained then none else some { cq with alarms := cq.alarms + 1 }

/-- An asynchronous call is begun with tag `id`. -/
def begin (cq : CompletionQueue) (id : ℕ) : Option CompletionQueue :=
  if cq.drained then none else some { cq with tags := id :: cq.tags }

/-- gRPC finishes the operation with tag `id`. -/
def finish (cq : CompletionQueue) (id : ℕ) (ok : Bool) : Option CompletionQueue :=
  if id ∈ cq.tags then
    some { cq with tags := cq.tags.erase id, events := cq.events ++ [(id, ok)] }
  else none

/-- `Next` ends with the result `r`. -/
def next (cq : CompletionQueue) : NextResult → Option CompletionQueue
  | .alarm _ => if 0 < cq.alarms then some { cq with alarms := cq.alarms - 1 } else none
  | .tag id ok =>
      if (id, ok) ∈ cq.events then some { cq with events := cq.events.erase (id, ok) } else none
  | .shutdown => if cq.drained then some cq else none

/-- `CompletionQueue::Shutdown`. -/
def shutdown (cq : CompletionQueue) : CompletionQueue := { cq with isShutdown := true }

theorem drained_iff {cq : CompletionQueue} :
    cq.drained = true ↔
      cq.isShutdown = true ∧ cq.alarms = 0 ∧ cq.tags = [] ∧ cq.events = [] := by
  simp [drained, and_assoc]

end CompletionQueue

end Agrpc
