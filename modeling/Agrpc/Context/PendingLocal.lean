/-
Agrpc/Context/PendingLocal.lean

`ExecutePendingLocal` on the links of `local_queue_`
(`agrpc/context/grpc_context.cc`).  The model of the loop has the queue as a
list; here it is what it is in memory, because user code runs in the middle of
the drain and can write to the very links that the drain reads.

An `execute_` function is what it does to memory and to `local_queue_`: a
finite list of effects.  `calls i` is what the `i`-th call of such a function
does, so the theorems are about every behaviour.  Accesses to an operation's
fields by `ExecutePendingLocal` itself are reported.

A result is missing if the fuel runs out, or where the code would access an
object that is not there; `executePendingLocal_spec` says that neither happens.
-/
import Agrpc.Context.GrpcContext
import Agrpc.Lib.IntrusiveQueue

namespace Agrpc

open Intrusive

/-! ### User code -/

/-- `local_queue_` and the `next_` fields of the operations, by address. -/
structure LocalState where
  localQueue : Queue ℕ := {}
  memory : Links ℕ

/-- What user code does. -/
inductive Effect where
  /-- an operation is constructed, which leaves its `next_` as it is -/
  | construct (op : ℕ) (next : Option ℕ)
  | destroy (op : ℕ)
  /-- `ScheduleLocal(OperationBase*)` -/
  | scheduleLocal (op : ℕ)
  /-- `ScheduleLocal(OperationQueue)`, with a queue of these operations -/
  | scheduleLocalQueue (ops : List ℕ)
  deriving DecidableEq, Repr

/-- The operations an effect pushes on `local_queue_`. -/
def Effect.pushes : Effect → List ℕ
  | scheduleLocal op => [op]
  | scheduleLocalQueue ops => ops
  | construct _ _ | destroy _ => []

namespace LocalState

/-- The objects that exist. -/
def alive (s : LocalState) (op : ℕ) : Bool := (s.memory op).isSome

def scheduleLocal (s : LocalState) (op : ℕ) : Option LocalState :=
  (s.localQueue.pushBack op s.memory).map fun (q, m) => { localQueue := q, memory := m }

def scheduleLocalQueue (s : LocalState) (ops : Queue ℕ) : Option LocalState :=
  (s.localQueue.append ops s.memory).map fun (q, m) => { localQueue := q, memory := m }

def perform (s : LocalState) : Effect → Option LocalState
  | .construct op next =>
      if s.alive op then none
      else some { s with memory := Function.update s.memory op (some next) }
  | .destroy op =>
      if s.alive op then some { s with memory := Function.update s.memory op none } else none
  | .scheduleLocal op => s.scheduleLocal op
  | .scheduleLocalQueue ops =>
      (Queue.pushAll {} ops s.memory).bind fun (q, m) =>
        { s with memory := m }.scheduleLocalQueue q

/-- One call of an `execute_` function. -/
def performAll (s : LocalState) : List Effect → Option LocalState
  | [] => some s
  | e :: es => (s.perform e).bind fun s => s.performAll es

end LocalState

/-! ### The drain -/

/-- What `ExecutePendingLocal` does with an operation. -/
inductive Access where
  /-- `pop_front` reads `next_` -/
  | readNext (op : ℕ)
  | readExecute (op : ℕ)
  /-- `execute_(item)` is called -/
  | call (op : ℕ)
  deriving DecidableEq, Repr

def Access.op : Access → ℕ
  | readNext op | readExecute op | call op => op

def Access.called? : Access → Option ℕ
  | call op => some op
  | readNext _ | readExecute _ => none

/-- The accesses to one item of the batch. -/
def accesses (op : ℕ) : List Access := [.readNext op, .readExecute op, .call op]

/-- The loop over `pending`, after `i` calls. -/
def drainPending (calls : ℕ → List Effect) :
    ℕ → ℕ → Queue ℕ → LocalState → Option (LocalState × List Access)
  | fuel, i, pending, s =>
      if pending.isEmpty then some (s, [])
      else match fuel with
        | 0 => none
        | fuel + 1 =>
            (pending.popFront s.memory).bind fun (item, pending) =>
              if s.alive item then
                (s.performAll (calls i)).bind fun s =>
                  (drainPending calls fuel (i + 1) pending s).map fun (s, trace) =>
                    (s, accesses item ++ trace)
              else none

/-- `ExecutePendingLocal`; the move leaves `local_queue_` empty. -/
def executePendingLocal (calls : ℕ → List Effect) (fuel : ℕ) (s : LocalState) :
    Option (LocalState × List Access) :=
  if s.localQueue.isEmpty then some (s, [])
  else drainPending calls fuel 0 s.localQueue { s with localQueue := {} }

/-! ### What the operations may do -/

/-- What an effect does to which objects exist. -/
def Effect.aliveAfter (alive : ℕ → Bool) : Effect → ℕ → Bool
  | construct op _ => Function.update alive op true
  | destroy op => Function.update alive op false
  | scheduleLocal _ | scheduleLocalQueue _ => alive

/-- An effect is allowed while `waiting` is the rest of the batch and `pushed`
has been pushed: it pushes objects that exist and are not waiting, and it
destroys none that is waiting or has been pushed. -/
def Effect.allowed (waiting pushed : List ℕ) (alive : ℕ → Bool) : Effect → Bool
  | construct op _ => !alive op
  | destroy op => alive op && decide (op ∉ waiting) && decide (op ∉ pushed)
  | scheduleLocal op => alive op && decide (op ∉ waiting)
  | scheduleLocalQueue ops => ops.all fun op => alive op && decide (op ∉ waiting)

/-- What a call pushes. -/
def pushesOf (es : List Effect) : List ℕ := es.flatMap Effect.pushes

def aliveAfterAll (alive : ℕ → Bool) (es : List Effect) : ℕ → Bool :=
  es.foldl Effect.aliveAfter alive

def allAllowed (waiting : List ℕ) : List ℕ → (ℕ → Bool) → List Effect → Bool
  | _, _, [] => true
  | pushed, alive, e :: es =>
      e.allowed waiting pushed alive &&
        allAllowed waiting (pushed ++ e.pushes) (e.aliveAfter alive) es

/-- The calls made for the batch, from the `i`-th on, do what they may. -/
def behaves (calls : ℕ → List Effect) : ℕ → List ℕ → List ℕ → (ℕ → Bool) → Bool
  | _, [], _, _ => true
  | i, _ :: waiting, pushed, alive =>
      allAllowed waiting pushed alive (calls i) &&
        behaves calls (i + 1) waiting (pushed ++ pushesOf (calls i))
          (aliveAfterAll alive (calls i))

/-- What the calls `i`, ..., `i + k - 1` push, in order. -/
def pushedFrom (calls : ℕ → List Effect) : ℕ → ℕ → List ℕ
  | _, 0 => []
  | i, k + 1 => pushesOf (calls i) ++ pushedFrom calls (i + 1) k

/-- An object that is constructed or destroyed. -/
theorem LocalState.alive_update (s : LocalState) (op : ℕ) (l : Option (Option ℕ)) :
    ({ s with memory := Function.update s.memory op l } : LocalState).alive
      = Function.update s.alive op l.isSome := by
  funext x
  show (Function.update s.memory op l x).isSome = _
  by_cases hx : x = op
  · rw [hx, Function.update_self, Function.update_self]
  · rw [Function.update_of_ne hx, Function.update_of_ne hx]
    rfl

/-! ### The invariant of the drain -/

/-- `pending` still holds `waiting`, and `local_queue_` has the ends of what
has been pushed, and its links too if nothing was pushed twice. -/
structure Draining (s : LocalState) (pending : Queue ℕ) (waiting pushed : List ℕ) : Prop where
  pending : pending.Holds s.memory waiting
  ends : s.localQueue.Ends pushed
  alive : ∀ x ∈ pushed, (s.memory x).isSome = true
  apart : ∀ x ∈ pushed, x ∉ waiting
  linked : pushed.Nodup → Seg s.memory s.localQueue.head pushed none

namespace Draining

variable {s : LocalState} {pending : Queue ℕ} {waiting pushed : List ℕ}

/-- What is not waiting and not in `local_queue_` can change. -/
theorem update (h : Draining s pending waiting pushed) {op : ℕ} (hw : op ∉ waiting)
    (hp : op ∉ pushed) (l : Option (Option ℕ)) :
    Draining { s with memory := Function.update s.memory op l } pending waiting pushed := by
  have hsame : ∀ ys : List ℕ, op ∉ ys → ∀ x ∈ ys, Function.update s.memory op l x = s.memory x := by
    intro ys hys x hx
    rw [Function.update_of_ne]
    rintro rfl
    exact hys hx
  refine ⟨⟨h.pending.ends, h.pending.linked.congr (hsame waiting hw)⟩, h.ends, ?_, h.apart, ?_⟩
  · intro x hx
    show (Function.update s.memory op l x).isSome = true
    rw [hsame pushed hp x hx]
    exact h.alive x hx
  · intro hnodup
    exact (h.linked hnodup).congr (hsame pushed hp)

/-- `local_queue_` takes the items `ops`, whatever their links. -/
theorem push (h : Draining s pending waiting pushed) (ops : List ℕ) {q : Queue ℕ} {m : Links ℕ}
    (hops : ∀ x ∈ ops, (s.memory x).isSome = true ∧ x ∉ waiting) (hends : q.Ends (pushed ++ ops))
    (hframe : Frame s.memory m (pushed ++ ops))
    (hlinked : (pushed ++ ops).Nodup → Seg m q.head (pushed ++ ops) none) :
    Draining { localQueue := q, memory := m } pending waiting (pushed ++ ops) where
  pending := ⟨h.pending.ends, h.pending.linked.congr fun x hx => hframe.same x fun hmem => by
    rcases List.mem_append.mp hmem with hmem | hmem
    · exact h.apart x hmem hx
    · exact (hops x hmem).2 hx⟩
  ends := hends
  alive x hx := by
    show (m x).isSome = true
    rw [hframe.alive]
    rcases List.mem_append.mp hx with hx | hx
    · exact h.alive x hx
    · exact (hops x hx).1
  apart x hx := by
    rcases List.mem_append.mp hx with hx | hx
    · exact h.apart x hx
    · exact (hops x hx).2
  linked := hlinked

/-- **One effect of user code**, if it is allowed. -/
theorem perform (h : Draining s pending waiting pushed) {e : Effect}
    (he : e.allowed waiting pushed s.alive = true) :
    ∃ s', s.perform e = some s' ∧ Draining s' pending waiting (pushed ++ e.pushes) ∧
      s'.alive = e.aliveAfter s.alive := by
  cases e with
  | construct op next =>
    have hdead : s.alive op = false := by simpa [Effect.allowed] using he
    have hno : ∀ ys : List ℕ, (∀ x ∈ ys, (s.memory x).isSome = true) → op ∉ ys := by
      intro ys hys hmem
      rw [LocalState.alive, hys op hmem] at hdead
      cases hdead
    refine ⟨_, if_neg (Bool.eq_false_iff.mp hdead), ?_, ?_⟩
    · rw [Effect.pushes, List.append_nil]
      exact h.update (hno waiting h.pending.linked.alive) (hno pushed h.alive) (some next)
    · exact s.alive_update op (some next)
  | destroy op =>
    obtain ⟨⟨hlive, hw⟩, hp⟩ : (s.alive op = true ∧ op ∉ waiting) ∧ op ∉ pushed := by
      simpa [Effect.allowed] using he
    refine ⟨_, if_pos hlive, ?_, ?_⟩
    · rw [Effect.pushes, List.append_nil]
      exact h.update hw hp none
    · exact s.alive_update op none
  | scheduleLocal op =>
    obtain ⟨hlive, hw⟩ : s.alive op = true ∧ op ∉ waiting := by
      simpa [Effect.allowed] using he
    obtain ⟨q, m, hpush, hends, hframe, hlinked⟩ := Queue.pushBack_spec h.ends h.alive hlive
    refine ⟨{ localQueue := q, memory := m }, ?_, ?_, ?_⟩
    · rw [LocalState.perform, LocalState.scheduleLocal, hpush, Option.map_some]
    · refine h.push [op] ?_ hends hframe ?_
      · intro x hx
        rw [List.mem_singleton.mp hx]
        exact ⟨hlive, hw⟩
      · intro hnodup
        have hnd := List.nodup_append.mp hnodup
        exact hlinked (h.linked hnd.1) fun hmem =>
          hnd.2.2 op hmem op (List.mem_singleton_self op) rfl
    · funext x
      exact hframe.alive x
  | scheduleLocalQueue ops =>
    have hops : ∀ x ∈ ops, (s.memory x).isSome = true ∧ x ∉ waiting := by
      simpa [Effect.allowed, LocalState.alive] using he
    -- the queue of `ops` is built first, then it is appended
    have hnew : Queue.Ends ({} : Queue ℕ) [] := ⟨rfl, rfl⟩
    obtain ⟨q₁, m₁, hbuild, hends₁, hframe₁, hlinked₁⟩ :=
      Queue.pushAll_spec hnew (fun _ hy => absurd hy List.not_mem_nil) fun x hx => (hops x hx).1
    rw [List.nil_append] at hends₁ hframe₁ hlinked₁
    have halive₁ : ∀ x ∈ pushed, (m₁ x).isSome = true := by
      intro x hx
      rw [hframe₁.alive]
      exact h.alive x hx
    obtain ⟨q, m, happ, hends, hframe, hlinked⟩ := Queue.append_spec h.ends hends₁ halive₁
    have hall : Frame s.memory m (pushed ++ ops) :=
      (hframe₁.mono (List.subset_append_right _ _)).trans
        (hframe.mono (List.subset_append_left _ _))
    refine ⟨{ localQueue := q, memory := m }, ?_, ?_, ?_⟩
    · rw [LocalState.perform, hbuild, Option.bind_some]
      show (Queue.append _ _ _).map _ = _
      rw [happ, Option.map_some]
    · apply h.push ops hops hends hall
      intro hnodup
      have hnd := List.nodup_append.mp hnodup
      have hseg := (h.linked hnd.1).congr fun x hx => hframe₁.same x fun hmem =>
        hnd.2.2 x hx x hmem rfl
      exact hlinked hseg (hlinked₁ rfl hnd.2.1) hnodup
    · funext x
      exact hall.alive x

/-- One call of an `execute_` function. -/
theorem performAll (h : Draining s pending waiting pushed) {es : List Effect}
    (hes : allAllowed waiting pushed s.alive es = true) :
    ∃ s', s.performAll es = some s' ∧ Draining s' pending waiting (pushed ++ pushesOf es) ∧
      s'.alive = aliveAfterAll s.alive es := by
  induction es generalizing s pushed with
  | nil =>
    refine ⟨s, rfl, ?_, rfl⟩
    rwa [pushesOf, List.flatMap_nil, List.append_nil]
  | cons e es ih =>
    rw [allAllowed, Bool.and_eq_true] at hes
    obtain ⟨s₁, hs₁, hd₁, halive₁⟩ := h.perform hes.1
    rw [← halive₁] at hes
    obtain ⟨s', hs', hd', halive'⟩ := ih hd₁ hes.2
    refine ⟨s', ?_, ?_, ?_⟩
    · rw [LocalState.performAll, hs₁, Option.bind_some, hs']
    · rwa [pushesOf, List.flatMap_cons, ← List.append_assoc]
    · rw [halive', halive₁]
      rfl

/-- The next item is popped before it is executed. -/
theorem popFront {x : ℕ} (h : Draining s pending (x :: waiting) pushed) :
    ∃ pending', pending.popFront s.memory = some (x, pending') ∧ s.alive x = true ∧
      Draining s pending' waiting pushed := by
  obtain ⟨pending', hpop, hpending⟩ := Queue.popFront_spec h.pending
  refine ⟨pending', hpop, h.pending.linked.alive x List.mem_cons_self, hpending, h.ends,
    h.alive, ?_, h.linked⟩
  intro y hy hmem
  exact h.apart y hy (List.mem_cons_of_mem x hmem)

end Draining

theorem drainPending_done {calls : ℕ → List Effect} {pending : Queue ℕ}
    (h : pending.isEmpty = true) (fuel i : ℕ) (s : LocalState) :
    drainPending calls fuel i pending s = some (s, []) := by
  cases fuel <;> exact if_pos h

/-- One iteration of the loop. -/
theorem drainPending_pop {calls : ℕ → List Effect} {pending pending' : Queue ℕ}
    {s s₁ s' : LocalState} {trace : List Access} {x fuel i : ℕ}
    (h : pending.isEmpty = false) (hpop : pending.popFront s.memory = some (x, pending'))
    (hlive : s.alive x = true) (hcall : s.performAll (calls i) = some s₁)
    (hrest : drainPending calls fuel (i + 1) pending' s₁ = some (s', trace)) :
    drainPending calls (fuel + 1) i pending s = some (s', accesses x ++ trace) := by
  rw [drainPending, if_neg (Bool.eq_false_iff.mp h)]
  simp only [hpop, Option.bind_some, hlive, if_true, hcall, hrest, Option.map_some]

/-- **The loop** executes what is waiting, in order, and ends. -/
theorem drainPending_spec {calls : ℕ → List Effect} {waiting pushed : List ℕ} {s : LocalState}
    {pending : Queue ℕ} (h : Draining s pending waiting pushed) {i fuel : ℕ}
    (hbehaves : behaves calls i waiting pushed s.alive = true) (hfuel : waiting.length ≤ fuel) :
    ∃ s', drainPending calls fuel i pending s = some (s', waiting.flatMap accesses) ∧
      ∃ pending', Draining s' pending' [] (pushed ++ pushedFrom calls i waiting.length) := by
  induction waiting generalizing s pending pushed i fuel with
  | nil =>
    have hempty : pending.isEmpty = true := by
      rw [Queue.isEmpty, h.pending.ends.head]
      rfl
    refine ⟨s, drainPending_done hempty fuel i s, pending, ?_⟩
    rwa [List.length_nil, pushedFrom, List.append_nil]
  | cons x waiting ih =>
    rw [behaves, Bool.and_eq_true] at hbehaves
    obtain ⟨pending₁, hpop, hlive, hd₁⟩ := h.popFront
    obtain ⟨s₁, hs₁, hd₂, halive₁⟩ := hd₁.performAll hbehaves.1
    rw [← halive₁] at hbehaves
    cases fuel with
    | zero => exact absurd hfuel (Nat.not_succ_le_zero _)
    | succ fuel =>
      obtain ⟨s', hs', pending', hd'⟩ := ih hd₂ hbehaves.2 (Nat.le_of_succ_le_succ hfuel)
      have hne : pending.isEmpty = false := by
        rw [Queue.isEmpty, h.pending.ends.head]
        rfl
      refine ⟨s', drainPending_pop hne hpop hlive hs₁ hs', pending', ?_⟩
      rw [List.length_cons, pushedFrom, ← List.append_assoc]
      exact hd'

/-- **What `ExecutePendingLocal` does**: it ends, its accesses are those to the
batch in queue order, and `local_queue_` has what was pushed meanwhile. -/
theorem executePendingLocal_run {calls : ℕ → List Effect} {s : LocalState} {batch : List ℕ}
    (hq : s.localQueue.Holds s.memory batch)
    (hbehaves : behaves calls 0 batch [] s.alive = true) {fuel : ℕ} (hfuel : batch.length ≤ fuel) :
    ∃ s', executePendingLocal calls fuel s = some (s', batch.flatMap accesses) ∧
      ∃ pending', Draining s' pending' [] (pushedFrom calls 0 batch.length) := by
  have hnew : Queue.Ends ({} : Queue ℕ) [] := ⟨rfl, rfl⟩
  have hstart : Draining { s with localQueue := {} } s.localQueue batch [] :=
    ⟨hq, hnew, fun _ hx => absurd hx List.not_mem_nil, fun _ hx => absurd hx List.not_mem_nil,
      fun _ => rfl⟩
  cases hempty : s.localQueue.isEmpty with
  | true =>
    obtain rfl : batch = [] := by
      rw [Queue.isEmpty, hq.ends.head] at hempty
      simpa using hempty
    refine ⟨s, if_pos hempty, {}, ⟨hnew, rfl⟩, hq.ends, ?_, ?_, fun _ => hq.linked⟩
    · exact fun _ hx => absurd hx List.not_mem_nil
    · exact fun _ hx => absurd hx List.not_mem_nil
  | false =>
    obtain ⟨s', hrun, pending', hd⟩ := drainPending_spec hstart hbehaves hfuel
    refine ⟨s', ?_, pending', hd⟩
    rw [executePendingLocal, if_neg (Bool.eq_false_iff.mp hempty), hrun]

/-! ### Accesses -/

theorem called_accesses (batch : List ℕ) :
    (batch.flatMap accesses).filterMap Access.called? = batch := by
  induction batch with
  | nil => rfl
  | cons x batch ih =>
    rw [List.flatMap_cons, List.filterMap_append, ih]
    rfl

theorem op_mem_of_accesses {batch : List ℕ} {a : Access} (ha : a ∈ batch.flatMap accesses) :
    a.op ∈ batch := by
  obtain ⟨x, hx, ha⟩ := List.mem_flatMap.mp ha
  have hop : a.op = x := by
    simp only [accesses, List.mem_cons, List.not_mem_nil, or_false] at ha
    rcases ha with rfl | rfl | rfl <;> rfl
  rwa [hop]

/-- An operation that was called is not accessed again. -/
theorem accesses_pairwise {batch : List ℕ} (h : batch.Nodup) :
    (batch.flatMap accesses).Pairwise fun a b => ∀ x, a = .call x → b.op ≠ x := by
  induction batch with
  | nil => exact List.Pairwise.nil
  | cons y batch ih =>
    obtain ⟨hy, hbatch⟩ := List.nodup_cons.mp h
    rw [List.flatMap_cons, List.pairwise_append]
    refine ⟨by simp [accesses], ih hbatch, ?_⟩
    rintro a ha b hb x rfl heq
    have hxy : x = y := by simpa [accesses] using ha
    exact hy (hxy ▸ heq ▸ op_mem_of_accesses hb)

/-! ### The contract -/

/-- **`ExecutePendingLocal` does a bounded batch.**  Whatever is queued, and
whatever the operations do as long as they push objects that exist and are not
waiting in the batch, and destroy none that is waiting or was pushed:

* it ends, and calls exactly the operations that were queued, each once and in
  queue order;
* it accesses no operation after it has called it;
* `local_queue_` is a well-formed list of exactly the operations pushed
  meanwhile, in push order, if and only if none was pushed twice. -/
theorem executePendingLocal_spec {calls : ℕ → List Effect} {s : LocalState} {batch : List ℕ}
    (hq : s.localQueue.Holds s.memory batch)
    (hbehaves : behaves calls 0 batch [] s.alive = true) {fuel : ℕ} (hfuel : batch.length ≤ fuel) :
    ∃ s' trace, executePendingLocal calls fuel s = some (s', trace) ∧
      (trace.filterMap Access.called? = batch ∧ batch.Nodup) ∧
      (trace.Pairwise fun a b => ∀ x, a = .call x → b.op ≠ x) ∧
      (s'.localQueue.Holds s'.memory (pushedFrom calls 0 batch.length) ↔
        (pushedFrom calls 0 batch.length).Nodup) := by
  obtain ⟨s', hrun, pending', hd⟩ := executePendingLocal_run hq hbehaves hfuel
  have hnodup := hq.linked.nodup
  refine ⟨s', _, hrun, ⟨called_accesses batch, hnodup⟩, accesses_pairwise hnodup, ?_⟩
  constructor
  · exact fun h => h.linked.nodup
  · exact fun h => ⟨hd.ends, hd.linked h⟩

/-- Operations `1` and `2` are queued; `3`, `4` and `5` exist. -/
def twoQueued : LocalState where
  localQueue := { head := some 1, tail := some 2 }
  memory op :=
    if op = 1 then some (some 2)
    else if op = 2 ∨ op = 3 ∨ op = 4 ∨ op = 5 then some none else none

theorem twoQueued_holds : twoQueued.localQueue.Holds twoQueued.memory [1, 2] :=
  ⟨⟨rfl, rfl⟩, rfl, some 2, rfl, rfl, none, rfl, rfl⟩

/-- The first operation queues itself again and `3`; the second destroys itself
and appends a queue of `4` and `5`. -/
def twoCalls : ℕ → List Effect
  | 0 => [.scheduleLocal 1, .scheduleLocal 3]
  | _ => [.destroy 2, .scheduleLocalQueue [4, 5]]

theorem executePendingLocal_spec_twoQueued :
    ∃ s' trace, executePendingLocal twoCalls 2 twoQueued = some (s', trace) ∧
      trace.filterMap Access.called? = [1, 2] ∧
      s'.localQueue.Holds s'.memory [1, 3, 4, 5] := by
  have hbehaves : behaves twoCalls 0 [1, 2] [] twoQueued.alive = true := by decide
  have hfuel : [1, 2].length ≤ 2 := Nat.le_refl 2
  obtain ⟨s', trace, hrun, ⟨hcalled, -⟩, -, hholds⟩ :=
    executePendingLocal_spec twoQueued_holds hbehaves hfuel
  exact ⟨s', trace, hrun, hcalled, hholds.mpr (by decide)⟩

/-- **Without the conditions it does not.**  An operation that queues itself
twice leaves a `local_queue_` that is no list of what was pushed, and one that
queues and destroys itself a dangling pointer, through which the next push
writes. -/
theorem not_executePendingLocal :
    (∃ s' trace, executePendingLocal (fun i =>
        if i = 0 then [.scheduleLocal 1, .scheduleLocal 1] else []) 2 twoQueued
          = some (s', trace) ∧
      ¬ s'.localQueue.Holds s'.memory [1, 1]) ∧
    executePendingLocal (fun i =>
        if i = 0 then [.scheduleLocal 1, .destroy 1] else [.scheduleLocal 3]) 2 twoQueued
      = none := by
  refine ⟨⟨_, _, rfl, ?_⟩, rfl⟩
  intro h
  exact absurd h.linked.nodup (by decide)

/-! ### The queue of the loop's model -/

/-- `local_queue_` in memory is the list in the model of the loop, with the
operations at their addresses. -/
def LocalState.Represents (s : LocalState) (address : OperationBase → ℕ) (c : GrpcContext) :
    Prop :=
  s.localQueue.Holds s.memory (c.localQueue.map address)

section Represents

variable {s : LocalState} {address : OperationBase → ℕ} {c : GrpcContext}

/-- `ScheduleLocal` in memory is `scheduleLocal`. -/
theorem LocalState.Represents.scheduleLocal (h : s.Represents address c)
    (haddress : Function.Injective address) {op : OperationBase}
    (hlive : s.alive (address op) = true) (hnew : op ∉ c.localQueue) :
    ∃ s', s.scheduleLocal (address op) = some s' ∧ s'.Represents address (c.scheduleLocal op) := by
  obtain ⟨q, m, hpush, hends, -, hlinked⟩ := Queue.pushBack_spec h.ends h.linked.alive hlive
  have hnot : address op ∉ c.localQueue.map address := by
    rwa [List.mem_map_of_injective haddress]
  refine ⟨{ localQueue := q, memory := m }, ?_, ?_⟩
  · rw [LocalState.scheduleLocal, hpush, Option.map_some]
  · show Queue.Holds m q ((c.localQueue ++ [op]).map address)
    rw [List.map_append]
    exact ⟨hends, hlinked h.linked hnot⟩

/-- `ExecutePendingLocal` in memory calls the batch that the loop of the model
takes, and leaves what was scheduled meanwhile. -/
theorem LocalState.Represents.executePendingLocal (h : s.Represents address c)
    (haddress : Function.Injective address) {calls : ℕ → List Effect} {ops : List OperationBase}
    (hbehaves : behaves calls 0 (c.localQueue.map address) [] s.alive = true)
    (hops : pushedFrom calls 0 c.localQueue.length = ops.map address) (hnodup : ops.Nodup)
    {fuel : ℕ} (hfuel : c.localQueue.length ≤ fuel) :
    ∃ s' trace, executePendingLocal calls fuel s = some (s', trace) ∧
      trace.filterMap Access.called? = c.localQueue.map address ∧
      s'.Represents address ({ c with localQueue := [] }.scheduleLocalQueue ops) := by
  have hlen : (c.localQueue.map address).length = c.localQueue.length := List.length_map _
  rw [← hlen] at hfuel hops
  obtain ⟨s', hrun, pending', hd⟩ := executePendingLocal_run h hbehaves hfuel
  rw [hops] at hd
  exact ⟨s', _, hrun, called_accesses _, hd.ends, hd.linked (hnodup.map haddress)⟩

end Represents

end Agrpc
