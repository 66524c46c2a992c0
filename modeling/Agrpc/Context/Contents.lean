/-
Agrpc/Context/Contents.lean

What a context's members can hold.  `OnlyHolds P x`: every operation in a queue
of the context `x`, handed to gRPC under its completion queue, or named by its
`event_`, satisfies `P`.  The member functions make no operation up: what they
are given and what the context held is all it holds afterwards.
-/
import Agrpc.Context.GrpcContext

namespace Agrpc

/-- Every operation the context holds satisfies `P`. -/
structure OnlyHolds (P : OperationBase → Prop) (x : GrpcContext) : Prop where
  localQueue : ∀ op ∈ x.localQueue, P op
  remoteQueue : ∀ op ∈ x.remoteQueue.items, P op
  tags : ∀ id ∈ x.completionQueue.tags, P (.operation id)
  events : ∀ ev ∈ x.completionQueue.events, P (.operation ev.1)
  event : ∀ id, x.event.tag = some id → P (.operation id)

namespace OnlyHolds

variable {P : OperationBase → Prop} {x y : GrpcContext}

theorem init : OnlyHolds P {} := by
  constructor <;> intro _ h
  · exact absurd h List.not_mem_nil
  · exact absurd h List.not_mem_nil
  · exact absurd h List.not_mem_nil
  · exact absurd h List.not_mem_nil
  · cases h

theorem scheduleLocal (h : OnlyHolds P x) {op : OperationBase} (hop : P op) :
    OnlyHolds P (x.scheduleLocal op) := by
  refine ⟨?_, h.remoteQueue, h.tags, h.events, h.event⟩
  intro q hq
  rcases List.mem_append.mp hq with hq | hq
  · exact h.localQueue q hq
  · rw [List.mem_singleton.mp hq]
    exact hop

theorem enqueueRemote (h : OnlyHolds P x) {op : OperationBase} (hop : P op) :
    OnlyHolds P (x.enqueueRemote op).2 := by
  refine ⟨h.localQueue, ?_, h.tags, h.events, h.event⟩
  intro q hq
  have hq' : q ∈ (x.remoteQueue.enqueue op).2.items := hq
  rw [AtomicQueue.items_enqueue, List.mem_append, List.mem_singleton] at hq'
  rcases hq' with hq' | rfl
  · exact h.remoteQueue q hq'
  · exact hop

theorem signalRemoteQueue (h : OnlyHolds P x) (hy : x.signalRemoteQueue = some y) :
    OnlyHolds P y := by
  simp only [GrpcContext.signalRemoteQueue, CompletionQueue.set, Option.map_eq_some_iff,
    Option.ite_none_left_eq_some, Option.some.injEq] at hy
  obtain ⟨cq, ⟨-, rfl⟩, rfl⟩ := hy
  exact ⟨h.localQueue, h.remoteQueue, h.tags, h.events, h.event⟩

theorem invokeRpc (h : OnlyHolds P x) {id : ℕ} (hid : P (.operation id))
    (hy : x.invokeRpc id = some y) : OnlyHolds P y := by
  simp only [GrpcContext.invokeRpc, CompletionQueue.begin, Option.map_eq_some_iff,
    Option.ite_none_left_eq_some, Option.some.injEq] at hy
  obtain ⟨cq, ⟨-, rfl⟩, rfl⟩ := hy
  refine ⟨h.localQueue, h.remoteQueue, ?_, h.events, h.event⟩
  intro k hk
  rcases List.mem_cons.mp hk with rfl | hk
  · exact hid
  · exact h.tags k hk

theorem finish (h : OnlyHolds P x) {id : ℕ} {ok : Bool} {cq : CompletionQueue}
    (hq : x.completionQueue.finish id ok = some cq) :
    OnlyHolds P { x with completionQueue := cq } := by
  simp only [CompletionQueue.finish, Option.ite_none_right_eq_some, Option.some.injEq] at hq
  obtain ⟨hid, rfl⟩ := hq
  refine ⟨h.localQueue, h.remoteQueue, ?_, ?_, h.event⟩
  · intro k hk
    exact h.tags k (List.mem_of_mem_erase hk)
  · intro ev hev
    rcases List.mem_append.mp hev with hev | hev
    · exact h.events ev hev
    · rw [List.mem_singleton.mp hev]
      exact h.tags id hid

theorem shutdown (h : OnlyHolds P x) :
    OnlyHolds P { x with completionQueue := x.completionQueue.shutdown } :=
  ⟨h.localQueue, h.remoteQueue, h.tags, h.events, h.event⟩

theorem dispatchEvent (h : OnlyHolds P x) : OnlyHolds P x.dispatchEvent.1 := by
  unfold GrpcContext.dispatchEvent
  split
  · exact ⟨h.localQueue, h.remoteQueue, h.tags, h.events, h.event⟩
  next id hid => exact h.scheduleLocal (h.event id hid)

theorem tryScheduleRemoteQueuedItems (h : OnlyHolds P x) {submitted : Bool}
    {items : List OperationBase}
    (hy : x.tryScheduleRemoteQueuedItems = some (submitted, y, items)) : OnlyHolds P y := by
  obtain ⟨⟨queued, q⟩, hq, heq⟩ := Option.map_eq_some_iff.mp hy
  obtain ⟨-, hitems, hempty, -⟩ := AtomicQueue.tryMarkInactiveOrDequeueAll_cases hq
  have hremote : ∀ op ∈ q.items, P op := by
    rw [hempty]
    intro op hop
    exact absurd hop List.not_mem_nil
  simp only at heq
  split at heq
  · obtain ⟨-, heq⟩ := Prod.mk.inj heq
    obtain ⟨rfl, -⟩ := Prod.mk.inj heq
    exact ⟨h.localQueue, hremote, h.tags, h.events, h.event⟩
  · obtain ⟨-, heq⟩ := Prod.mk.inj heq
    obtain ⟨rfl, -⟩ := Prod.mk.inj heq
    refine ⟨?_, hremote, h.tags, h.events, h.event⟩
    intro op hop
    rcases List.mem_append.mp hop with hop | hop
    · exact h.localQueue op hop
    · apply h.remoteQueue op
      rw [hitems]
      exact hop

/-- The loop makes no operation up: a batch is what `local_queue_` held. -/
theorem runImplStep (h : OnlyHolds P x) {stop : Bool} {pc pc' : LoopPc} {e : List Observation}
    (hs : runImplStep x stop pc = some (y, pc', e)) :
    OnlyHolds P y ∧ ∀ op ∈ pc'.batch, P op := by
  have hnone : ∀ op ∈ ([] : List OperationBase), P op :=
    fun op hop => absurd hop List.not_mem_nil
  cases pc with
  | registered | executing | callNext | exited => cases hs
  | loopTop =>
    simp only [Agrpc.runImplStep] at hs
    split at hs
    · obtain ⟨rfl, rfl, -⟩ := by simpa using hs
      exact ⟨h, hnone⟩
    · obtain ⟨rfl, rfl, -⟩ := by simpa using hs
      exact ⟨⟨hnone, h.remoteQueue, h.tags, h.events, h.event⟩, h.localQueue⟩
  | draining pending =>
    cases pending with
    | nil =>
      obtain ⟨rfl, rfl, -⟩ := by simpa [Agrpc.runImplStep] using hs
      exact ⟨h, hnone⟩
    | cons item rest => cases hs
  | checkStop =>
    obtain ⟨rfl, rfl, -⟩ := by simpa [Agrpc.runImplStep] using hs
    refine ⟨h, ?_⟩
    cases stop <;> exact hnone
  | checkRemote =>
    obtain ⟨rfl, rfl, -⟩ := by simpa [Agrpc.runImplStep] using hs
    refine ⟨h, ?_⟩
    split <;> exact hnone
  | dequeueRemote =>
    obtain ⟨⟨submitted, z, items⟩, hz, heq⟩ := Option.map_eq_some_iff.mp hs
    obtain ⟨rfl, rfl, -⟩ := by simpa using heq
    exact ⟨h.tryScheduleRemoteQueuedItems hz, hnone⟩
  | assignSubmitted submitted =>
    obtain ⟨rfl, rfl, -⟩ := by simpa [Agrpc.runImplStep] using hs
    exact ⟨⟨h.localQueue, h.remoteQueue, h.tags, h.events, h.event⟩, hnone⟩
  | gotEvent =>
    obtain ⟨rfl, rfl, -⟩ := by simpa [Agrpc.runImplStep] using hs
    exact ⟨h.dispatchEvent, hnone⟩

/-- Nor does `Next`: `event_` names an operation that was handed to gRPC. -/
theorem runImplNext (h : OnlyHolds P x) {r : NextResult} {pc : LoopPc} {e : List Observation}
    (hs : runImplNext x r = some (y, pc, e)) : OnlyHolds P y ∧ pc.batch = [] := by
  obtain ⟨cq, hcq, heq⟩ := Option.map_eq_some_iff.mp hs
  cases r with
  | alarm ok =>
    simp only [CompletionQueue.next, Option.ite_none_right_eq_some, Option.some.injEq] at hcq
    obtain ⟨-, rfl⟩ := hcq
    obtain ⟨rfl, rfl, -⟩ := by simpa using heq
    refine ⟨⟨h.localQueue, h.remoteQueue, h.tags, h.events, ?_⟩, rfl⟩
    intro id hid
    cases hid
  | tag k ok =>
    simp only [CompletionQueue.next, Option.ite_none_right_eq_some, Option.some.injEq] at hcq
    obtain ⟨hk, rfl⟩ := hcq
    obtain ⟨rfl, rfl, -⟩ := by simpa using heq
    refine ⟨⟨h.localQueue, h.remoteQueue, h.tags, ?_, ?_⟩, rfl⟩
    · intro ev hev
      exact h.events ev (List.mem_of_mem_erase hev)
    · intro id hid
      obtain rfl : k = id := Option.some.inj hid
      exact h.events (k, ok) hk
  | shutdown =>
    simp only [CompletionQueue.next, Option.ite_none_right_eq_some, Option.some.injEq] at hcq
    obtain ⟨-, rfl⟩ := hcq
    obtain ⟨rfl, rfl, -⟩ := by simpa using heq
    exact ⟨⟨h.localQueue, h.remoteQueue, h.tags, h.events, h.event⟩, rfl⟩

end OnlyHolds

end Agrpc
