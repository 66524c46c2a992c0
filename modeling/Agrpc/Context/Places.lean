/-
Agrpc/Context/Places.lean

Where the operations are.

An operation has one `next_` link and one `execute_` pointer, and passes
through two queues, the batches of the active `Run` calls, gRPC and its
receiver's code.  `timesAt s id q` counts how often it occurs at the place `q`
in the state `s`; `Placed s id p` says that the counts, the pointer and the
flags are those of the phase `p` of its life cycle.

`placed_of_exec` is the refinement: the history of every run is, for every
operation, a run of the life cycle that ends in the phase the state shows.
`lifeCycle` is what follows.
-/
import Agrpc.Context.LifeCycle

namespace Agrpc

open Interleaving

/-- Where an operation can be. -/
inductive Place where
  /-- in `remote_queue_` -/
  | remoteQueue
  /-- in `local_queue_` or in a batch of `ExecutePendingLocal` -/
  | localQueue
  /-- gRPC holds its tag, or `event_` does on its way back -/
  | grpc
  /-- its completion is being executed -/
  | receiver
  | finished
  deriving DecidableEq, Repr

/-- The place of an operation in each phase. -/
def Phase.place : Phase → Option Place
  | idle => none
  | travelling => some .remoteQueue
  | scheduled | completed => some .localQueue
  | submitted | returned => some .grpc
  | delivering _ => some .receiver
  | finished => some .finished

/-- The operation whose receiver is running, and the result it was given. -/
def LoopPc.receiving : LoopPc → List (ℕ × Result)
  | executing id result _ => [(id, result)]
  | _ => []

namespace State

/-! ### Counting -/

/-- The batches of all active `Run` calls. -/
def batches (s : State) : List OperationBase := s.frames.flatMap fun f => f.pc.batch

/-- The running receivers, innermost first. -/
def receiving (s : State) : List (ℕ × Result) := s.frames.flatMap fun f => f.pc.receiving

/-- The tag `Next` has returned, until it is scheduled. -/
def tagInHand (s : State) : Option ℕ :=
  if s.pc? = some .gotEvent then s.context.event.tag else none

/-- How often `op` is linked in `remote_queue_`. -/
def inRemote (s : State) (op : OperationBase) : ℕ := s.context.remoteQueue.items.count op

/-- How often `op` is linked in `local_queue_` and the batches. -/
def inLocal (s : State) (op : OperationBase) : ℕ :=
  s.context.localQueue.count op + s.batches.count op

/-- How often gRPC, or `event_`, holds the tag `id`. -/
def atGrpc (s : State) (id : ℕ) : ℕ :=
  s.context.completionQueue.tags.count id
    + (s.context.completionQueue.events.map Prod.fst).count id + s.tagInHand.toList.count id

/-- How often operation `id` occurs at each place. -/
def timesAt (s : State) (id : ℕ) : Place → ℕ
  | .remoteQueue => s.inRemote (.operation id)
  | .localQueue => s.inLocal (.operation id)
  | .grpc => s.atGrpc id
  | .receiver => (s.receiving.map Prod.fst).count id
  | .finished => (s.ops id).finished.toNat

/-- What an operation in phase `p` looks like. -/
structure Placed (s : State) (id : ℕ) (p : Phase) : Prop where
  places : ∀ q, s.timesAt id q = if p.place = some q then 1 else 0
  inHand : s.tagInHand = some id ↔ p = .returned
  receiving : ∀ r, (id, r) ∈ s.receiving → p = .delivering r
  execute : (s.ops id).execute = p.execute
  started : (s.ops id).started = p.execute.isSome
  destroyed : (s.ops id).destroyed = true → p.delivered = true

/-- The step does not concern operation `id`. -/
structure SameFor (s s' : State) (id : ℕ) : Prop where
  places : ∀ q, s'.timesAt id q = s.timesAt id q
  inHand : s'.tagInHand = some id ↔ s.tagInHand = some id
  receiving : ∀ r, (id, r) ∈ s'.receiving → (id, r) ∈ s.receiving
  ops : s'.ops id = s.ops id

theorem SameFor.trans {s s₁ s' : State} {id : ℕ} (h₁ : SameFor s s₁ id)
    (h₂ : SameFor s₁ s' id) : SameFor s s' id where
  places q := (h₂.places q).trans (h₁.places q)
  inHand := h₂.inHand.trans h₁.inHand
  receiving r hr := h₁.receiving r (h₂.receiving r hr)
  ops := h₂.ops.trans h₁.ops

theorem Placed.congr {s s' : State} {id : ℕ} {p : Phase} (h : Placed s id p)
    (hs : SameFor s s' id) : Placed s' id p where
  places q := by rw [hs.places, h.places]
  inHand := hs.inHand.trans h.inHand
  receiving r hr := h.receiving r (hs.receiving r hr)
  execute := by rw [hs.ops, h.execute]
  started := by rw [hs.ops, h.started]
  destroyed := by
    rw [hs.ops]
    exact h.destroyed

/-- An operation that occurs at a place is in a phase with that place. -/
theorem Placed.place_eq {s : State} {id : ℕ} {p : Phase} (h : Placed s id p) {q : Place}
    (hq : 0 < s.timesAt id q) : p.place = some q := by
  by_contra hne
  rw [h.places, if_neg hne] at hq
  exact Nat.lt_irrefl 0 hq

theorem placed_init (id : ℕ) : Placed {} id .idle where
  places q := by cases q <;> rfl
  inHand := by simp [tagInHand, pc?]
  receiving := by simp [receiving]
  execute := rfl
  started := rfl
  destroyed := by simp

/-! ### Steps that do not concern an operation -/

/-- The lists an operation can occur in are the same. -/
theorem sameFor_of_eq {s s' : State} {id : ℕ}
    (hq : s'.context.remoteQueue.items = s.context.remoteQueue.items)
    (hl : s'.context.localQueue = s.context.localQueue) (hb : s'.batches = s.batches)
    (hr : s'.receiving = s.receiving) (ht : s'.tagInHand = s.tagInHand)
    (hg : s'.context.completionQueue.tags = s.context.completionQueue.tags)
    (he : s'.context.completionQueue.events = s.context.completionQueue.events)
    (ho : s'.ops id = s.ops id) : SameFor s s' id where
  places q := by
    cases q <;> simp only [timesAt, inRemote, inLocal, atGrpc, hb, hr, ht, hq, hl, hg, he, ho]
  inHand := by rw [ht]
  receiving r := by
    rw [hr]
    exact fun h => h
  ops := ho

/-- Moving the innermost call between program points that hold the same batch
and run the same receiver. -/
theorem sameFor_goto {s s' : State} {f : RunFrame} {fs : List RunFrame} {pc : LoopPc} {id : ℕ}
    (hf : s.frames = f :: fs) (hf' : s'.frames = f.goto pc :: fs)
    (hb : pc.batch = f.pc.batch) (hr : pc.receiving = f.pc.receiving)
    (ht : s'.tagInHand = s.tagInHand)
    (hq : s'.context.remoteQueue.items = s.context.remoteQueue.items)
    (hl : s'.context.localQueue = s.context.localQueue)
    (hg : s'.context.completionQueue.tags = s.context.completionQueue.tags)
    (he : s'.context.completionQueue.events = s.context.completionQueue.events)
    (ho : s'.ops id = s.ops id) : SameFor s s' id := by
  refine sameFor_of_eq hq hl ?_ ?_ ht hg he ho
  · simp [batches, hf, hf', hb]
  · simp [receiving, hf, hf', hr]

/-- Marking frames moves nothing. -/
theorem batches_map {s s' : State} {g : RunFrame → RunFrame} (hpc : ∀ f, (g f).pc = f.pc)
    (hf : s'.frames = s.frames.map g) : s'.batches = s.batches := by
  simp only [batches, hf, List.flatMap_map, hpc]

theorem receiving_map {s s' : State} {g : RunFrame → RunFrame} (hpc : ∀ f, (g f).pc = f.pc)
    (hf : s'.frames = s.frames.map g) : s'.receiving = s.receiving := by
  simp only [receiving, hf, List.flatMap_map, hpc]

theorem tagInHand_map {s s' : State} {g : RunFrame → RunFrame} (hpc : ∀ f, (g f).pc = f.pc)
    (hf : s'.frames = s.frames.map g) (he : s'.context.event = s.context.event) :
    s'.tagInHand = s.tagInHand := by
  simp only [tagInHand, pc?_map hpc hf, he]

/-- The lists after the innermost call has returned. -/
theorem tagInHand_leave {s : State} (hF : FramesOk s) {f : RunFrame} {fs : List RunFrame}
    (hf : s.frames = f :: fs) : tagInHand { s with frames := fs } = none := by
  rcases hF.pc?_leave hf with hp | ⟨id, r, rest, hp⟩ <;> simp [tagInHand, hp]

/-- Taking a pair out of a list takes its first component out of the firsts. -/
theorem count_fst_erase {l : List (ℕ × Bool)} {k : ℕ} {ok : Bool} (h : (k, ok) ∈ l) (id : ℕ) :
    (l.map Prod.fst).count id
      = ((l.erase (k, ok)).map Prod.fst).count id + if k = id then 1 else 0 := by
  have hperm := (List.perm_cons_erase h).map Prod.fst
  rw [hperm.count_eq, List.map_cons, List.count_cons]
  simp

/-- Moving the innermost call where operation `id` occurs as often after the step
as before, in the queues and the batch together, at gRPC, and in the receiver. -/
theorem sameFor_goto_count {s s' : State} {f : RunFrame} {fs : List RunFrame} {pc : LoopPc}
    {id : ℕ} (hf : s.frames = f :: fs) (hf' : s'.frames = f.goto pc :: fs)
    (hq : s'.inRemote (.operation id) = s.inRemote (.operation id))
    (hl : s'.context.localQueue.count (.operation id) + pc.batch.count (.operation id)
      = s.context.localQueue.count (.operation id) + f.pc.batch.count (.operation id))
    (hg : s'.atGrpc id = s.atGrpc id) (ht : s'.tagInHand = some id ↔ s.tagInHand = some id)
    (hr : ∀ r, (id, r) ∈ pc.receiving → (id, r) ∈ f.pc.receiving)
    (hn : (pc.receiving.map Prod.fst).count id = (f.pc.receiving.map Prod.fst).count id)
    (ho : s'.ops id = s.ops id) : SameFor s s' id where
  places q := by
    cases q with
    | remoteQueue => exact hq
    | localQueue =>
      simp only [timesAt, inLocal, batches, hf, hf', List.flatMap_cons, List.count_append,
        RunFrame.goto_pc]
      omega
    | grpc => exact hg
    | receiver =>
      simp only [timesAt, State.receiving, hf, hf', List.flatMap_cons, List.map_append,
        List.count_append, RunFrame.goto_pc, hn]
    | finished => exact congrArg (fun o => o.finished.toNat) ho
  inHand := ht
  receiving r hm := by
    simp only [State.receiving, hf, hf', List.flatMap_cons, List.mem_append,
      RunFrame.goto_pc] at hm ⊢
    exact hm.imp_left (hr r)
  ops := ho

/-- Marking frames leaves the operations of senders where they are. -/
theorem sameFor_map {s s' : State} {g : RunFrame → RunFrame} {id : ℕ}
    (hpc : ∀ f, (g f).pc = f.pc) (hf : s'.frames = s.frames.map g)
    (hq : s'.inRemote (.operation id) = s.inRemote (.operation id))
    (hl : s'.context.localQueue.count (.operation id)
      = s.context.localQueue.count (.operation id))
    (hg : s'.context.completionQueue = s.context.completionQueue)
    (he : s'.context.event = s.context.event) (ho : s'.ops = s.ops) : SameFor s s' id := by
  have hb : s'.batches = s.batches := batches_map hpc hf
  have hr : s'.receiving = s.receiving := receiving_map hpc hf
  have ht : s'.tagInHand = s.tagInHand := tagInHand_map hpc hf he
  refine ⟨fun q => ?_, by rw [ht], fun r => ?_, by rw [ho]⟩
  · cases q <;> simp only [timesAt, inLocal, atGrpc, hq, hl, hb, hr, ht, hg, ho]
  · rw [hr]
    exact fun hm => hm

/-! ### Steps of another operation -/

section Other

variable {s : State} {id k : ℕ} {f : RunFrame} {fs : List RunFrame} {rest : List OperationBase}

theorem rpcStarted_ops_of_ne (hk : k ≠ id) : (s.rpcStarted k).ops id = s.ops id := by
  show (s.setExecute k .onRequestComplete).ops id = s.ops id
  rw [setExecute_ops, if_neg hk.symm]

/-- `StartAsyncRPC` of operation `k`. -/
theorem sameFor_rpcStarted (hk : k ≠ id) : SameFor s (s.rpcStarted k) id := by
  refine ⟨fun q => ?_, Iff.rfl, fun r h => h, rpcStarted_ops_of_ne hk⟩
  cases q with
  | grpc =>
    show (k :: s.context.completionQueue.tags).count id + _ + _ = s.atGrpc id
    rw [List.count_cons_of_ne hk]
    rfl
  | finished => exact congrArg (fun o => o.finished.toNat) (rpcStarted_ops_of_ne hk)
  | _ => rfl

/-- `OnScheduleComplete` of operation `k`. -/
theorem sameFor_executeSchedule (hf : s.frames = f :: fs)
    (hpc : f.pc = .draining (.operation k :: rest)) (hk : k ≠ id) :
    SameFor s { s.rpcStarted k with frames := f.goto (.draining rest) :: fs } id := by
  refine sameFor_goto_count hf rfl rfl ?_ ?_ ?_ ?_ ?_ (rpcStarted_ops_of_ne hk)
  · simp [LoopPc.batch, rpcStarted, hpc, hk]
  · simp [atGrpc, tagInHand, pc?, rpcStarted, hf, hpc, hk]
  · simp [tagInHand, pc?, hf, hpc]
  · simp [LoopPc.receiving]
  · simp [LoopPc.receiving, hpc]

/-- `OnRequestComplete` of operation `k`, up to its `set_value`. -/
theorem sameFor_executeRequest {r : Result} (hf : s.frames = f :: fs)
    (hpc : f.pc = .draining (.operation k :: rest)) (hk : k ≠ id) :
    SameFor s { s with frames := f.goto (.executing k r rest) :: fs } id := by
  refine sameFor_goto_count hf rfl rfl ?_ ?_ ?_ ?_ ?_ rfl
  · simp [LoopPc.batch, hpc, hk]
  · simp [atGrpc, tagInHand, pc?, hf, hpc]
  · simp [tagInHand, pc?, hf, hpc]
  · simp [LoopPc.receiving, hk.symm]
  · simp [LoopPc.receiving, hpc, hk]

/-- The receiver of operation `k` is given an error after all. -/
theorem sameFor_setValueThrows {r r' : Result} (hf : s.frames = f :: fs)
    (hpc : f.pc = .executing k r rest) (hk : k ≠ id) :
    SameFor s { s with frames := f.goto (.executing k r' rest) :: fs } id := by
  refine sameFor_goto_count hf rfl rfl ?_ ?_ ?_ ?_ ?_ rfl
  · simp [LoopPc.batch, hpc]
  · simp [atGrpc, tagInHand, pc?, hf, hpc]
  · simp [tagInHand, pc?, hf, hpc]
  · simp [LoopPc.receiving, hk.symm]
  · simp [LoopPc.receiving, hpc]

/-- The receiver of operation `k` returns. -/
theorem sameFor_receiverReturns {r : Result} (hf : s.frames = f :: fs)
    (hpc : f.pc = .executing k r rest) (hk : k ≠ id) :
    SameFor s
      { s with
        frames := f.goto (.draining rest) :: fs
        ops := Function.update s.ops k { s.ops k with finished := true } } id := by
  refine sameFor_goto_count hf rfl rfl ?_ ?_ ?_ ?_ ?_ (Function.update_of_ne hk.symm _ _)
  · simp [LoopPc.batch, hpc]
  · simp [atGrpc, tagInHand, pc?, hf, hpc]
  · simp [tagInHand, pc?, hf, hpc]
  · simp [LoopPc.receiving]
  · simp [LoopPc.receiving, hpc, hk]

/-- `TryScheduleRemoteQueuedItems` moves other operations. -/
theorem sameFor_dequeueAll {xs : List OperationBase} (hf : s.frames = f :: fs)
    (hpc : f.pc = .dequeueRemote) (hq : s.context.remoteQueue = .active xs)
    (hno : .operation id ∉ xs) :
    SameFor s
      { s with
        context := { s.context with
          remoteQueue := .active []
          localQueue := s.context.localQueue ++ xs }
        frames := f.goto (.assignSubmitted false) :: fs } id := by
  have hcount := List.count_eq_zero_of_not_mem hno
  refine sameFor_goto_count hf rfl ?_ ?_ ?_ ?_ ?_ ?_ rfl
  · simp [inRemote, hq, AtomicQueue.items, hcount]
  · simp [LoopPc.batch, hpc, hcount]
  · simp [atGrpc, tagInHand, pc?, hf, hpc]
  · simp [tagInHand, pc?, hf, hpc]
  · simp [LoopPc.receiving]
  · simp [LoopPc.receiving, hpc]

/-- `Next` returns the tag of operation `k`. -/
theorem sameFor_nextTag {ok : Bool} (hf : s.frames = f :: fs) (hpc : f.pc = .callNext)
    (he : (k, ok) ∈ s.context.completionQueue.events) (hk : k ≠ id) :
    SameFor s
      { s with
        context := { s.context with
          completionQueue := { s.context.completionQueue with
            events := s.context.completionQueue.events.erase (k, ok) }
          event := ⟨some k, ok⟩ }
        frames := f.goto .gotEvent :: fs } id := by
  have hcount := count_fst_erase he id
  refine sameFor_goto_count hf rfl rfl ?_ ?_ ?_ ?_ ?_ rfl
  · simp [LoopPc.batch, hpc]
  · simp [atGrpc, tagInHand, pc?, hf, hpc, hk, hcount]
  · simp [tagInHand, pc?, hf, hpc, hk]
  · simp [LoopPc.receiving]
  · simp [LoopPc.receiving, hpc]

/-- The tag of operation `k` is scheduled. -/
theorem sameFor_dispatchTag (hf : s.frames = f :: fs) (hpc : f.pc = .gotEvent)
    (ht : s.context.event.tag = some k) (hk : k ≠ id) :
    SameFor s
      { s with
        context := { s.context with
          localQueue := s.context.localQueue ++ [.operation k] }
        frames := f.goto .loopTop :: fs } id := by
  refine sameFor_goto_count hf rfl rfl ?_ ?_ ?_ ?_ ?_ rfl
  · simp [LoopPc.batch, hpc, hk]
  · simp [atGrpc, tagInHand, pc?, hf, hpc, ht, hk]
  · simp [tagInHand, pc?, hf, hpc, ht, hk]
  · simp [LoopPc.receiving]
  · simp [LoopPc.receiving, hpc]

/-- Operation `k` is started from outside. -/
theorem sameFor_startRemote (hk : k ≠ id) : SameFor s (s.startRemote k) id := by
  have hops : (s.startRemote k).ops id = s.ops id := by
    rw [startRemote, scheduleRemote_ops, setExecute_ops, if_neg hk.symm]
  refine ⟨fun q => ?_, Iff.rfl, fun r h => h, hops⟩
  cases q with
  | remoteQueue => simp [timesAt, inRemote, startRemote, hk]
  | finished => exact congrArg (fun o => o.finished.toNat) hops
  | _ => rfl

/-- gRPC finishes operation `k`, which may be `id`: its tag becomes an event. -/
theorem sameFor_finishRpc {ok : Bool} (ht : k ∈ s.context.completionQueue.tags) :
    SameFor s
      { s with
        context := { s.context with
          completionQueue := { s.context.completionQueue with
            tags := s.context.completionQueue.tags.erase k
            events := s.context.completionQueue.events ++ [(k, ok)] } } } id := by
  refine ⟨fun q => ?_, Iff.rfl, fun r h => h, rfl⟩
  cases q with
  | grpc =>
    have hpos := List.count_pos_iff.mpr ht
    by_cases hk : k = id
    · subst hk
      simp only [timesAt, atGrpc, List.map_append, List.map_cons, List.map_nil,
        List.count_append, List.count_singleton_self, List.count_erase_self]
      show _ + _ + (s.tagInHand.toList.count k) = _
      omega
    · have hk' : id ≠ k := fun h => hk h.symm
      simp only [timesAt, atGrpc, List.map_append, List.map_cons, List.map_nil,
        List.count_append, List.count_erase_of_ne hk']
      simp [hk]
      rfl
  | _ => rfl

end Other

/-- The step with observations `e` concerns operation `id`. -/
def Moves (id : ℕ) (a : Action) (e : List Observation) : Prop :=
  (∃ o ∈ e, o.concerns id = true) ∨ a = .destroy id

/-- **A step that does not concern an operation leaves it where it is.** -/
theorem sameFor_of_step {s s' : State} {a : Action} {e : List Observation} {id : ℕ}
    (hF : FramesOk s) (hs : Step s a s' e) (hno : ¬ Moves id a e) : SameFor s s' id := by
  simp only [Moves, not_or, not_exists, not_and, Bool.not_eq_true] at hno
  obtain ⟨hobs, hact⟩ := hno
  -- an operation the step concerns is another one
  have hother : ∀ k, ∀ o ∈ e, o.concerns k = true → k ≠ id := by
    rintro k o ho hc rfl
    exact Bool.false_ne_true ((hobs o ho).symm.trans hc)
  cases hs with
  | run hr =>
    refine sameFor_of_eq rfl rfl ?_ ?_ ?_ rfl rfl rfl
    · simp [batches, LoopPc.batch]
    · simp [receiving, LoopPc.receiving]
    · rcases hr with hr | hr
      · simp [tagInHand, pc?, hr]
      · obtain ⟨k, r, rest, hpc⟩ := inReceiver_iff.mp hr
        rw [tagInHand, tagInHand, hpc]
        simp [pc?]
  | leave hf hpc =>
    refine sameFor_of_eq rfl rfl ?_ ?_ ?_ rfl rfl rfl
    · simp [batches, LoopPc.batch, hf, hpc]
    · simp [receiving, LoopPc.receiving, hf, hpc]
    · rw [tagInHand_leave hF hf]
      simp [tagInHand, pc?, hf, hpc]
  | enter hf hpc | nothingPending hf hpc | batchDone hf hpc | stopSeen hf hpc
  | stopNotSeen hf hpc | readSubmitted hf hpc | readNotSubmitted hf hpc | assign hf hpc
  | nextAlarm hf hpc | nextShutdown hf hpc | dispatchAlarm hf hpc =>
    refine sameFor_goto hf rfl ?_ ?_ ?_ rfl rfl rfl rfl rfl <;>
      simp [LoopPc.batch, LoopPc.receiving, tagInHand, pc?, *]
  | markInactive hf hpc hq =>
    refine sameFor_goto hf rfl ?_ ?_ ?_ ?_ rfl rfl rfl rfl <;>
      simp [hpc, LoopPc.batch, LoopPc.receiving, tagInHand, pc?, hf, hq, AtomicQueue.items]
  | signal | shutDown => exact sameFor_of_eq rfl rfl rfl rfl rfl rfl rfl rfl
  | takeBatch hf hpc =>
    -- the batch was `local_queue_`
    refine sameFor_goto_count hf rfl rfl ?_ ?_ ?_ ?_ ?_ rfl <;>
      simp [LoopPc.batch, LoopPc.receiving, atGrpc, tagInHand, pc?, hf, hpc]
  | @executeStop f fs run rest hf hpc =>
    -- the stop operation leaves the batch, and its frame is marked
    have hstop : SameFor s { s with frames := f.goto (.draining rest) :: fs } id := by
      refine sameFor_goto_count hf rfl rfl ?_ ?_ ?_ ?_ ?_ rfl <;>
        simp [LoopPc.batch, LoopPc.receiving, atGrpc, tagInHand, pc?, hf, hpc]
    exact hstop.trans (sameFor_map (fun f => f.seeStop_pc run) rfl rfl rfl rfl rfl rfl)
  | @requestStop run =>
    refine sameFor_map (fun f => f.requestStop_pc run) rfl ?_ rfl rfl rfl rfl
    simp [inRemote, stopRemote]
  | @requestStopOnLoop run =>
    refine sameFor_map (fun f => f.requestStop_pc run) rfl rfl ?_ rfl rfl rfl
    simp [stopLocal, GrpcContext.scheduleLocal]
  | finishRpc ht => exact sameFor_finishRpc ht
  | setValueThrows hf hpc =>
    exact sameFor_setValueThrows hf hpc (hother _ _ List.mem_cons_self (beq_self_eq_true _))
  | destroy =>
    have hk : id ≠ _ := fun h => hact (h ▸ rfl)
    exact sameFor_of_eq rfl rfl rfl rfl rfl rfl rfl (Function.update_of_ne hk _ _)
  | executeSchedule hf hpc =>
    exact sameFor_executeSchedule hf hpc (hother _ _ List.mem_cons_self (beq_self_eq_true _))
  | executeRequest hf hpc =>
    exact sameFor_executeRequest hf hpc (hother _ _ List.mem_cons_self (beq_self_eq_true _))
  | receiverReturns hf hpc =>
    exact sameFor_receiverReturns hf hpc (hother _ _ List.mem_cons_self (beq_self_eq_true _))
  | dequeueAll hf hpc hq =>
    refine sameFor_dequeueAll hf hpc hq fun hm => ?_
    exact hother id _ (List.mem_map_of_mem hm) (by simp [Observation.concerns]) rfl
  | nextTag hf hpc he =>
    exact sameFor_nextTag hf hpc he (hother _ _ List.mem_cons_self (beq_self_eq_true _))
  | dispatchTag hf hpc ht =>
    exact sameFor_dispatchTag hf hpc ht (hother _ _ List.mem_cons_self (beq_self_eq_true _))
  | start => exact sameFor_startRemote (hother _ _ List.mem_cons_self (beq_self_eq_true _))
  | startOnLoop => exact sameFor_rpcStarted (hother _ _ List.mem_cons_self (beq_self_eq_true _))

/-! ### Steps that concern an operation -/

/-- An operation that leaves the place of `p` for that of `p'`. -/
theorem Placed.move {s s' : State} {id : ℕ} {p : Phase} (h : Placed s id p) (p' : Phase)
    (hm : ∀ q, s'.timesAt id q + (if p.place = some q then 1 else 0)
      = s.timesAt id q + if p'.place = some q then 1 else 0) (q : Place) :
    s'.timesAt id q = if p'.place = some q then 1 else 0 := by
  have := hm q
  rw [h.places q] at this
  omega

/-- An operation in the innermost batch is scheduled or completed. -/
theorem Placed.of_draining {s : State} {id : ℕ} {p : Phase} (h : Placed s id p) {f : RunFrame}
    {fs : List RunFrame} {rest : List OperationBase} (hf : s.frames = f :: fs)
    (hpc : f.pc = .draining (.operation id :: rest)) : p = .scheduled ∨ p = .completed := by
  have hplace : p.place = some .localQueue := by
    apply h.place_eq
    have hmem : OperationBase.operation id ∈ s.batches := by simp [batches, LoopPc.batch, hf, hpc]
    exact Nat.add_pos_right _ (List.count_pos_iff.mpr hmem)
  cases p <;> simp [Phase.place] at hplace ⊢

/-- The operation whose receiver runs in the innermost call. -/
theorem Placed.of_executing {s : State} {id : ℕ} {p : Phase} (h : Placed s id p) {f : RunFrame}
    {fs : List RunFrame} {r : Result} {rest : List OperationBase} (hf : s.frames = f :: fs)
    (hpc : f.pc = .executing id r rest) : p = .delivering r :=
  h.receiving r (by simp [State.receiving, LoopPc.receiving, hf, hpc])

theorem Placed.idle_of_not_started {s : State} {id : ℕ} {p : Phase} (h : Placed s id p)
    (hs : (s.ops id).started = false) : p = .idle := by
  have := h.started
  rw [hs] at this
  cases p <;> simp [Phase.execute] at this ⊢

theorem Placed.destroy {s : State} {id : ℕ} {p : Phase} (h : Placed s id p)
    (hc : (s.ops id).finished = true ∨ ∃ f ∈ s.frames, f.pc.executingId = some id) :
    Placed { s with ops := Function.update s.ops id { s.ops id with destroyed := true } } id p := by
  have hdel : p.delivered = true := by
    rcases hc with hc | ⟨f, hf, hid⟩
    · have hplace : p.place = some .finished := h.place_eq (by simp [timesAt, hc])
      cases p <;> simp [Phase.place, Phase.delivered] at hplace ⊢
    · cases hpc : f.pc <;> simp [hpc, LoopPc.executingId] at hid
      subst hid
      rw [h.receiving _ (List.mem_flatMap.mpr ⟨f, hf, by
        rw [hpc]
        exact List.mem_singleton_self _⟩)]
      rfl
  refine ⟨fun q => ?_, h.inHand, h.receiving, ?_, ?_, fun _ => hdel⟩
  · rw [← h.places q]
    cases q with
    | finished => simp [timesAt]
    | _ => rfl
  · simpa using h.execute
  · simpa using h.started

/-- `start()` on a thread that does not run the context. -/
theorem Placed.startRemote {s : State} {id : ℕ} (h : Placed s id .idle) :
    Placed (s.startRemote id) id .travelling := by
  have hops : (s.startRemote id).ops id
      = { s.ops id with execute := some .onScheduleComplete, started := true } := by
    simp [State.startRemote, setExecute_ops]
  refine ⟨h.move _ fun q => ?_, ?_, fun r hr => ?_, ?_, ?_, fun hd => ?_⟩
  · cases q with
    | remoteQueue => simp [timesAt, inRemote, State.startRemote, Phase.place]
    | finished =>
      show ((s.startRemote id).ops id).finished.toNat + _ = _
      rw [hops]
      rfl
    | _ => rfl
  · exact h.inHand.trans (by simp)
  · exact absurd (h.receiving r hr) (by simp)
  · rw [hops]
    rfl
  · rw [hops]
    rfl
  · rw [hops] at hd
    exact absurd (h.destroyed hd) (by simp [Phase.delivered])

/-- `StartAsyncRPC`: the operation leaves the batch it was in, if any, and
gRPC gets its tag. -/
theorem Placed.rpcStarted {s s' : State} {id : ℕ} {p : Phase} (h : Placed s id p)
    (hp : p = .idle ∨ p = .scheduled) (hops : s'.ops = (s.rpcStarted id).ops)
    (hq : s'.context.remoteQueue = s.context.remoteQueue)
    (hl : s'.inLocal (.operation id) + (if p.place = some .localQueue then 1 else 0)
      = s.inLocal (.operation id))
    (hg : s'.context.completionQueue = (s.rpcStarted id).context.completionQueue)
    (ht : s'.tagInHand = s.tagInHand) (hr : s'.receiving = s.receiving) :
    Placed s' id .submitted := by
  have hop : s'.ops id = { s.ops id with execute := some .onRequestComplete, started := true } := by
    rw [hops]
    show (s.setExecute id .onRequestComplete).ops id = _
    rw [setExecute_ops, if_pos rfl]
  refine ⟨h.move _ fun q => ?_, ?_, fun r hmem => ?_, ?_, ?_, fun hd => ?_⟩
  · cases q with
    | remoteQueue => rcases hp with rfl | rfl <;> simp [timesAt, inRemote, hq, Phase.place]
    | localQueue => exact hl
    | grpc =>
      rcases hp with rfl | rfl <;>
        simp [timesAt, atGrpc, hg, ht, State.rpcStarted, Phase.place, Nat.add_right_comm]
    | receiver => rcases hp with rfl | rfl <;> simp [timesAt, hr, Phase.place]
    | finished => rcases hp with rfl | rfl <;> simp [timesAt, hop, Phase.place]
  · rw [ht, h.inHand]
    rcases hp with rfl | rfl <;> simp
  · rw [hr] at hmem
    rcases hp with rfl | rfl <;> exact absurd (h.receiving r hmem) (by simp)
  · rw [hop]
    rfl
  · rw [hop]
    rfl
  · rw [hop] at hd
    rcases hp with rfl | rfl <;> exact absurd (h.destroyed hd) (by simp [Phase.delivered])

/-- The life cycle reads a dequeued batch. -/
theorem run_remote {id : ℕ} {xs : List OperationBase} {p : Phase}
    (h : p.place = some .remoteQueue ∧ xs.count (.operation id) = 1 ∨
      xs.count (.operation id) = 0) :
    p.run id (xs.map (.arrived .remote))
      = some (if xs.count (.operation id) = 1 then .scheduled else p) := by
  induction xs generalizing p with
  | nil => simp
  | cons x xs ih =>
    rw [List.map_cons, Phase.run_cons]
    by_cases hx : x = .operation id
    · subst hx
      have hp : p = .travelling := by
        rcases h with ⟨hp, -⟩ | hc
        · cases p <;> simp [Phase.place] at hp ⊢
        · simp at hc
      have hrest : xs.count (.operation id) = 0 := by
        rcases h with ⟨-, hc⟩ | hc
        · simpa using hc
        · simp at hc
      subst hp
      have hnext : Phase.travelling.next id (.arrived .remote (.operation id))
          = some .scheduled := by
        simp [Phase.next, Observation.concerns, Phase.follow]
      rw [hnext, Option.bind_some, ih (Or.inr hrest)]
      simp [hrest]
    · have hnext : p.next id (.arrived .remote x) = some p := by
        simp [Phase.next, Observation.concerns, hx]
      rw [hnext, Option.bind_some, ih (by simpa [List.count_cons_of_ne hx] using h),
        List.count_cons_of_ne hx]

/-- `OnRequestComplete` gives the receiver the value in `event_`. -/
theorem Placed.deliver {s : State} {id : ℕ} (h : Placed s id .completed) {f : RunFrame}
    {fs : List RunFrame} {rest : List OperationBase} (hf : s.frames = f :: fs)
    (hpc : f.pc = .draining (.operation id :: rest)) (r : Result) :
    Placed { s with frames := f.goto (.executing id r rest) :: fs } id (.delivering r) := by
  refine ⟨h.move _ fun q => ?_, ?_, fun r' hr => ?_, h.execute, h.started, fun _ => rfl⟩
  · cases q with
    | localQueue =>
      simp only [timesAt, inLocal, batches, hf, List.flatMap_cons, hpc, LoopPc.batch, Phase.place,
        RunFrame.goto_pc, List.cons_append, List.count_cons_self]
      simp [Nat.add_assoc]
    | _ =>
      simp [timesAt, inRemote, atGrpc, State.receiving, LoopPc.receiving, tagInHand, pc?, hf, hpc,
        Phase.place]
  · simp [tagInHand, pc?]
  · have hcases : r' = r ∨ (id, r') ∈ fs.flatMap fun g => g.pc.receiving := by
      simpa [State.receiving, LoopPc.receiving] using hr
    rcases hcases with rfl | hmem
    · rfl
    · exact absurd (h.receiving r' (by simpa [State.receiving, hf] using Or.inr hmem)) (by simp)

/-- The other calls do not run the receiver the innermost one runs. -/
theorem Placed.not_receiving_outer {s : State} {id : ℕ} {p : Phase} (h : Placed s id p)
    {f : RunFrame} {fs : List RunFrame} {r : Result} {rest : List OperationBase}
    (hf : s.frames = f :: fs) (hpc : f.pc = .executing id r rest) (r' : Result) :
    (id, r') ∉ fs.flatMap fun g => g.pc.receiving := by
  intro hmem
  have hrecv : s.receiving = (id, r) :: fs.flatMap fun g => g.pc.receiving := by
    simp [State.receiving, hf, hpc, LoopPc.receiving]
  have hone : (s.receiving.map Prod.fst).count id = 1 := by
    have := h.places .receiver
    rwa [h.of_executing hf hpc] at this
  rw [hrecv, List.map_cons, List.count_cons_self] at hone
  have hpos : 0 < ((fs.flatMap fun g => g.pc.receiving).map Prod.fst).count id :=
    List.count_pos_iff.mpr (List.mem_map.mpr ⟨(id, r'), hmem, rfl⟩)
  omega

theorem Placed.throw {s : State} {id : ℕ} {p : Phase} (h : Placed s id p) {f : RunFrame}
    {fs : List RunFrame} {r : Result} {rest : List OperationBase} (hf : s.frames = f :: fs)
    (hpc : f.pc = .executing id r rest) (r' : Result) :
    Placed { s with frames := f.goto (.executing id r' rest) :: fs } id (.delivering r') := by
  have hout := h.not_receiving_outer hf hpc
  obtain rfl := h.of_executing hf hpc
  refine ⟨h.move _ fun q => ?_, ?_, fun r'' hr => ?_, h.execute, h.started, fun _ => rfl⟩
  · cases q <;> simp [timesAt, inRemote, inLocal, atGrpc, batches, State.receiving, LoopPc.batch,
      LoopPc.receiving, tagInHand, pc?, hf, hpc, Phase.place]
  · simp [tagInHand, pc?]
  · have hcases : r'' = r' ∨ (id, r'') ∈ fs.flatMap fun g => g.pc.receiving := by
      simpa [State.receiving, LoopPc.receiving] using hr
    rcases hcases with rfl | hmem
    · rfl
    · exact absurd hmem (hout r'')

/-- The receiver returns. -/
theorem Placed.finish {s : State} {id : ℕ} {p : Phase} (h : Placed s id p) {f : RunFrame}
    {fs : List RunFrame} {r : Result} {rest : List OperationBase} (hf : s.frames = f :: fs)
    (hpc : f.pc = .executing id r rest) :
    Placed { s with
      frames := f.goto (.draining rest) :: fs
      ops := Function.update s.ops id { s.ops id with finished := true } } id .finished := by
  have hout := h.not_receiving_outer hf hpc
  obtain rfl := h.of_executing hf hpc
  have hfin : (s.ops id).finished = false := by
    simpa [timesAt, Phase.place] using h.places .finished
  refine ⟨h.move _ fun q => ?_, ?_, fun r' hr => ?_, ?_, ?_, fun _ => rfl⟩
  · cases q <;> simp [timesAt, inRemote, inLocal, atGrpc, batches, State.receiving, LoopPc.batch,
      LoopPc.receiving, tagInHand, pc?, hf, hpc, Phase.place, hfin]
  · simp [tagInHand, pc?]
  · have hmem : (id, r') ∈ fs.flatMap fun g => g.pc.receiving := by
      simpa [State.receiving, LoopPc.receiving] using hr
    exact absurd hmem (hout r')
  · simpa [Phase.execute] using h.execute
  · simpa [Phase.execute] using h.started

/-- `Next` returns the tag. -/
theorem Placed.nextTag {s : State} {id : ℕ} {p : Phase} {ok : Bool} (h : Placed s id p)
    {f : RunFrame} {fs : List RunFrame} (hf : s.frames = f :: fs) (hpc : f.pc = .callNext)
    (he : (id, ok) ∈ s.context.completionQueue.events) {s' : State}
    (hs' : s' = { s with
      context := { s.context with
        completionQueue := { s.context.completionQueue with
          events := s.context.completionQueue.events.erase (id, ok) }
        event := ⟨some id, ok⟩ }
      frames := f.goto .gotEvent :: fs }) :
    p = .submitted ∧ Placed s' id .returned := by
  have hnone : s.tagInHand = none := by simp [tagInHand, pc?, hf, hpc]
  have hp : p = .submitted := by
    have hmem : id ∈ s.context.completionQueue.events.map Prod.fst :=
      List.mem_map.mpr ⟨(id, ok), he, rfl⟩
    have hplace : p.place = some .grpc := by
      apply h.place_eq
      have := List.count_pos_iff.mpr hmem
      simp only [timesAt, atGrpc]
      omega
    have hne : p ≠ .returned := by
      rw [ne_eq, ← h.inHand, hnone]
      simp
    cases p <;> simp [Phase.place] at hplace hne ⊢
  subst hp hs'
  refine ⟨rfl, h.move _ fun q => ?_, ?_, fun r hr => ?_, h.execute, h.started, fun hd => ?_⟩
  · cases q with
    | grpc =>
      have := count_fst_erase he id
      simp [timesAt, atGrpc, tagInHand, pc?, hf, hpc, this, Phase.place, Nat.add_assoc]
    | _ =>
      simp [timesAt, inRemote, inLocal, batches, State.receiving, LoopPc.batch, LoopPc.receiving,
        hf, hpc, Phase.place]
  · simp [tagInHand, pc?]
  · exact absurd (h.receiving r (by simpa [State.receiving, LoopPc.receiving, hf, hpc] using hr))
      (by simp)
  · exact absurd (h.destroyed hd) (by simp [Phase.delivered])

/-- `AcquireCompletionQueueItems` schedules the tag in `event_`. -/
theorem Placed.dispatch {s : State} {id : ℕ} {p : Phase} (h : Placed s id p) {f : RunFrame}
    {fs : List RunFrame} (hf : s.frames = f :: fs) (hpc : f.pc = .gotEvent)
    (ht : s.context.event.tag = some id) {s' : State}
    (hs' : s' = { s with
      context := { s.context with localQueue := s.context.localQueue ++ [.operation id] }
      frames := f.goto .loopTop :: fs }) :
    p = .returned ∧ Placed s' id .completed := by
  obtain rfl : p = .returned := h.inHand.mp (by simp [tagInHand, pc?, hf, hpc, ht])
  subst hs'
  refine ⟨rfl, h.move _ fun q => ?_, ?_, fun r hr => ?_, h.execute, h.started, fun hd => ?_⟩
  · cases q <;> simp [timesAt, inRemote, inLocal, atGrpc, batches, State.receiving, LoopPc.batch,
      LoopPc.receiving, tagInHand, pc?, hf, hpc, ht, Phase.place, Nat.add_right_comm]
  · simp [tagInHand, pc?]
  · exact absurd (h.receiving r (by simpa [State.receiving, LoopPc.receiving, hf, hpc] using hr))
      (by simp)
  · exact absurd (h.destroyed hd) (by simp [Phase.delivered])

/-- `TryScheduleRemoteQueuedItems` moves the batch the operation travels in. -/
theorem Placed.dequeue {s : State} {id : ℕ} {p : Phase} (h : Placed s id p) {f : RunFrame}
    {fs : List RunFrame} {xs : List OperationBase} (hf : s.frames = f :: fs)
    (hpc : f.pc = .dequeueRemote) (hq : s.context.remoteQueue = .active xs)
    (hmem : .operation id ∈ xs) {s' : State}
    (hs' : s' = { s with
      context := { s.context with
        remoteQueue := .active []
        localQueue := s.context.localQueue ++ xs }
      frames := f.goto (.assignSubmitted false) :: fs }) :
    p = .travelling ∧ xs.count (.operation id) = 1 ∧ Placed s' id .scheduled := by
  have hcount : s.timesAt id .remoteQueue = xs.count (.operation id) := by
    simp [timesAt, inRemote, hq, AtomicQueue.items]
  have hplace : p.place = some .remoteQueue :=
    h.place_eq (by rw [hcount]; exact List.count_pos_iff.mpr hmem)
  obtain rfl : p = .travelling := by cases p <;> simp [Phase.place] at hplace ⊢
  have hone : xs.count (.operation id) = 1 := by
    rw [← hcount, h.places]
    rfl
  subst hs'
  refine ⟨rfl, hone, h.move _ fun q => ?_, ?_, fun r hr => ?_, h.execute, h.started, fun hd => ?_⟩
  · cases q <;> simp [timesAt, inRemote, inLocal, atGrpc, batches, State.receiving, LoopPc.batch,
      LoopPc.receiving, tagInHand, pc?, hf, hpc, hq, AtomicQueue.items, hone, Phase.place,
      Nat.add_right_comm]
  · simp [tagInHand, pc?]
  · exact absurd (h.receiving r (by simpa [State.receiving, LoopPc.receiving, hf, hpc] using hr))
      (by simp)
  · exact absurd (h.destroyed hd) (by simp [Phase.delivered])

/-- **One step of the context is a walk in the life cycle of every operation.** -/
theorem Placed.step {s s' : State} {a : Action} {e : List Observation} {id : ℕ} {p : Phase}
    (hF : FramesOk s) (h : Placed s id p) (hs : Step s a s' e) :
    ∃ p', p.run id e = some p' ∧ Placed s' id p' := by
  by_cases hm : Moves id a e
  case neg =>
    refine ⟨p, Phase.run_of_not_concerns (fun o ho => ?_) p, h.congr (sameFor_of_step hF hs hm)⟩
    simp only [Moves, not_or, not_exists, not_and, Bool.not_eq_true] at hm
    exact hm.1 o ho
  case pos =>
    cases hs with
    | @executeSchedule f fs k rest hf hpc hd hx hq =>
      obtain rfl : k = id := by simpa [Moves, Observation.concerns] using hm
      obtain rfl : p = .scheduled := by
        rcases h.of_draining hf hpc with rfl | rfl
        · rfl
        · exact absurd (h.execute.symm.trans hx) (by simp [Phase.execute])
      refine ⟨.submitted, by simp [Phase.next, Observation.concerns, Phase.follow],
        h.rpcStarted (Or.inr rfl) rfl rfl ?_ rfl ?_ ?_⟩
      · simp only [inLocal, batches, hf, List.flatMap_cons, hpc, LoopPc.batch, Phase.place,
          RunFrame.goto_pc, List.cons_append, List.count_cons_self]
        simp [Nat.add_assoc, State.rpcStarted]
      · simp [tagInHand, pc?, hf, hpc]
      · simp [State.receiving, LoopPc.receiving, hf, hpc]
    | @executeRequest f fs k rest hf hpc hd hx =>
      obtain rfl : k = id := by simpa [Moves, Observation.concerns] using hm
      obtain rfl : p = .completed := by
        rcases h.of_draining hf hpc with rfl | rfl
        · exact absurd (h.execute.symm.trans hx) (by simp [Phase.execute])
        · rfl
      exact ⟨.delivering _, by simp [Phase.next, Observation.concerns, Phase.follow],
        h.deliver hf hpc _⟩
    | @setValueThrows f fs k ok rest hf hpc hd =>
      obtain rfl : k = id := by simpa [Moves, Observation.concerns] using hm
      have hthrow := h.throw hf hpc .error
      obtain rfl := h.of_executing hf hpc
      exact ⟨_, by simp [Phase.next, Observation.concerns, Phase.follow], hthrow⟩
    | @receiverReturns f fs k r rest hf hpc =>
      obtain rfl : k = id := by simpa [Moves, Observation.concerns] using hm
      have hfin := h.finish hf hpc
      obtain rfl := h.of_executing hf hpc
      exact ⟨.finished, by simp [Phase.next, Observation.concerns, Phase.follow], hfin⟩
    | @dequeueAll f fs x xs hf hpc hq =>
      have hmem : .operation id ∈ x :: xs := by
        rcases hm with ⟨o, ho, hc⟩ | hact
        · obtain ⟨y, hy, rfl⟩ := List.mem_map.mp ho
          obtain rfl : y = .operation id := by simpa [Observation.concerns] using hc
          exact hy
        · cases hact
      obtain ⟨rfl, hone, h'⟩ := h.dequeue hf hpc hq hmem rfl
      exact ⟨.scheduled, by rw [run_remote (Or.inl ⟨rfl, hone⟩), if_pos hone], h'⟩
    | @nextTag f fs k ok hf hpc he =>
      obtain rfl : k = id := by simpa [Moves, Observation.concerns] using hm
      obtain ⟨rfl, h'⟩ := h.nextTag hf hpc he rfl
      exact ⟨.returned, by simp [Phase.next, Observation.concerns, Phase.follow], h'⟩
    | @dispatchTag f fs k hf hpc ht =>
      obtain rfl : k = id := by simpa [Moves, Observation.concerns] using hm
      obtain ⟨rfl, h'⟩ := h.dispatch hf hpc ht rfl
      exact ⟨.completed, by simp [Phase.next, Observation.concerns, Phase.follow], h'⟩
    | @start k hst =>
      obtain rfl : k = id := by simpa [Moves, Observation.concerns] using hm
      obtain rfl := h.idle_of_not_started hst
      exact ⟨.travelling, by simp [Phase.next, Observation.concerns, Phase.follow], h.startRemote⟩
    | @startOnLoop k hst hr hq =>
      obtain rfl : k = id := by simpa [Moves, Observation.concerns] using hm
      obtain rfl := h.idle_of_not_started hst
      exact ⟨.submitted, by simp [Phase.next, Observation.concerns, Phase.follow],
        h.rpcStarted (Or.inl rfl) rfl rfl rfl rfl rfl rfl⟩
    | @destroy k hc hd =>
      obtain rfl : k = id := by simpa [Moves] using hm
      exact ⟨p, rfl, h.destroy hc⟩
    | _ => simp [Moves, Observation.concerns] at hm

/-! ### Whole runs -/

/-- **The histories of the context refine the life cycle of every operation.** -/
theorem placed_of_exec {as : List Action} {s : State} {h : List Observation}
    (hrun : contextMachine.exec as = some (s, h)) (id : ℕ) :
    ∃ p, Phase.idle.run id h = some p ∧ Placed s id p := by
  refine (Machine.exec_induction
    (I := fun s h => FramesOk s ∧ ∃ p, Phase.idle.run id h = some p ∧ Placed s id p)
    ⟨framesOk_init, .idle, rfl, placed_init id⟩ ?_ hrun).2
  rintro s h a s' e ⟨hF, p, hp, hpl⟩ hs
  have hst := step_cases hs
  obtain ⟨p', hp', hpl'⟩ := hpl.step hF hst
  refine ⟨hF.step hst, p', ?_, hpl'⟩
  rw [Phase.run_append, hp]
  exact hp'

/-- The run of `as` had the `set_value` of operation `id` exit by an exception. -/
def Threw (as : List Action) (id : ℕ) : Prop :=
  ∃ s h ok rest, contextMachine.Takes as s h .setValueThrows ∧
    s.pc? = some (.executing id (.value ok) rest)

/-- What is promised of an operation, in a state `s` that the run of `as` reached
with history `h`. -/
structure LifeCycle (as : List Action) (s : State) (h : List Observation) (id : ℕ) : Prop where
  /-- before `start()` it is nowhere -/
  nowhere : (s.ops id).started = false → ∀ q, s.timesAt id q = 0
  /-- after `start()` it is in exactly one place, once -/
  onePlace : (s.ops id).started = true →
    ∃ q, s.timesAt id q = 1 ∧ ∀ q', q' ≠ q → s.timesAt id q' = 0
  /-- while its tag can come back, its completion is what will be executed -/
  tagPointer : 0 < s.timesAt id .grpc → (s.ops id).execute = some .onRequestComplete
  rpcOnce : h.countP (·.isRpcInvoked id) ≤ 1
  rpcFirst : ∀ h₁ h₂ ok, h = h₁ ++ .setValue id ok :: h₂ → .rpcInvoked id ∈ h₁
  /-- the receiver is given its value once, when its completion is executed -/
  resultOnce : h.countP (·.isSetValue id) = s.timesAt id .receiver + s.timesAt id .finished
  completedOnce : h.countP (·.isCompleted id) = s.timesAt id .finished
  /-- that value is its result, if it took it, or else one error is -/
  givenOnce : GivenOnce h id
  /-- which it is given exactly if it threw -/
  errorIfThrew : .setError id ∈ h ↔ Threw as id

/-- `set_error` is called by the step in which `set_value` throws. -/
theorem setError_mem_iff {as : List Action} {s : State} {h : List Observation}
    (hrun : contextMachine.exec as = some (s, h)) (id : ℕ) :
    .setError id ∈ h ↔ Threw as id := by
  rw [Machine.mem_history_iff hrun]
  constructor
  · rintro ⟨s₀, h₀, a, s₁, e, ht, hs, ho⟩
    cases step_cases hs with
    | @setValueThrows f fs k ok rest hf hpc hd =>
      obtain rfl : id = k := by simpa using ho
      exact ⟨s₀, h₀, ok, rest, ht, by rw [pc?_of_frames hf, hpc]⟩
    | dequeueAll => simp at ho
    | _ => simp at ho
  · rintro ⟨s₀, h₀, ok, rest, ht, hpc⟩
    have hsome : (contextMachine.step s₀ .setValueThrows).isSome = true := by
      obtain ⟨-, -, -, hs⟩ := ht
      exact hs
    obtain ⟨⟨s₁, e⟩, hs⟩ := Option.isSome_iff_exists.mp hsome
    refine ⟨s₀, h₀, _, s₁, e, ht, hs, ?_⟩
    have hst : Step s₀ .setValueThrows s₁ e := step_cases hs
    cases hst with
    | @setValueThrows f fs k ok' rest' hf hpc' hd =>
      rw [pc?_of_frames hf, hpc', Option.some.injEq, LoopPc.executing.injEq] at hpc
      rw [hpc.1]
      exact List.mem_singleton_self _

theorem Placed.onePlace {s : State} {id : ℕ} {p : Phase} (h : Placed s id p)
    (hs : (s.ops id).started = true) :
    ∃ q, s.timesAt id q = 1 ∧ ∀ q', q' ≠ q → s.timesAt id q' = 0 := by
  obtain ⟨q, hq⟩ : ∃ q, p.place = some q := by
    have := h.started
    rw [hs] at this
    cases p <;> simp [Phase.execute, Phase.place] at this ⊢
  refine ⟨q, by rw [h.places, if_pos hq], fun q' hne => ?_⟩
  rw [h.places, hq, if_neg]
  exact fun heq => hne (Option.some.inj heq).symm

/-- **Every operation lives exactly once**, in every state every run reaches. -/
theorem lifeCycle {as : List Action} {s : State} {h : List Observation}
    (hrun : contextMachine.exec as = some (s, h)) (id : ℕ) : LifeCycle as s h id := by
  obtain ⟨p, hp, hpl⟩ := placed_of_exec hrun id
  refine ⟨fun hno q => ?_, hpl.onePlace, fun hg => ?_, ?_, fun h₁ h₂ ok hsplit => ?_, ?_, ?_,
    Phase.givenOnce_of_run hp, setError_mem_iff hrun id⟩
  · obtain rfl := hpl.idle_of_not_started hno
    rw [hpl.places]
    rfl
  · have hplace := hpl.place_eq hg
    rw [hpl.execute]
    cases p <;> simp [Phase.place, Phase.execute] at hplace ⊢
  · rw [Phase.rpcInvocations_eq hp]
    exact Bool.toNat_le _
  · exact Phase.rpcInvoked_before_setValue hp hsplit
  · rw [Phase.setValues_eq hp, hpl.places, hpl.places]
    cases p <;> rfl
  · rw [Phase.completions_eq hp, hpl.places]
    cases p <;> rfl

/-- One operation, from another thread's `start()` to its receiver's return with
an error. -/
def oneLife : List Action :=
  [.start 0, .signal (.operation 0), .run, .loop, .loop, .loop, .loop, .loop, .loop,
    .next (.alarm true), .loop, .loop, .loop, .loop, .loop, .loop, .loop, .loop,
    .finishRpc 0 true, .next (.tag 0 true), .loop, .loop, .loop, .setValueThrows,
    .receiverReturns]

theorem lifeCycle_example :
    ∃ s h, contextMachine.exec oneLife = some (s, h) ∧ LifeCycle oneLife s h 0 := by
  obtain ⟨s, h, hrun⟩ := contextMachine.exec_of_isSome oneLife rfl
  exact ⟨s, h, hrun, lifeCycle hrun 0⟩

end State

end Agrpc
