/-
Agrpc/Context/StepCases.lean

Everything one step can do, said once: `Step` lists the outcomes of
`State.step` with their guards, one constructor per branch of the code, and
`step_cases` is the inversion lemma.  Every invariant below is proved by cases
on `Step`; none of them unfolds `State.step` again.
-/
import Agrpc.Context.Loop

namespace Agrpc

/-! ### Small lemmas on frames and program counters -/

namespace RunFrame

@[simp] theorem goto_run (f : RunFrame) (pc : LoopPc) : (f.goto pc).run = f.run := rfl
@[simp] theorem goto_pc (f : RunFrame) (pc : LoopPc) : (f.goto pc).pc = pc := rfl
@[simp] theorem goto_shouldStop (f : RunFrame) (pc : LoopPc) :
    (f.goto pc).shouldStop = f.shouldStop := rfl
@[simp] theorem goto_stopRequested (f : RunFrame) (pc : LoopPc) :
    (f.goto pc).stopRequested = f.stopRequested := rfl

@[simp] theorem seeStop_run (r : ℕ) (f : RunFrame) : (f.seeStop r).run = f.run := by
  unfold seeStop; split <;> rfl
@[simp] theorem seeStop_pc (r : ℕ) (f : RunFrame) : (f.seeStop r).pc = f.pc := by
  unfold seeStop; split <;> rfl
@[simp] theorem seeStop_stopRequested (r : ℕ) (f : RunFrame) :
    (f.seeStop r).stopRequested = f.stopRequested := by
  unfold seeStop; split <;> rfl
@[simp] theorem requestStop_run (r : ℕ) (f : RunFrame) : (f.requestStop r).run = f.run := by
  unfold requestStop; split <;> rfl
@[simp] theorem requestStop_pc (r : ℕ) (f : RunFrame) : (f.requestStop r).pc = f.pc := by
  unfold requestStop; split <;> rfl
@[simp] theorem requestStop_shouldStop (r : ℕ) (f : RunFrame) :
    (f.requestStop r).shouldStop = f.shouldStop := by
  unfold requestStop; split <;> rfl

theorem seeStop_shouldStop (r : ℕ) (f : RunFrame) :
    (f.seeStop r).shouldStop = (f.shouldStop || f.run == r) := by
  unfold seeStop; split <;> simp_all

theorem requestStop_stopRequested (r : ℕ) (f : RunFrame) :
    (f.requestStop r).stopRequested = (f.stopRequested || f.run == r) := by
  unfold requestStop; split <;> simp_all

end RunFrame

namespace State

/-! ### Scheduling and starting, field by field -/

@[simp] theorem setExecute_context (s : State) (id : ℕ) (fn : ExecuteFn) :
    (s.setExecute id fn).context = s.context := rfl
@[simp] theorem setExecute_frames (s : State) (id : ℕ) (fn : ExecuteFn) :
    (s.setExecute id fn).frames = s.frames := rfl
@[simp] theorem setExecute_runs (s : State) (id : ℕ) (fn : ExecuteFn) :
    (s.setExecute id fn).runs = s.runs := rfl
@[simp] theorem setExecute_signalling (s : State) (id : ℕ) (fn : ExecuteFn) :
    (s.setExecute id fn).signalling = s.signalling := rfl
theorem setExecute_ops (s : State) (id : ℕ) (fn : ExecuteFn) (k : ℕ) :
    (s.setExecute id fn).ops k
      = if k = id then { s.ops id with execute := some fn, started := true } else s.ops k := by
  simp [setExecute, Function.update_apply]

@[simp] theorem scheduleRemote_frames (s : State) (op : OperationBase) :
    (s.scheduleRemote op).frames = s.frames := rfl
@[simp] theorem scheduleRemote_ops (s : State) (op : OperationBase) :
    (s.scheduleRemote op).ops = s.ops := rfl
@[simp] theorem scheduleRemote_runs (s : State) (op : OperationBase) :
    (s.scheduleRemote op).runs = s.runs := rfl
@[simp] theorem scheduleRemote_localQueue (s : State) (op : OperationBase) :
    (s.scheduleRemote op).context.localQueue = s.context.localQueue := rfl
@[simp] theorem scheduleRemote_event (s : State) (op : OperationBase) :
    (s.scheduleRemote op).context.event = s.context.event := rfl
@[simp] theorem scheduleRemote_submitted (s : State) (op : OperationBase) :
    (s.scheduleRemote op).context.remoteQueueReadSubmitted
      = s.context.remoteQueueReadSubmitted := rfl
@[simp] theorem scheduleRemote_completionQueue (s : State) (op : OperationBase) :
    (s.scheduleRemote op).context.completionQueue = s.context.completionQueue := rfl
@[simp] theorem scheduleRemote_remoteQueue (s : State) (op : OperationBase) :
    (s.scheduleRemote op).context.remoteQueue = (s.context.remoteQueue.enqueue op).2 := rfl
@[simp] theorem scheduleRemote_signalling (s : State) (op : OperationBase) :
    (s.scheduleRemote op).signalling
      = if s.context.remoteQueue.isActive then s.signalling else op :: s.signalling := by
  cases h : s.context.remoteQueue <;>
    simp [scheduleRemote, GrpcContext.enqueueRemote, h, AtomicQueue.isActive]

/-- The state after a `StartAsyncRPC` that gRPC accepted. -/
def rpcStarted (s : State) (id : ℕ) : State :=
  { s.setExecute id .onRequestComplete with
    context := { s.context with
      completionQueue := { s.context.completionQueue with
        tags := id :: s.context.completionQueue.tags } } }

theorem startAsyncRpc_eq (s : State) (id : ℕ) :
    s.startAsyncRpc id
      = if s.context.completionQueue.drained then none else some (s.rpcStarted id) := by
  unfold startAsyncRpc GrpcContext.invokeRpc CompletionQueue.begin rpcStarted
  split <;> rfl

end State

/-! ### The outcomes of a step -/

/-- `Step s a s' e`: action `a` takes `s` to `s'` and emits `e`. -/
inductive Step (s : State) : Action → State → List Observation → Prop
  -- a `Run` call: registration, entry, and return
  | run (h : s.frames = [] ∨ s.inReceiver = true) :
      Step s .run { s with frames := { run := s.runs } :: s.frames, runs := s.runs + 1 } []
  | enter {f fs} (hf : s.frames = f :: fs) (hpc : f.pc = .registered) :
      Step s .loop { s with frames := f.goto .loopTop :: fs } []
  | leave {f fs byShutdown} (hf : s.frames = f :: fs) (hpc : f.pc = .exited byShutdown)
      (hs : .stopOperation f.run ∉ s.signalling) :
      Step s .loop { s with frames := fs } []
  -- `ExecutePendingLocal`
  | nothingPending {f fs} (hf : s.frames = f :: fs) (hpc : f.pc = .loopTop)
      (hl : s.context.localQueue = []) :
      Step s .loop { s with frames := f.goto .checkStop :: fs } [.passBegan]
  | takeBatch {f fs} (hf : s.frames = f :: fs) (hpc : f.pc = .loopTop)
      (hl : s.context.localQueue ≠ []) :
      Step s .loop { s with
          context := { s.context with localQueue := [] }
          frames := f.goto (.draining s.context.localQueue) :: fs } [.passBegan]
  | batchDone {f fs} (hf : s.frames = f :: fs) (hpc : f.pc = .draining []) :
      Step s .loop { s with frames := f.goto .checkStop :: fs } []
  | executeStop {f fs run rest} (hf : s.frames = f :: fs)
      (hpc : f.pc = .draining (.stopOperation run :: rest))
      (hx : s.exists? (.stopOperation run) = true) :
      Step s .loop
        { s with frames := (f.goto (.draining rest) :: fs).map (·.seeStop run) }
        [.executed (.stopOperation run)]
  | executeSchedule {f fs id rest} (hf : s.frames = f :: fs)
      (hpc : f.pc = .draining (.operation id :: rest))
      (hd : (s.ops id).destroyed = false)
      (hx : (s.ops id).execute = some .onScheduleComplete)
      (hq : s.context.completionQueue.drained = false) :
      Step s .loop { s.rpcStarted id with frames := f.goto (.draining rest) :: fs }
        [.executed (.operation id), .rpcInvoked id]
  | executeRequest {f fs id rest} (hf : s.frames = f :: fs)
      (hpc : f.pc = .draining (.operation id :: rest))
      (hd : (s.ops id).destroyed = false)
      (hx : (s.ops id).execute = some .onRequestComplete) :
      Step s .loop
        { s with
          frames := f.goto (.executing id (.value s.context.event.ok) rest) :: fs }
        [.executed (.operation id), .setValue id s.context.event.ok]
  | setValueThrows {f fs id ok rest} (hf : s.frames = f :: fs)
      (hpc : f.pc = .executing id (.value ok) rest) (hd : (s.ops id).destroyed = false) :
      Step s .setValueThrows { s with frames := f.goto (.executing id .error rest) :: fs }
        [.setError id]
  | receiverReturns {f fs id result rest} (hf : s.frames = f :: fs)
      (hpc : f.pc = .executing id result rest) :
      Step s .receiverReturns
        { s with
          frames := f.goto (.draining rest) :: fs
          ops := Function.update s.ops id { s.ops id with finished := true } }
        [.completed id result]
  -- the tests of the loop
  | stopSeen {f fs} (hf : s.frames = f :: fs) (hpc : f.pc = .checkStop)
      (hs : f.shouldStop = true) :
      Step s .loop { s with frames := f.goto (.exited false) :: fs } []
  | stopNotSeen {f fs} (hf : s.frames = f :: fs) (hpc : f.pc = .checkStop)
      (hs : f.shouldStop = false) :
      Step s .loop { s with frames := f.goto .checkRemote :: fs } []
  | readSubmitted {f fs} (hf : s.frames = f :: fs) (hpc : f.pc = .checkRemote)
      (hr : s.context.remoteQueueReadSubmitted = true) :
      Step s .loop { s with frames := f.goto .callNext :: fs } []
  | readNotSubmitted {f fs} (hf : s.frames = f :: fs) (hpc : f.pc = .checkRemote)
      (hr : s.context.remoteQueueReadSubmitted = false) :
      Step s .loop { s with frames := f.goto .dequeueRemote :: fs } []
  -- `TryScheduleRemoteQueuedItems`
  | markInactive {f fs} (hf : s.frames = f :: fs) (hpc : f.pc = .dequeueRemote)
      (hq : s.context.remoteQueue = .active []) :
      Step s .loop
        { s with
          context := { s.context with remoteQueue := .inactive }
          frames := f.goto (.assignSubmitted true) :: fs } []
  | dequeueAll {f fs x xs} (hf : s.frames = f :: fs) (hpc : f.pc = .dequeueRemote)
      (hq : s.context.remoteQueue = .active (x :: xs)) :
      Step s .loop
        { s with
          context := { s.context with
            remoteQueue := .active []
            localQueue := s.context.localQueue ++ x :: xs }
          frames := f.goto (.assignSubmitted false) :: fs }
        ((x :: xs).map (.arrived .remote))
  | assign {f fs submitted} (hf : s.frames = f :: fs)
      (hpc : f.pc = .assignSubmitted submitted) :
      Step s .loop
        { s with
          context := { s.context with remoteQueueReadSubmitted := submitted }
          frames := f.goto .callNext :: fs } []
  -- `AcquireCompletionQueueItems`
  | nextAlarm {f fs ok} (hf : s.frames = f :: fs) (hpc : f.pc = .callNext)
      (ha : 0 < s.context.completionQueue.alarms) :
      Step s (.next (.alarm ok))
        { s with
          context := { s.context with
            completionQueue := { s.context.completionQueue with
              alarms := s.context.completionQueue.alarms - 1 }
            event := ⟨none, ok⟩ }
          frames := f.goto .gotEvent :: fs } [.nextReturned none ok]
  | nextTag {f fs id ok} (hf : s.frames = f :: fs) (hpc : f.pc = .callNext)
      (he : (id, ok) ∈ s.context.completionQueue.events) :
      Step s (.next (.tag id ok))
        { s with
          context := { s.context with
            completionQueue := { s.context.completionQueue with
              events := s.context.completionQueue.events.erase (id, ok) }
            event := ⟨some id, ok⟩ }
          frames := f.goto .gotEvent :: fs } [.nextReturned (some id) ok]
  | nextShutdown {f fs} (hf : s.frames = f :: fs) (hpc : f.pc = .callNext)
      (hd : s.context.completionQueue.drained = true) :
      Step s (.next .shutdown) { s with frames := f.goto (.exited true) :: fs } []
  | dispatchAlarm {f fs} (hf : s.frames = f :: fs) (hpc : f.pc = .gotEvent)
      (ht : s.context.event.tag = none) :
      Step s .loop
        { s with
          context := { s.context with remoteQueueReadSubmitted := false }
          frames := f.goto .loopTop :: fs } []
  | dispatchTag {f fs id} (hf : s.frames = f :: fs) (hpc : f.pc = .gotEvent)
      (ht : s.context.event.tag = some id) :
      Step s .loop
        { s with
          context := { s.context with
            localQueue := s.context.localQueue ++ [.operation id] }
          frames := f.goto .loopTop :: fs } [.arrived .completion (.operation id)]
  -- operations and stop requests
  | start {id} (hs : (s.ops id).started = false) :
      Step s (.start id) (s.startRemote id) [.enqueued (.operation id)]
  | startOnLoop {id} (hs : (s.ops id).started = false) (hr : s.inReceiver = true)
      (hq : s.context.completionQueue.drained = false) :
      Step s (.startOnLoop id) (s.rpcStarted id) [.rpcInvoked id]
  | requestStop {run} (hs : s.stopPending run = true) :
      Step s (.requestStop run) (s.stopRemote run) [.enqueued (.stopOperation run)]
  | requestStopOnLoop {run} (hs : s.stopPending run = true)
      (hr : s.inReceiver = true ∨ s.inNestedRun run = true) :
      Step s (.requestStopOnLoop run) (s.stopLocal run)
        [.arrived .direct (.stopOperation run)]
  -- gRPC, and the owners
  | signal {op} (hs : op ∈ s.signalling) (hq : s.context.completionQueue.drained = false) :
      Step s (.signal op)
        { s with
          context := { s.context with
            completionQueue := { s.context.completionQueue with
              alarms := s.context.completionQueue.alarms + 1 } }
          signalling := s.signalling.erase op } []
  | finishRpc {id ok} (ht : id ∈ s.context.completionQueue.tags) :
      Step s (.finishRpc id ok)
        { s with
          context := { s.context with
            completionQueue := { s.context.completionQueue with
              tags := s.context.completionQueue.tags.erase id
              events := s.context.completionQueue.events ++ [(id, ok)] } } } []
  | shutDown :
      Step s .shutDown
        { s with
          context := { s.context with
            completionQueue := { s.context.completionQueue with isShutdown := true } } } []
  | destroy {id}
      (hc : (s.ops id).finished = true ∨ ∃ f ∈ s.frames, f.pc.executingId = some id)
      (hd : (s.ops id).destroyed = false) :
      Step s (.destroy id)
        { s with
          ops := Function.update s.ops id { s.ops id with destroyed := true } } []

namespace State

/-- The control steps of the loop, read off `runImplStep`. -/
theorem runImplStep_cases {s s' : State} {e : List Observation} {f : RunFrame}
    {fs : List RunFrame} (hf : s.frames = f :: fs)
    (h : ((runImplStep s.context f.shouldStop f.pc).map fun (c, pc', e) =>
        (({ s with context := c, frames := f.goto pc' :: fs } : State), e)) = some (s', e)) :
    Step s .loop s' e := by
  cases hpc : f.pc with
  | registered | executing | callNext | exited => simp [hpc, runImplStep] at h
  | loopTop =>
    simp only [hpc, runImplStep, List.isEmpty_iff] at h
    split at h
    next hl =>
      obtain ⟨rfl, rfl⟩ := by simpa using h
      exact .nothingPending hf hpc hl
    next hl =>
      obtain ⟨rfl, rfl⟩ := by simpa using h
      exact .takeBatch hf hpc hl
  | draining pending =>
    cases pending with
    | nil =>
      obtain ⟨rfl, rfl⟩ := by simpa [hpc, runImplStep] using h
      exact .batchDone hf hpc
    | cons item rest => simp [hpc, runImplStep] at h
  | checkStop =>
    obtain ⟨rfl, rfl⟩ := by simpa [hpc, runImplStep] using h
    cases hs : f.shouldStop with
    | true => exact .stopSeen hf hpc hs
    | false => exact .stopNotSeen hf hpc hs
  | checkRemote =>
    obtain ⟨rfl, rfl⟩ := by simpa [hpc, runImplStep] using h
    cases hr : s.context.remoteQueueReadSubmitted with
    | true => exact .readSubmitted hf hpc hr
    | false => exact .readNotSubmitted hf hpc hr
  | dequeueRemote =>
    simp only [hpc, runImplStep, GrpcContext.tryScheduleRemoteQueuedItems] at h
    rcases hq : s.context.remoteQueue with - | ⟨- | ⟨x, xs⟩⟩
    · simp [hq, AtomicQueue.tryMarkInactiveOrDequeueAll] at h
    · obtain ⟨rfl, rfl⟩ := by simpa [hq, AtomicQueue.tryMarkInactiveOrDequeueAll] using h
      exact .markInactive hf hpc hq
    · obtain ⟨rfl, rfl⟩ := by
        simpa [hq, AtomicQueue.tryMarkInactiveOrDequeueAll,
          GrpcContext.scheduleLocalQueue] using h
      exact .dequeueAll hf hpc hq
  | assignSubmitted submitted =>
    obtain ⟨rfl, rfl⟩ := by simpa [hpc, runImplStep] using h
    exact .assign hf hpc
  | gotEvent =>
    rcases ht : s.context.event.tag with - | id
    · obtain ⟨rfl, rfl⟩ := by simpa [hpc, runImplStep, GrpcContext.dispatchEvent, ht] using h
      exact .dispatchAlarm hf hpc ht
    · obtain ⟨rfl, rfl⟩ := by simpa [hpc, runImplStep, GrpcContext.dispatchEvent, ht] using h
      exact .dispatchTag hf hpc ht

/-- The `execute_` calls of `ExecutePendingLocal`. -/
theorem executeItem_cases {s s' : State} {e : List Observation} {f : RunFrame}
    {fs : List RunFrame} {item : OperationBase} {rest : List OperationBase}
    (hf : s.frames = f :: fs) (hpc : f.pc = .draining (item :: rest))
    (h : s.executeItem f fs item rest = some (s', e)) : Step s .loop s' e := by
  unfold executeItem at h
  split at h
  next hx =>
    cases item with
    | stopOperation run =>
      simp only [Option.some.injEq, Prod.mk.injEq] at h
      obtain ⟨rfl, rfl⟩ := h
      exact .executeStop hf hpc hx
    | operation id =>
      have hd : (s.ops id).destroyed = false := by simpa [exists?] using hx
      rcases hfn : (s.ops id).execute with - | ⟨- | -⟩
      · simp [hfn] at h
      · simp only [hfn, startAsyncRpc_eq, Option.map_eq_some_iff, Prod.mk.injEq] at h
        obtain ⟨t, ht, rfl, rfl⟩ := h
        split at ht
        · cases ht
        next hq =>
          obtain rfl := Option.some.inj ht
          exact .executeSchedule hf hpc hd hfn (by simpa using hq)
      · simp only [hfn, Option.some.injEq, Prod.mk.injEq] at h
        obtain ⟨rfl, rfl⟩ := h
        exact .executeRequest hf hpc hd hfn
  · cases h

theorem loopStep_cases {s s' : State} {e : List Observation} {f : RunFrame}
    {fs : List RunFrame} (hf : s.frames = f :: fs) (h : s.loopStep f fs = some (s', e)) :
    Step s .loop s' e := by
  unfold loopStep at h
  split at h
  next hpc =>
    simp only [Option.some.injEq, Prod.mk.injEq] at h
    obtain ⟨rfl, rfl⟩ := h
    exact .enter hf hpc
  next item rest hpc => exact executeItem_cases hf hpc h
  next b hpc =>
    split at h
    · cases h
    next hs =>
      simp only [Option.some.injEq, Prod.mk.injEq] at h
      obtain ⟨rfl, rfl⟩ := h
      exact .leave hf hpc hs
  · exact runImplStep_cases hf h

theorem runImplNext_cases {s s' : State} {e : List Observation} {f : RunFrame}
    {fs : List RunFrame} {r : NextResult} (hf : s.frames = f :: fs) (hpc : f.pc = .callNext)
    (h : ((runImplNext s.context r).map fun (c, pc', e) =>
        (({ s with context := c, frames := f.goto pc' :: fs } : State), e)) = some (s', e)) :
    Step s (.next r) s' e := by
  simp only [runImplNext, Option.map_map, Option.map_eq_some_iff] at h
  obtain ⟨cq, hcq, heq⟩ := h
  cases r with
  | alarm ok =>
    simp only [CompletionQueue.next, Option.ite_none_right_eq_some, Option.some.injEq] at hcq
    obtain ⟨ha, rfl⟩ := hcq
    simp only [Function.comp_apply, GrpcContext.nextEvent, Prod.mk.injEq] at heq
    obtain ⟨rfl, rfl⟩ := heq
    exact .nextAlarm hf hpc ha
  | tag id ok =>
    simp only [CompletionQueue.next, Option.ite_none_right_eq_some, Option.some.injEq] at hcq
    obtain ⟨he, rfl⟩ := hcq
    simp only [Function.comp_apply, GrpcContext.nextEvent, Prod.mk.injEq] at heq
    obtain ⟨rfl, rfl⟩ := heq
    exact .nextTag hf hpc he
  | shutdown =>
    simp only [CompletionQueue.next, Option.ite_none_right_eq_some, Option.some.injEq] at hcq
    obtain ⟨hd, rfl⟩ := hcq
    simp only [Function.comp_apply, Prod.mk.injEq] at heq
    obtain ⟨rfl, rfl⟩ := heq
    exact .nextShutdown hf hpc hd

/-- **Inversion of `State.step`.** -/
theorem step_cases {s s' : State} {a : Action} {e : List Observation}
    (h : s.step a = some (s', e)) : Step s a s' e := by
  cases a with
  | run =>
    simp only [step, Bool.or_eq_true, List.isEmpty_iff, Option.ite_none_right_eq_some,
      Option.some.injEq, Prod.mk.injEq] at h
    obtain ⟨hr, rfl, rfl⟩ := h
    exact .run hr
  | loop =>
    rcases hf : s.frames with - | ⟨f, fs⟩ <;> simp only [step, hf, reduceCtorEq] at h
    exact loopStep_cases hf h
  | next r =>
    rcases hf : s.frames with - | ⟨f, fs⟩ <;> simp only [step, hf, reduceCtorEq] at h
    split at h
    next hpc => exact runImplNext_cases hf hpc h
    · cases h
  | setValueThrows =>
    rcases hf : s.frames with - | ⟨f, fs⟩ <;> simp only [step, hf, reduceCtorEq] at h
    split at h
    next id ok rest hpc =>
      simp only [Option.ite_none_left_eq_some, Bool.not_eq_true, Option.some.injEq,
        Prod.mk.injEq] at h
      obtain ⟨hd, rfl, rfl⟩ := h
      exact .setValueThrows hf hpc hd
    · cases h
  | receiverReturns =>
    rcases hf : s.frames with - | ⟨f, fs⟩ <;> simp only [step, hf, reduceCtorEq] at h
    split at h
    next id result rest hpc =>
      simp only [Option.some.injEq, Prod.mk.injEq] at h
      obtain ⟨rfl, rfl⟩ := h
      exact .receiverReturns hf hpc
    · cases h
  | start id =>
    simp only [step, Option.ite_none_left_eq_some, Bool.not_eq_true, Option.some.injEq,
      Prod.mk.injEq] at h
    obtain ⟨hs, rfl, rfl⟩ := h
    exact .start hs
  | startOnLoop id =>
    simp only [step, Bool.or_eq_true, Bool.not_eq_true', Option.ite_none_left_eq_some, not_or,
      Bool.not_eq_true, Bool.not_eq_false, startAsyncRpc_eq, Option.map_eq_some_iff,
      Option.some.injEq, Prod.mk.injEq] at h
    obtain ⟨⟨hs, hr⟩, t, ⟨hq, rfl⟩, rfl, rfl⟩ := h
    exact .startOnLoop hs hr hq
  | requestStop run =>
    simp only [step, Option.ite_none_right_eq_some, Option.some.injEq, Prod.mk.injEq] at h
    obtain ⟨hs, rfl, rfl⟩ := h
    exact .requestStop hs
  | requestStopOnLoop run =>
    simp only [step, Bool.and_eq_true, Bool.or_eq_true, Option.ite_none_right_eq_some,
      Option.some.injEq, Prod.mk.injEq] at h
    obtain ⟨⟨hs, hr⟩, rfl, rfl⟩ := h
    exact .requestStopOnLoop hs hr
  | signal op =>
    simp only [step, GrpcContext.signalRemoteQueue, CompletionQueue.set, Option.map_map,
      Option.ite_none_right_eq_some, Option.map_eq_some_iff, Option.ite_none_left_eq_some,
      Bool.not_eq_true, Option.some.injEq, Function.comp_apply, Prod.mk.injEq] at h
    obtain ⟨hs, cq, ⟨hq, rfl⟩, rfl, rfl⟩ := h
    exact .signal hs hq
  | finishRpc id ok =>
    simp only [step, CompletionQueue.finish, Option.map_eq_some_iff,
      Option.ite_none_right_eq_some, Option.some.injEq, Prod.mk.injEq] at h
    obtain ⟨cq, ⟨ht, rfl⟩, rfl, rfl⟩ := h
    exact .finishRpc ht
  | shutDown =>
    simp only [step, CompletionQueue.shutdown, Option.some.injEq, Prod.mk.injEq] at h
    obtain ⟨rfl, rfl⟩ := h
    exact .shutDown
  | destroy id =>
    simp only [step, Bool.and_eq_true, Bool.or_eq_true, List.any_eq_true, beq_iff_eq,
      Bool.not_eq_true', Option.ite_none_right_eq_some, Option.some.injEq, Prod.mk.injEq] at h
    obtain ⟨⟨hc, hd⟩, rfl, rfl⟩ := h
    exact .destroy hc hd

end State

end Agrpc
