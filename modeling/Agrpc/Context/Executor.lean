/-
Agrpc/Context/Executor.lean

The run loop is a FIFO executor.

Two forward simulations into the FIFO machine, whose actions are read off the
observations:

* `remoteSimulation`: `remote_queue_` takes the enqueues and serves the
  arrivals by the remote route;
* `executorSimulation`: the batch of `ExecutePendingLocal` followed by
  `local_queue_` takes the arrivals and serves the executions, as long as `Run`
  is not called again from inside a receiver.

`refines_fifo` puts them together, with the bound on when an operation that is
in `local_queue_` is executed.
-/
import Agrpc.Context.Delivery
import Agrpc.Lib.Fifo

namespace Agrpc

open Interleaving

/-! ### Observations as actions of an executor -/

namespace Observation

/-- Arrivals in `local_queue_` and executions. -/
def ofExecutor : Observation → List (FifoAction OperationBase)
  | arrived _ op => [.arrive op]
  | executed op => [.serve op]
  | _ => []

/-- Remote enqueues and the arrivals they lead to. -/
def ofRemoteQueue : Observation → List (FifoAction OperationBase)
  | enqueued op => [.arrive op]
  | arrived .remote op => [.serve op]
  | _ => []

end Observation

/-- The operations that came into `local_queue_`, in order. -/
def arrivedOps (h : List Observation) : List OperationBase := (arrivals h).map Prod.snd

/-- The operations that came by the remote route, in order. -/
def remoteArrivals (h : List Observation) : List OperationBase :=
  ((arrivals h).filter fun a => a.1 == .remote).map Prod.snd

/-- The executions of operations that came by the remote route, in order: the
executed operations are the first arrivals. -/
def remoteExecutions (h : List Observation) : List OperationBase :=
  (((arrivals h).take (executions h).length).filter fun a => a.1 == .remote).map Prod.snd

theorem arrivedOps_append (h e : List Observation) :
    arrivedOps (h ++ e) = arrivedOps h ++ arrivedOps e := by
  rw [arrivedOps, arrivals_append, List.map_append]
  rfl

theorem executor_arrivals (h : List Observation) :
    (h.flatMap Observation.ofExecutor).filterMap FifoAction.arrival? = arrivedOps h := by
  induction h with
  | nil => rfl
  | cons o h ih =>
    rw [List.flatMap_cons, List.filterMap_append, ih]
    cases o <;> rfl

theorem executor_served (h : List Observation) :
    (h.flatMap Observation.ofExecutor).filterMap FifoAction.served? = executions h := by
  induction h with
  | nil => rfl
  | cons o h ih =>
    rw [List.flatMap_cons, List.filterMap_append, ih]
    cases o <;> rfl

theorem remoteQueue_arrivals (h : List Observation) :
    (h.flatMap Observation.ofRemoteQueue).filterMap FifoAction.arrival? = enqueues h := by
  induction h with
  | nil => rfl
  | cons o h ih =>
    rw [List.flatMap_cons, List.filterMap_append, ih]
    cases o with
    | arrived route op => cases route <;> rfl
    | _ => rfl

theorem remoteQueue_served (h : List Observation) :
    (h.flatMap Observation.ofRemoteQueue).filterMap FifoAction.served? = remoteArrivals h := by
  induction h with
  | nil => rfl
  | cons o h ih =>
    rw [List.flatMap_cons, List.filterMap_append, ih]
    cases o with
    | arrived route op => cases route <;> rfl
    | _ => rfl

theorem ofExecutor_remote (xs : List OperationBase) :
    (xs.map (.arrived .remote)).flatMap Observation.ofExecutor = xs.map .arrive := by
  induction xs with
  | nil => rfl
  | cons x xs ih =>
    rw [List.map_cons, List.flatMap_cons, ih]
    rfl

theorem ofRemoteQueue_remote (xs : List OperationBase) :
    (xs.map (.arrived .remote)).flatMap Observation.ofRemoteQueue = xs.map .serve := by
  induction xs with
  | nil => rfl
  | cons x xs ih =>
    rw [List.map_cons, List.flatMap_cons, ih]
    rfl

namespace State

/-! ### `remote_queue_` -/

/-- `remote_queue_` is a FIFO queue from the enqueues to the remote arrivals. -/
def remoteSimulation : Machine.Simulation contextMachine (fifo OperationBase)
    (fun _ _ => True) (fun _ _ _ => True) where
  abs s := s.context.remoteQueue.items
  view := Observation.ofRemoteQueue
  init := rfl
  step := by
    intro s h a s' e _ _ hs
    cases step_cases hs with
    | @dequeueAll f fs x xs hf hpc hq =>
      refine ⟨[], ?_⟩
      rw [ofRemoteQueue_remote, hq]
      simpa [AtomicQueue.items] using fifo_services (x :: xs) []
    | markInactive hf hpc hq => exact ⟨[], by rw [hq]; rfl⟩
    | start =>
      refine ⟨[], ?_⟩
      simp [Observation.ofRemoteQueue, Machine.execFrom, startRemote]
    | requestStop =>
      refine ⟨[], ?_⟩
      simp [Observation.ofRemoteQueue, Machine.execFrom, stopRemote]
    | _ => exact ⟨[], rfl⟩

theorem enqueues_eq {as : List Action} {s : State} {h : List Observation}
    (hrun : contextMachine.exec as = some (s, h)) :
    enqueues h = remoteArrivals h ++ s.context.remoteQueue.items := by
  obtain ⟨o, hfifo⟩ := remoteSimulation.exec (fun _ _ _ => trivial) (fun _ _ _ _ => trivial)
    (Machine.Visits.last hrun)
  have hsplit := fifo_exec hfifo
  rw [← remoteQueue_arrivals, ← remoteQueue_served]
  exact hsplit

/-! ### The batch and `local_queue_` -/

/-- With one `Run` call active, its batch is the only one. -/
theorem batches_single {s : State} {f : RunFrame} {fs : List RunFrame}
    (hf : s.frames = f :: fs) (hsingle : s.frames.tail = []) : s.batches = f.pc.batch := by
  obtain rfl : fs = [] := by simpa [hf] using hsingle
  simp [batches, hf]

/-- **One step of the context is a run of the executor**: an execution serves
the front, an arrival joins the back, and nothing else changes the order. -/
theorem executor_step {s s' : State} {a : Action} {e : List Observation}
    (hsingle : s.frames.tail = []) (hP : a = .run → s.frames = []) (hs : Step s a s' e) :
    (fifo OperationBase).execFrom (s.batches ++ s.context.localQueue)
      (e.flatMap Observation.ofExecutor) = some (s'.batches ++ s'.context.localQueue, []) := by
  cases hs with
  | run hr =>
    have hnil := hP rfl
    simp [batches, hnil, LoopPc.batch, Machine.execFrom]
  | @leave f fs b hf hpc =>
    obtain rfl : fs = [] := by simpa [hf] using hsingle
    simp [batches, hf, hpc, LoopPc.batch, Machine.execFrom]
  -- the batch is `local_queue_`
  | @takeBatch f fs hf hpc hl =>
    obtain rfl : fs = [] := by simpa [hf] using hsingle
    simp [batches, hf, hpc, LoopPc.batch, Machine.execFrom, Observation.ofExecutor]
  -- the front of the batch is executed
  | @executeStop f fs run rest hf hpc hx =>
    obtain rfl : fs = [] := by simpa [hf] using hsingle
    simp [batches, hf, hpc, LoopPc.batch, Machine.execFrom, Observation.ofExecutor]
  | @executeSchedule f fs k rest hf hpc hd hx hq =>
    obtain rfl : fs = [] := by simpa [hf] using hsingle
    simp [batches, hf, hpc, LoopPc.batch, Machine.execFrom, Observation.ofExecutor, rpcStarted]
  | @executeRequest f fs k rest hf hpc hd hx =>
    obtain rfl : fs = [] := by simpa [hf] using hsingle
    simp [batches, hf, hpc, LoopPc.batch, Machine.execFrom, Observation.ofExecutor]
  -- arrivals
  | @dequeueAll f fs x xs hf hpc hq =>
    have hb : ∀ c, batches { s with context := c, frames := f.goto (.assignSubmitted false) :: fs }
        = s.batches := by
      intro c
      simp [batches, hf, hpc, LoopPc.batch]
    rw [ofExecutor_remote, fifo_arrivals, hb, List.append_assoc]
  | @dispatchTag f fs k hf hpc ht =>
    simp [batches, hf, hpc, LoopPc.batch, Machine.execFrom, Observation.ofExecutor]
  | @requestStopOnLoop run =>
    have hb : (s.stopLocal run).batches = s.batches :=
      batches_map (fun f => f.requestStop_pc run) rfl
    rw [hb]
    simp [Machine.execFrom, Observation.ofExecutor, stopLocal, GrpcContext.scheduleLocal]
  | @requestStop run =>
    have hb : (s.stopRemote run).batches = s.batches :=
      batches_map (fun f => f.requestStop_pc run) rfl
    rw [hb]
    rfl
  | start | startOnLoop | signal | finishRpc | shutDown | destroy => rfl
  -- the loop moves between points with the same batch
  | @nothingPending f fs hf hpc | @batchDone f fs hf hpc | @enter f fs hf hpc
  | @setValueThrows f fs _ _ _ hf hpc | @receiverReturns f fs _ _ _ hf hpc
  | @stopSeen f fs hf hpc | @stopNotSeen f fs hf hpc | @readSubmitted f fs hf hpc
  | @readNotSubmitted f fs hf hpc | @markInactive f fs hf hpc | @assign f fs _ hf hpc
  | @nextAlarm f fs _ hf hpc | @nextTag f fs _ _ hf hpc | @nextShutdown f fs hf hpc
  | @dispatchAlarm f fs hf hpc =>
    simp [batches, hf, hpc, LoopPc.batch, Machine.execFrom, Observation.ofExecutor]

/-- The batch and `local_queue_` are a FIFO queue from the arrivals to the
executions. -/
def executorSimulation : Machine.Simulation contextMachine (fifo OperationBase)
    (fun s _ => s.frames.tail = []) (fun s _ a => a = .run → s.frames = []) where
  abs s := s.batches ++ s.context.localQueue
  view := Observation.ofExecutor
  init := rfl
  step := by
    intro s h a s' e hsingle hP hs
    exact ⟨[], executor_step hsingle hP (step_cases hs)⟩

/-- The executor's run behind a run of the context. -/
theorem executor_exec {as : List Action} (hno : NoReentry as) {s : State}
    {h : List Observation} (hv : contextMachine.Visits as s h) :
    ∃ o, (fifo OperationBase).exec (h.flatMap Observation.ofExecutor)
      = some (s.batches ++ s.context.localQueue, o) := by
  refine executorSimulation.exec (fun s h hv => frames_single_of_visits hno hv) ?_ hv
  rintro s h a ht rfl
  exact hno s h ht

theorem arrivedOps_eq {as : List Action} (hno : NoReentry as) {s : State}
    {h : List Observation} (hv : contextMachine.Visits as s h) :
    arrivedOps h = executions h ++ (s.batches ++ s.context.localQueue) := by
  obtain ⟨o, hfifo⟩ := executor_exec hno hv
  rw [← executor_arrivals, ← executor_served]
  exact fifo_exec hfifo

/-! ### When a local item is executed -/

/-- A step executes the front of the batch, or leaves the batch alone, or takes
one when there was none. -/
theorem batches_step {s s' : State} {a : Action} {e : List Observation}
    (hsingle : s.frames.tail = []) (hP : a = .run → s.frames = []) (hs : Step s a s' e) :
    s.batches <+: executions e ++ s'.batches := by
  cases hs with
  | run hr =>
    have hnil := hP rfl
    simp [batches, hnil]
  | @leave f fs b hf hpc => simp [batches_single hf hsingle, hpc, LoopPc.batch]
  | @executeStop f fs run rest hf hpc hx =>
    obtain rfl : fs = [] := by simpa [hf] using hsingle
    simp [batches, hf, hpc, LoopPc.batch, executions, Observation.executed?]
  | @executeSchedule f fs k rest hf hpc | @executeRequest f fs k rest hf hpc =>
    rw [batches_single hf hsingle, hpc]
    obtain rfl : fs = [] := by simpa [hf] using hsingle
    show OperationBase.operation k :: rest <+: (.operation k :: rest) ++ []
    exact List.prefix_append _ []
  | @requestStop run =>
    have hb : (s.stopRemote run).batches = s.batches :=
      batches_map (fun f => f.requestStop_pc run) rfl
    rw [hb]
    exact List.prefix_rfl
  | @requestStopOnLoop run =>
    have hb : (s.stopLocal run).batches = s.batches :=
      batches_map (fun f => f.requestStop_pc run) rfl
    rw [hb]
    exact List.prefix_rfl
  | start | startOnLoop | signal | finishRpc | shutDown | destroy => exact List.prefix_rfl
  | @nothingPending f fs hf hpc | @takeBatch f fs hf hpc | @batchDone f fs hf hpc
  | @enter f fs hf hpc | @stopSeen f fs hf hpc | @stopNotSeen f fs hf hpc
  | @readSubmitted f fs hf hpc | @readNotSubmitted f fs hf hpc | @markInactive f fs hf hpc
  | @dequeueAll f fs _ _ hf hpc | @assign f fs _ hf hpc | @nextAlarm f fs _ hf hpc
  | @nextTag f fs _ _ hf hpc | @nextShutdown f fs hf hpc | @dispatchAlarm f fs hf hpc
  | @dispatchTag f fs _ hf hpc =>
    rw [batches_single hf hsingle]
    simp [hpc, LoopPc.batch]
  | @setValueThrows f fs k _ rest hf hpc | @receiverReturns f fs k _ rest hf hpc =>
    rw [batches_single hf hsingle, hpc]
    obtain rfl : fs = [] := by simpa [hf] using hsingle
    show rest <+: rest ++ []
    exact List.prefix_append rest []

/-- `Next` has returned true, or the loop is at the top of a pass. -/
def passDue (s : State) : Prop := s.pc? = some .gotEvent ∨ s.pc? = some .loopTop

/-- A due pass begins by taking all of `local_queue_`. -/
theorem passDue_step {s s' : State} {a : Action} {e : List Observation} (hs : Step s a s' e)
    (hP : a = .run → s.frames = []) (hdue : s.passDue) :
    s'.passDue ∨ s'.context.localQueue = [] := by
  cases hs with
  | nothingPending hf hpc hl => exact Or.inr hl
  | takeBatch => exact Or.inr rfl
  | dispatchAlarm | dispatchTag => exact Or.inl (Or.inr rfl)
  | @requestStop run =>
    have hsame : (s.stopRemote run).pc? = s.pc? := pc?_map (fun f => f.requestStop_pc _) rfl
    rw [passDue, hsame]
    exact Or.inl hdue
  | @requestStopOnLoop run =>
    have hsame : (s.stopLocal run).pc? = s.pc? := pc?_map (fun f => f.requestStop_pc _) rfl
    rw [passDue, hsame]
    exact Or.inl hdue
  | start | startOnLoop | signal | finishRpc | shutDown | destroy => exact Or.inl hdue
  | run hr => simp [passDue, pc?, hP rfl] at hdue
  | enter hf hpc | leave hf hpc | batchDone hf hpc | executeStop hf hpc | executeSchedule hf hpc
  | executeRequest hf hpc | setValueThrows hf hpc | receiverReturns hf hpc | stopSeen hf hpc
  | stopNotSeen hf hpc | readSubmitted hf hpc | readNotSubmitted hf hpc | markInactive hf hpc
  | dequeueAll hf hpc | assign hf hpc | nextAlarm hf hpc | nextTag hf hpc | nextShutdown hf hpc =>
    simp [passDue, pc?, hf, hpc] at hdue

end State

theorem NoReentry.mono {as bs : List Action} (hno : NoReentry bs) (hp : as <+: bs) :
    NoReentry as := fun s h ht => hno s h (ht.mono hp)

namespace State

/-- What has arrived when a pass is due is executed or in the batch, from the
beginning of that pass on. -/
theorem arrived_served {as bs : List Action} (hno : NoReentry (as ++ bs)) {s s' : State}
    {h h' : List Observation} (hrun : contextMachine.exec as = some (s, h)) (hdue : s.passDue)
    (hrun' : contextMachine.exec (as ++ bs) = some (s', h')) :
    s'.passDue ∨ arrivedOps h <+: executions h' ++ s'.batches := by
  -- by induction on the steps taken since, from the last one
  induction bs using List.reverseRecOn generalizing s' h' with
  | nil =>
    rw [List.append_nil, hrun, Option.some.injEq, Prod.mk.injEq] at hrun'
    exact Or.inl (hrun'.1 ▸ hdue)
  | append_singleton bs a ih =>
    rw [← List.append_assoc] at hrun' hno
    obtain ⟨s₁, h₁, e, hrun₁, hs, rfl⟩ := Machine.exec_concat.mp hrun'
    have hno₁ : NoReentry (as ++ bs) := hno.mono (List.prefix_append _ _)
    have hst := step_cases hs
    have hsingle : s₁.frames.tail = [] :=
      frames_single_of_visits hno₁ (Machine.Visits.last hrun₁)
    have hP : a = .run → s₁.frames = [] := by
      rintro rfl
      exact hno _ _ ⟨as ++ bs, List.prefix_rfl, hrun₁, by simp [hs]⟩
    rcases ih hno₁ hrun₁ with hdue₁ | hserved
    · rcases passDue_step hst hP hdue₁ with hdue' | hl
      · exact Or.inl hdue'
      · -- the pass has begun: what arrived is executed or in its batch
        have harr := arrivedOps_eq hno (Machine.Visits.last hrun')
        rw [hl, List.append_nil] at harr
        rw [← harr]
        obtain ⟨s₂, h₂, h₃, hl₂, -, hsplit⟩ := Machine.execFrom_append.mp hrun₁
        obtain ⟨-, rfl⟩ : s = s₂ ∧ h = h₂ := by
          simpa using hrun.symm.trans hl₂
        rw [hsplit, List.append_assoc, arrivedOps_append]
        exact Or.inr (List.prefix_append _ _)
    · refine Or.inr (hserved.trans ?_)
      rw [executions_append, List.append_assoc]
      exact (List.prefix_append_right_inj _).mpr (batches_step hsingle hP hst)

/-- At `Next` there is no batch. -/
theorem batches_of_callNext {s : State} (hsingle : s.frames.tail = [])
    (hpc : s.pc? = some .callNext) : s.batches = [] := by
  rcases hf : s.frames with - | ⟨f, fs⟩
  · simp [batches, hf]
  · rw [pc?_of_frames hf, Option.some.injEq] at hpc
    rw [batches_single hf hsingle, hpc]
    rfl

/-- The executed operations that came by the remote route are the first of the
remote enqueues. -/
theorem remoteExecutions_prefix {as : List Action} {s : State} {h : List Observation}
    (hrun : contextMachine.exec as = some (s, h)) : remoteExecutions h <+: enqueues h := by
  have htake : (arrivals h).take (executions h).length <+: arrivals h := List.take_prefix _ _
  have hremote : remoteExecutions h <+: remoteArrivals h := (htake.filter _).map _
  apply hremote.trans
  rw [enqueues_eq hrun]
  exact List.prefix_append _ _

/-- What is in `local_queue_` while a pass is due has been executed when the
loop calls `Next`. -/
theorem local_executed_at_next {as : List Action} (hno : NoReentry as) {s : State}
    {h : List Observation} (hrun : contextMachine.exec as = some (s, h))
    (hpc : s.pc? = some .callNext) {as₀ : List Action} {s₀ : State} {h₀ : List Observation}
    (hp : as₀ <+: as) (hrun₀ : contextMachine.exec as₀ = some (s₀, h₀)) (hdue : s₀.passDue) :
    executions h₀ ++ s₀.context.localQueue <+: executions h := by
  obtain ⟨bs, rfl⟩ := hp
  have hsingle := frames_single_of_visits hno (Machine.Visits.last hrun)
  have hserved : arrivedOps h₀ <+: executions h := by
    rcases arrived_served hno hrun₀ hdue hrun with hdue' | hserved
    · rcases hdue' with hpc' | hpc' <;> simp [hpc] at hpc'
    · rwa [batches_of_callNext hsingle hpc, List.append_nil] at hserved
  -- a due pass holds no batch
  have hno₀ : NoReentry as₀ := hno.mono (List.prefix_append _ _)
  have hb₀ : s₀.batches = [] := by
    have hsingle₀ := frames_single_of_visits hno₀ (Machine.Visits.last hrun₀)
    rcases hf : s₀.frames with - | ⟨f, fs⟩
    · simp [batches, hf]
    · rw [passDue, pc?_of_frames hf, Option.some.injEq, Option.some.injEq] at hdue
      rw [batches_single hf hsingle₀]
      rcases hdue with hpc₀ | hpc₀ <;> rw [hpc₀] <;> rfl
  rw [arrivedOps_eq hno₀ (Machine.Visits.last hrun₀), hb₀, List.nil_append] at hserved
  exact hserved

/-- **The run loop refines a FIFO executor**, in every run in which `Run` is not
re-entered.  The history is a run of the executor whose queue is the batch
followed by `local_queue_`; the executed sequence is a prefix of the arrivals;
what came by the remote route is executed in the order of the enqueues; and
what is in `local_queue_` when `Next` returns true is executed before the loop
calls `Next` again. -/
theorem refines_fifo {as : List Action} (hno : NoReentry as) {s : State}
    {h : List Observation} (hrun : contextMachine.exec as = some (s, h)) :
    (∃ o, (fifo OperationBase).exec (h.flatMap Observation.ofExecutor)
        = some (s.batches ++ s.context.localQueue, o)) ∧
      executions h <+: arrivedOps h ∧ remoteExecutions h <+: enqueues h ∧
      (s.pc? = some .callNext → ∀ as₀ s₀ h₀, as₀ <+: as →
        contextMachine.exec as₀ = some (s₀, h₀) → s₀.passDue →
        executions h₀ ++ s₀.context.localQueue <+: executions h) := by
  have hv := Machine.Visits.last hrun
  refine ⟨executor_exec hno hv, ?_, remoteExecutions_prefix hrun, ?_⟩
  · rw [arrivedOps_eq hno hv]
    exact List.prefix_append _ _
  · intro hpc as₀ s₀ h₀ hp hrun₀ hdue
    exact local_executed_at_next hno hrun hpc hp hrun₀ hdue

/-- Two operations from outside, up to the `Next` after the pass that executed
them. -/
theorem refines_fifo_example :
    ∃ as s h, contextMachine.exec as = some (s, h) ∧
      (∃ o, (fifo OperationBase).exec (h.flatMap Observation.ofExecutor)
        = some (s.batches ++ s.context.localQueue, o)) ∧
      executions h <+: arrivedOps h ∧ remoteExecutions h <+: enqueues h ∧
      (s.pc? = some .callNext → ∀ as₀ s₀ h₀, as₀ <+: as →
        contextMachine.exec as₀ = some (s₀, h₀) → s₀.passDue →
        executions h₀ ++ s₀.context.localQueue <+: executions h) := by
  obtain ⟨s, h, hrun⟩ := contextMachine.exec_of_isSome
    [.start 0, .start 1, .signal (.operation 0), .run, .loop, .loop, .loop, .loop, .loop,
      .loop, .next (.alarm true), .loop, .loop, .loop, .loop, .loop, .loop, .loop, .loop,
      .loop] rfl
  exact ⟨_, s, h, hrun, refines_fifo (noReentry_of_check rfl) hrun⟩

end State

end Agrpc
