/-
Agrpc/Context/Shutdown.lean

What `RunImpl` has done when `Next` returns false.

If every `ScheduleRemote` call returned before `ShutDown`, then `Next` returns
false only when no wake-up is on its way, and the handshake says that
`remote_queue_` is empty unless the loop knows of work in `local_queue_`.  It
does not look there before it leaves: whatever came into `local_queue_` in the
last pass is dropped.

`executedAll_iff`: everything scheduled has been executed at that point exactly
if the last pass found no work for `local_queue_`.
-/
import Agrpc.Context.Executor
import Agrpc.Context.WakeUp

namespace Agrpc

open Interleaving

/-- Everything that was enqueued has come into `local_queue_`, and everything
that came there has been executed, as often as it came. -/
def ExecutedAll (h : List Observation) : Prop :=
  remoteArrivals h = enqueues h ∧ ∀ op, (executions h).count op = (arrivedOps h).count op

namespace State

/-- No thread owes a `Set` when `ShutDown` is called, and nothing is enqueued
after it. -/
def schedulesInTime (s : State) : Action → Bool
  | .shutDown => s.signalling.isEmpty
  | .start _ | .requestStop _ => !s.context.completionQueue.isShutdown
  | _ => true

end State

/-- Every `ScheduleRemote` call, its `Set` included, returned before `ShutDown`. -/
def SchedulesBeforeShutDown (as : List Action) : Prop :=
  ∀ s h a, contextMachine.Takes as s h a → s.schedulesInTime a = true

namespace State

/-! ### Arrivals that are not executed -/

theorem arrivedOps_remote (xs : List OperationBase) :
    arrivedOps (xs.map (.arrived .remote)) = xs := by
  rw [arrivedOps, arrivals_remote, List.map_map]
  exact List.map_id' xs

/-- One step adds as many arrivals as it adds to what is executed and what is
linked locally. -/
theorem arrivedOps_step {s s' : State} {a : Action} {h e : List Observation}
    {op : OperationBase}
    (hcount : (arrivedOps h).count op = (executions h).count op + s.inLocal op)
    (hs : Step s a s' e) :
    (arrivedOps (h ++ e)).count op = (executions (h ++ e)).count op + s'.inLocal op := by
  have key : (arrivedOps e).count op + s.inLocal op
      = (executions e).count op + s'.inLocal op := by
    cases hs with
    | @executeStop f fs run rest hf hpc =>
      have hb : s.batches = .stopOperation run :: (rest ++ fs.flatMap fun g => g.pc.batch) := by
        simp [batches, hf, hpc, LoopPc.batch]
      have hb' : batches { s with frames := (f.goto (.draining rest) :: fs).map (·.seeStop run) }
          = rest ++ fs.flatMap fun g => g.pc.batch := by
        simp [batches, LoopPc.batch, List.flatMap_map]
      simp only [inLocal, hb, hb', List.count_cons]
      show 0 + _ = (List.count op [.stopOperation run]) + _
      rw [List.count_singleton]
      omega
    | @executeSchedule f fs k rest hf hpc | @executeRequest f fs k rest hf hpc =>
      have hb : s.batches = .operation k :: (rest ++ fs.flatMap fun g => g.pc.batch) := by
        simp [batches, hf, hpc, LoopPc.batch]
      simp only [inLocal, hb, List.count_cons]
      show 0 + _ = (List.count op [.operation k])
        + (s.context.localQueue.count op + (rest ++ fs.flatMap fun g => g.pc.batch).count op)
      rw [List.count_singleton]
      omega
    | @takeBatch f fs hf hpc =>
      show 0 + _ = 0 + _
      simp [inLocal, batches, hf, hpc, LoopPc.batch]
    | @dequeueAll f fs x xs hf hpc hq =>
      rw [arrivedOps_remote, executions_remote]
      simp only [inLocal, batches, hf, hpc, LoopPc.batch, List.flatMap_cons, List.nil_append,
        List.count_append, RunFrame.goto_pc, List.count_nil]
      omega
    | @dispatchTag f fs k hf hpc =>
      show List.count op [.operation k] + _ = 0 + _
      simp only [inLocal, batches, hf, hpc, LoopPc.batch, List.flatMap_cons, List.nil_append,
        List.count_append, RunFrame.goto_pc]
      omega
    | @requestStopOnLoop run =>
      have hb : (s.stopLocal run).batches = s.batches :=
        batches_map (fun f => f.requestStop_pc run) rfl
      have hl : (s.stopLocal run).context.localQueue
          = s.context.localQueue ++ [.stopOperation run] := rfl
      show List.count op [.stopOperation run] + _ = 0 + _
      rw [inLocal, inLocal, hb, hl, List.count_append]
      omega
    | @requestStop run =>
      have hb : (s.stopRemote run).batches = s.batches :=
        batches_map (fun f => f.requestStop_pc run) rfl
      rw [inLocal, inLocal, hb]
      rfl
    | run | start | startOnLoop | signal | finishRpc | shutDown | destroy => rfl
    | leave hf hpc | enter hf hpc | nothingPending hf hpc | batchDone hf hpc
    | setValueThrows hf hpc | receiverReturns hf hpc | stopSeen hf hpc | stopNotSeen hf hpc
    | readSubmitted hf hpc | readNotSubmitted hf hpc | markInactive hf hpc | assign hf hpc
    | nextAlarm hf hpc | nextTag hf hpc | nextShutdown hf hpc | dispatchAlarm hf hpc =>
      show 0 + _ = 0 + _
      simp [inLocal, batches, hf, hpc, LoopPc.batch]
  rw [arrivedOps_append, executions_append, List.count_append, List.count_append, hcount]
  omega

/-- What has arrived is executed or linked locally, nested calls included. -/
theorem count_arrivedOps {as : List Action} {s : State} {h : List Observation}
    (hrun : contextMachine.exec as = some (s, h)) (op : OperationBase) :
    (arrivedOps h).count op = (executions h).count op + s.inLocal op :=
  Machine.exec_induction
    (I := fun s h => (arrivedOps h).count op = (executions h).count op + s.inLocal op) rfl
    (fun _ _ _ _ _ hI hs => arrivedOps_step hI (step_cases hs)) hrun

/-! ### After `ShutDown` -/

/-- No wake-up is owed after `ShutDown`. -/
theorem signalling_of_isShutdown {as : List Action} (hpre : SchedulesBeforeShutDown as)
    {s : State} {h : List Observation} (hv : contextMachine.Visits as s h)
    (hshut : s.context.completionQueue.isShutdown = true) : s.signalling = [] := by
  refine Machine.visits_induction
    (I := fun s _ => s.context.completionQueue.isShutdown = true → s.signalling = [])
    (P := fun s _ a => s.schedulesInTime a = true) ?_ ?_ (fun s h a ht => hpre s h a ht) hv hshut
  · intro _
    rfl
  · intro s h a s' e ih hP hs hshut'
    cases step_cases hs with
    | shutDown => simpa [schedulesInTime] using hP
    | start | requestStop =>
      rw [schedulesInTime, show s.context.completionQueue.isShutdown = true from hshut'] at hP
      exact absurd hP Bool.false_ne_true
    | @signal op hop hq => simp [ih hshut'] at hop
    | _ => exact ih hshut'

/-- **What was scheduled is executed when `Next` returns false**, with both
queues empty, exactly if the last pass found no work: it did not look into a
`remote_queue_` that was not empty, and no stop was requested on the loop
thread in it. -/
theorem executedAll_iff {as : List Action} (hpre : SchedulesBeforeShutDown as) {s : State}
    {h : List Observation} (hrun : contextMachine.exec as = some (s, h))
    (hnext : (s.step (.next .shutdown)).isSome = true) :
    (s.context.localQueue = [] ∧ s.context.remoteQueue.items = [] ∧ ExecutedAll h) ↔
      ¬ PassFindsWork as := by
  obtain ⟨f, fs, hf, hfpc, hdrained⟩ : ∃ f fs, s.frames = f :: fs ∧ f.pc = .callNext ∧
      s.context.completionQueue.drained = true := by
    obtain ⟨⟨s', e⟩, hs⟩ := Option.isSome_iff_exists.mp hnext
    cases step_cases hs with
    | nextShutdown hf hpc hd => exact ⟨_, _, hf, hpc, hd⟩
  have hpc : s.pc? = some .callNext := by rw [pc?_of_frames hf, hfpc]
  have hlocal := localQueue_eq_nil_iff hrun (by rw [hpc]; simp)
  constructor
  · rintro ⟨hl, -, -⟩
    exact hlocal.mp hl
  · intro hnowork
    have hl := hlocal.mpr hnowork
    have hb : s.batches = [] := by
      rw [batches_eq hrun hf, hfpc]
      rfl
    have hremote : s.context.remoteQueue.items = [] := by
      obtain ⟨hshut, halarms, -, -⟩ := CompletionQueue.drained_iff.mp hdrained
      have hsig := signalling_of_isShutdown hpre (Machine.Visits.last hrun) hshut
      obtain ⟨-, hL, hH⟩ := handshake_of_exec hrun
      exact hH.remote_empty hL hpc (by simp [wakeUps, hsig, halarms]) hl
    refine ⟨hl, hremote, ?_, fun op => ?_⟩
    · rw [enqueues_eq hrun, hremote, List.append_nil]
    · rw [count_arrivedOps hrun op, inLocal, hl, hb]
      rfl

/-- The run of a schedule that ends where `Next` can return false. -/
theorem takes_shutdown {as : List Action} {s : State} {h : List Observation}
    (hrun : contextMachine.exec as = some (s, h))
    (hs : (s.step (.next .shutdown)).isSome = true) :
    contextMachine.Takes (as ++ [.next .shutdown]) s h (.next .shutdown) :=
  ⟨as, List.prefix_rfl, hrun, hs⟩

/-- Up to a `Next` that waits with nothing to do, one operation delivered. -/
def upToWait : List Action := List.flatten
  [[.start 0, .signal (.operation 0), .run], List.replicate 6 .loop, [.next (.alarm true)],
    List.replicate 8 .loop, [.finishRpc 0 true, .next (.tag 0 true)], List.replicate 3 .loop,
    [.receiverReturns], List.replicate 3 .loop]

/-- A run that is shut down while it waits with nothing to do. -/
theorem executedAll_iff_example :
    ∃ s h, contextMachine.exec (upToWait ++ [.shutDown]) = some (s, h) ∧
      (s.step (.next .shutdown)).isSome = true ∧
      ((s.context.localQueue = [] ∧ s.context.remoteQueue.items = [] ∧ ExecutedAll h) ↔
        ¬ PassFindsWork (upToWait ++ [.shutDown])) := by
  obtain ⟨s, h, hrun, hs⟩ := contextMachine.exec_of_test (upToWait ++ [.shutDown])
    (fun s => (s.step (.next .shutdown)).isSome) (by decide +kernel)
  exact ⟨s, h, hrun, hs, executedAll_iff
    (fun s h a ht => Machine.check_takes (P := schedulesInTime) (by decide +kernel) ht) hrun hs⟩

/-- An operation is enqueued and signalled while the loop waits, the queue is
shut down, and the pass that dequeues the operation ends in `Next`. -/
def droppedAtShutDown : List Action := List.flatten
  [upToWait, [.start 1, .signal (.operation 1), .shutDown, .next (.alarm true)],
    List.replicate 6 .loop]

/-- `ShutDown` drops an operation that was scheduled before it. -/
theorem not_executedAll :
    SchedulesBeforeShutDown (droppedAtShutDown ++ [.next .shutdown]) ∧
      ¬ ∀ s h, contextMachine.Takes (droppedAtShutDown ++ [.next .shutdown]) s h
          (.next .shutdown) →
        s.context.localQueue = [] ∧ s.context.remoteQueue.items = [] ∧ ExecutedAll h := by
  refine ⟨fun s h a ht => Machine.check_takes (P := schedulesInTime) (by decide +kernel) ht,
    fun hall => ?_⟩
  obtain ⟨s, h, hrun, htest⟩ := contextMachine.exec_of_test droppedAtShutDown
    (fun s => !s.context.localQueue.isEmpty && (s.step (.next .shutdown)).isSome)
    (by decide +kernel)
  rw [Bool.and_eq_true, Bool.not_eq_true'] at htest
  obtain ⟨hlocal, -⟩ := hall s h (takes_shutdown hrun htest.2)
  simp [hlocal] at htest

end State

end Agrpc
