/-
Agrpc/Context/History.lean

What a history says of the queues: which operations were enqueued remotely,
which came into `local_queue_` and by which route, which were executed.

`local_queue_` itself is a function of the history: it holds what arrived since
the current pass of the loop began (`localQueue_eq`).  So the test that
`RunImpl` does not make, whether `local_queue_` is empty when it calls `Next`,
can be asked of the schedule: did the loop, in this pass, look into a
`remote_queue_` that held something, or was a stop requested on the loop
thread (`PassFindsWork`)?
-/
import Agrpc.Context.Startup

namespace Agrpc

open Interleaving

/-! ### Readings of a history -/

namespace Observation

def enqueued? : Observation → Option OperationBase
  | enqueued op => some op
  | _ => none

def arrived? : Observation → Option (Route × OperationBase)
  | arrived route op => some (route, op)
  | _ => none

def executed? : Observation → Option OperationBase
  | executed op => some op
  | _ => none

/-- How an observation changes the arrivals of the current pass. -/
def ofPass (ops : List OperationBase) : Observation → List OperationBase
  | passBegan => []
  | arrived _ op => ops ++ [op]
  | _ => ops

end Observation

/-- The remote enqueues, in the order they took effect. -/
def enqueues (h : List Observation) : List OperationBase := h.filterMap Observation.enqueued?

/-- The arrivals in `local_queue_`, in order. -/
def arrivals (h : List Observation) : List (Route × OperationBase) :=
  h.filterMap Observation.arrived?

/-- The executed operations, in order. -/
def executions (h : List Observation) : List OperationBase := h.filterMap Observation.executed?

/-- What came into `local_queue_` since the current pass of the loop began. -/
def passArrivals (h : List Observation) : List OperationBase := h.foldl Observation.ofPass []

/-- Nothing came into `local_queue_` since the current pass began. -/
def QuietPass (h : List Observation) : Prop := passArrivals h = []

@[simp] theorem enqueues_append (h e : List Observation) :
    enqueues (h ++ e) = enqueues h ++ enqueues e := List.filterMap_append ..

@[simp] theorem arrivals_append (h e : List Observation) :
    arrivals (h ++ e) = arrivals h ++ arrivals e := List.filterMap_append ..

@[simp] theorem executions_append (h e : List Observation) :
    executions (h ++ e) = executions h ++ executions e := List.filterMap_append ..

theorem passArrivals_append (h e : List Observation) :
    passArrivals (h ++ e) = e.foldl Observation.ofPass (passArrivals h) := List.foldl_append ..

@[simp] theorem foldl_ofPass_remote (ops xs : List OperationBase) :
    (xs.map (.arrived .remote)).foldl Observation.ofPass ops = ops ++ xs := by
  induction xs generalizing ops with
  | nil => simp
  | cons x xs ih => simp [Observation.ofPass, ih]

@[simp] theorem executions_remote (xs : List OperationBase) :
    executions (xs.map (.arrived .remote)) = [] := by
  induction xs with
  | nil => rfl
  | cons x xs _ => simp [executions, Observation.executed?]

@[simp] theorem arrivals_remote (xs : List OperationBase) :
    arrivals (xs.map (.arrived .remote)) = xs.map fun x => (.remote, x) := by
  induction xs with
  | nil => rfl
  | cons x xs ih => simpa [arrivals, Observation.arrived?] using ih

namespace State

/-! ### `local_queue_` and the current pass -/

theorem localQueue_step {s s' : State} {a : Action} {h e : List Observation}
    (hl : s.context.localQueue = passArrivals h) (hs : Step s a s' e) :
    s'.context.localQueue = passArrivals (h ++ e) := by
  rw [passArrivals_append, ← hl]
  cases hs with
  | nothingPending hf hpc hl => exact hl
  | dequeueAll hf hpc hq => exact (foldl_ofPass_remote _ _).symm
  | _ => rfl

/-- **`local_queue_` holds the arrivals of the current pass.** -/
theorem localQueue_eq {as : List Action} {s : State} {h : List Observation}
    (hrun : contextMachine.exec as = some (s, h)) : s.context.localQueue = passArrivals h :=
  Machine.exec_induction (I := fun s h => s.context.localQueue = passArrivals h) rfl
    (fun _ _ _ _ _ hI hs => localQueue_step hI (step_cases hs)) hrun

/-! ### What a pass finds -/

/-- A pass of the loop begins. -/
def beginsPass (s : State) (a : Action) : Prop := a = .loop ∧ s.pc? = some .loopTop

/-- There is work for `local_queue_`: the loop has found
`remote_queue_read_submitted_` false and looks into `remote_queue_`, which is
not empty, or a stop is requested on the loop thread. -/
def findsWork (s : State) (a : Action) : Prop :=
  a = .loop ∧ s.pc? = some .dequeueRemote ∧ s.context.remoteQueue.items ≠ [] ∨
    ∃ run, a = .requestStopOnLoop run

/-- In the run of `as`, there was work since the current pass of the loop began. -/
def PassFindsWork (as : List Action) : Prop := contextMachine.Since findsWork beginsPass as

/-- What a step does to the arrivals of the pass, unless it leads to the next one. -/
theorem passArrivals_step {s s' : State} {a : Action} {h e : List Observation}
    (hs : Step s a s' e) (hpc : s'.pc? ≠ some .loopTop) :
    s.findsWork a ∧ passArrivals (h ++ e) ≠ [] ∨
      ¬ s.findsWork a ∧ s.beginsPass a ∧ passArrivals (h ++ e) = [] ∨
      ¬ s.findsWork a ∧ ¬ s.beginsPass a ∧ s.pc? ≠ some .loopTop ∧
        passArrivals (h ++ e) = passArrivals h := by
  rw [passArrivals_append]
  cases hs with
  | @dequeueAll f fs x xs hf hpc' hq =>
    refine Or.inl ⟨Or.inl ⟨rfl, by simp [pc?, hf, hpc'], by simp [hq, AtomicQueue.items]⟩, ?_⟩
    rw [foldl_ofPass_remote]
    simp
  | requestStopOnLoop =>
    refine Or.inl ⟨Or.inr ⟨_, rfl⟩, ?_⟩
    simp [Observation.ofPass]
  | nothingPending hf hpc' | takeBatch hf hpc' =>
    refine Or.inr (Or.inl ⟨?_, ⟨rfl, by simp [pc?, hf, hpc']⟩, rfl⟩)
    simp [findsWork, pc?, hf, hpc']
  | enter | dispatchAlarm | dispatchTag => simp [pc?] at hpc
  | markInactive hf hpc' hq =>
    refine Or.inr (Or.inr ⟨?_, ?_, ?_, rfl⟩)
    · simp [findsWork, hq, AtomicQueue.items]
    · simp [beginsPass, pc?, hf, hpc']
    · simp [pc?, hf, hpc']
  | run hr =>
    refine Or.inr (Or.inr ⟨by simp [findsWork], by simp [beginsPass], ?_, rfl⟩)
    rcases hr with hr | hr
    · simp [pc?, hr]
    · obtain ⟨id, r, rest, hpc'⟩ := inReceiver_iff.mp hr
      simp [hpc']
  | leave hf hpc' | batchDone hf hpc' | executeStop hf hpc' | executeSchedule hf hpc'
  | executeRequest hf hpc' | setValueThrows hf hpc' | receiverReturns hf hpc'
  | stopSeen hf hpc' | stopNotSeen hf hpc' | readSubmitted hf hpc' | readNotSubmitted hf hpc'
  | assign hf hpc' | nextAlarm hf hpc' | nextTag hf hpc' | nextShutdown hf hpc' =>
    refine Or.inr (Or.inr ⟨?_, ?_, ?_, rfl⟩) <;> simp [findsWork, beginsPass, pc?, hf, hpc']
  | @requestStop run =>
    have hsame : (s.stopRemote run).pc? = s.pc? := pc?_map (fun f => f.requestStop_pc _) rfl
    exact Or.inr (Or.inr ⟨by simp [findsWork], by simp [beginsPass], hsame ▸ hpc, rfl⟩)
  | start | startOnLoop | signal | finishRpc | shutDown | destroy =>
    exact Or.inr (Or.inr ⟨by simp [findsWork], by simp [beginsPass], hpc, rfl⟩)

/-- **A pass is quiet if it finds no work**, until the next one is about to begin. -/
theorem quietPass_iff {as : List Action} {s : State} {h : List Observation}
    (hrun : contextMachine.exec as = some (s, h)) (hpc : s.pc? ≠ some .loopTop) :
    QuietPass h ↔ ¬ PassFindsWork as := by
  induction as using List.reverseRecOn generalizing s h with
  | nil =>
    obtain ⟨-, rfl⟩ : contextMachine.init = s ∧ [] = h := by simpa using hrun
    exact iff_of_true rfl Machine.not_since_nil
  | append_singleton as a ih =>
    obtain ⟨s₀, h₀, e, hl, hs, rfl⟩ := Machine.exec_concat.mp hrun
    rw [PassFindsWork, Machine.since_concat hl]
    rcases passArrivals_step (h := h₀) (step_cases hs) hpc with
      ⟨hfinds, hne⟩ | ⟨hno, hbegins, hnil⟩ | ⟨hno, hstays, hpc₀, hsame⟩
    · exact iff_of_false hne (not_not_intro (Or.inl hfinds))
    · exact iff_of_true hnil (not_or.mpr ⟨hno, fun hold => hold.2 hbegins⟩)
    · rw [QuietPass, hsame, or_iff_right hno, and_iff_left hstays]
      exact ih hl hpc₀

/-- Outside the top of a pass, `local_queue_` is empty if the pass found no work. -/
theorem localQueue_eq_nil_iff {as : List Action} {s : State} {h : List Observation}
    (hrun : contextMachine.exec as = some (s, h)) (hpc : s.pc? ≠ some .loopTop) :
    s.context.localQueue = [] ↔ ¬ PassFindsWork as := by
  rw [localQueue_eq hrun]
  exact quietPass_iff hrun hpc

/-- Before the first remote enqueue the context is as constructed. -/
theorem fresh_of_no_enqueue {as : List Action} {s : State} {h : List Observation}
    (hrun : contextMachine.exec as = some (s, h)) (hno : enqueues h = []) :
    Fresh s ∧ s.context.remoteQueue = .inactive := by
  refine (Machine.exec_induction
    (I := fun s h => FramesOk s ∧ (enqueues h = [] → Fresh s ∧ s.context.remoteQueue = .inactive))
    ⟨framesOk_init, fun _ => ⟨fresh_init, rfl⟩⟩ ?_ hrun).2 hno
  rintro s h a s' e ⟨hF, ih⟩ hs
  have hst := step_cases hs
  refine ⟨hF.step hst, fun hno => ?_⟩
  rw [enqueues_append, List.append_eq_nil_iff] at hno
  obtain ⟨hfresh, hq⟩ := ih hno.1
  have hq' : s'.context.remoteQueue = .inactive := by
    cases hst with
    | start | requestStop => simp [enqueues, Observation.enqueued?] at hno
    | markInactive => rfl
    | dequeueAll hf hpc hq' => simp [hq] at hq'
    | _ => exact hq
  rcases hfresh.step hF hst with hfresh' | hfirst
  · exact ⟨hfresh', hq'⟩
  · exact absurd hfirst.active (by simp [hq', AtomicQueue.isActive])

end State

end Agrpc
