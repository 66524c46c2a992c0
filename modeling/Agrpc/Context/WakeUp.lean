/-
Agrpc/Context/WakeUp.lean

What the handshake is for, along whole runs.

* `queueActiveAtTest_iff`: the loop finds `remote_queue_` active whenever it is
  about to look into it, exactly if some remote enqueue took effect before the
  first `Run` came to its first look.  The constructor leaves the flag and the
  queue in contradiction, and only an enqueue from outside repairs it.
* `wakeUps_le_one`: at most one wake-up is on its way.
* `noLostWakeUp_iff`: the loop never waits with work at hand, exactly if it
  never enters `Next` in a pass that looked into a non-empty `remote_queue_`, or
  in which a stop was requested on the loop thread, while nothing is there to
  end the wait.
-/
import Agrpc.Context.History

namespace Agrpc

open Interleaving

namespace State

/-! ### After the first enqueue -/

/-- Some enqueue has opened the queue: what remains of `Handshake` without the
constructor's contradiction. -/
def Opened (s : State) : Prop :=
  Fresh s ∧ s.context.remoteQueue.isActive = true ∨ FirstBatch s ∨ Steady s ∨ Stranded s

/-- Only an empty queue can become inactive. -/
theorem isActive_step {s s' : State} {a : Action} {e : List Observation} (hs : Step s a s' e)
    (hq : s.context.remoteQueue.isActive = true) :
    s'.context.remoteQueue.isActive = true ∨ s.context.remoteQueue = .active [] := by
  cases hs with
  | markInactive hf hpc hq' => exact Or.inr hq'
  | dequeueAll => exact Or.inl rfl
  | start => exact Or.inl (by simp [startRemote])
  | requestStop => exact Or.inl (by simp [stopRemote])
  | _ => exact Or.inl hq

theorem Opened.step {s s' : State} {a : Action} {e : List Observation} (hF : FramesOk s)
    (hL : LoopOk s) (h : Opened s) (hs : Step s a s' e) : Opened s' := by
  rcases h with ⟨h, hq⟩ | h | h | h
  · rcases h.step hF hs with h' | h'
    · rcases isActive_step hs hq with hq' | hq'
      · exact Or.inl ⟨h', hq'⟩
      · -- a fresh queue is inactive or holds the first enqueue
        rcases h.queue with ⟨hq, -⟩ | ⟨x, xs, hq, -⟩ <;> simp [hq] at hq'
    · exact Or.inr (Or.inl h')
  · exact Or.inr (h.step hs)
  · exact Or.inr (Or.inr (Or.inl (h.step hF hL hs)))
  · exact Or.inr (Or.inr (Or.inr (h.step hF hs)))

/-- From the first remote enqueue on the context is `Opened`. -/
theorem opened_of_enqueue {as : List Action} {s : State} {h : List Observation}
    (hrun : contextMachine.exec as = some (s, h)) (hne : enqueues h ≠ []) : Opened s := by
  refine (Machine.exec_induction
    (I := fun s h => (FramesOk s ∧ LoopOk s ∧ Handshake s) ∧ (enqueues h ≠ [] → Opened s))
    ⟨⟨framesOk_init, loopOk_init, Or.inl fresh_init⟩, fun hne => absurd rfl hne⟩ ?_ hrun).2 hne
  rintro s h a s' e ⟨⟨hF, hL, hH⟩, ih⟩ hs
  have hst := step_cases hs
  have hH' : Handshake s' := hH.step hF hL hst
  refine ⟨⟨hF.step hst, hL.step hF hst, hH'⟩, fun hne => ?_⟩
  by_cases hno : enqueues h = []
  · -- the first enqueue is the step itself, and it leaves the queue active
    have hq : s'.context.remoteQueue.isActive = true := by
      rw [enqueues_append, hno, List.nil_append] at hne
      cases hst with
      | start => simp [startRemote]
      | requestStop => simp [stopRemote]
      | dequeueAll => rfl
      | _ => exact absurd rfl hne
    exact hH'.imp_left fun hfresh => ⟨hfresh, hq⟩
  · exact (ih hno).step hF hL hst

/-! ### The precondition of `try_mark_inactive_or_dequeue_all` -/

/-- The loop is about to test `remote_queue_read_submitted_`, or has found it
false. -/
def atTest (s : State) : Prop := s.pc? = some .checkRemote ∨ s.pc? = some .dequeueRemote

/-- Where the loop is about to test `remote_queue_read_submitted_` and finds it
false, and where it calls `try_mark_inactive_or_dequeue_all`, the queue is
active. -/
structure QueueActiveAtTest (s : State) : Prop where
  test : s.pc? = some .checkRemote → s.context.remoteQueueReadSubmitted = false →
    s.context.remoteQueue.isActive = true
  call : s.pc? = some .dequeueRemote → s.context.remoteQueue.isActive = true

/-- The loop passes its test of `should_stop`, on to `remote_queue_`. -/
def passesStopTest (s : State) (a : Action) : Prop :=
  a = .loop ∧ ∃ f fs, s.frames = f :: fs ∧ f.pc = .checkStop ∧ f.shouldStop = false

theorem Opened.queueActiveAtTest {s : State} (hL : LoopOk s) (h : Opened s) :
    QueueActiveAtTest s := by
  -- at both points the loop has read the flag, and it is clear
  have key : s.readSubmitted = false → s.context.remoteQueue.isActive = true := by
    intro hsub
    rcases h with ⟨-, hq⟩ | h | h | h
    · exact hq
    · exact h.active
    · exact (h.clear hsub).1
    · exact h.clear hsub
  refine ⟨fun hpc hsub => key ?_, fun hpc => key ?_⟩
  · simp [readSubmitted, hpc, hsub]
  · simp [readSubmitted, hpc, hL.clear hpc]

/-- The loop comes to the test only by passing the test of `should_stop`. -/
theorem atTest_step {s s' : State} {a : Action} {e : List Observation} (hF : FramesOk s)
    (hs : Step s a s' e) (hat : s'.atTest) : s.passesStopTest a ∨ s.atTest := by
  cases hs with
  | stopNotSeen hf hpc hsf => exact Or.inl ⟨rfl, _, _, hf, hpc, hsf⟩
  | readNotSubmitted hf hpc => exact Or.inr (Or.inl (by simp [pc?, hf, hpc]))
  | leave hf =>
    rcases hF.pc?_leave hf with hp | ⟨id, r, rest, hp⟩ <;> simp [atTest, hp] at hat
  | @requestStop run =>
    have hsame : (s.stopRemote run).pc? = s.pc? := pc?_map (fun f => f.requestStop_pc _) rfl
    rw [atTest, hsame] at hat
    exact Or.inr hat
  | @requestStopOnLoop run =>
    have hsame : (s.stopLocal run).pc? = s.pc? := pc?_map (fun f => f.requestStop_pc _) rfl
    rw [atTest, hsame] at hat
    exact Or.inr hat
  | start | startOnLoop | signal | finishRpc | shutDown | destroy => exact Or.inr hat
  | _ => simp [atTest, pc?] at hat

/-- If the loop passes its `should_stop` test only after a remote enqueue, then
there was one wherever it stands at `remote_queue_`. -/
theorem enqueues_of_atTest {as : List Action}
    (hcond : ∀ s h a, contextMachine.Takes as s h a → s.passesStopTest a → enqueues h ≠ [])
    {s : State} {h : List Observation} (hv : contextMachine.Visits as s h) :
    s.atTest → enqueues h ≠ [] := by
  refine (Machine.visits_induction
    (I := fun s h => FramesOk s ∧ (s.atTest → enqueues h ≠ []))
    (P := fun s h a => s.passesStopTest a → enqueues h ≠ [])
    ⟨framesOk_init, ?_⟩ ?_ hcond hv).2
  · intro hat
    simp [atTest, contextMachine, pc?] at hat
  · rintro s h a s' e ⟨hF, ih⟩ hP hs
    have hst := step_cases hs
    refine ⟨hF.step hst, fun hat => ?_⟩
    have hne : enqueues h ≠ [] := (atTest_step hF hst hat).elim hP ih
    rw [enqueues_append]
    exact List.append_ne_nil_of_left_ne_nil hne _

/-- **`try_mark_inactive_or_dequeue_all` is called on an active queue**, in a
whole run, exactly if the loop first passes its `should_stop` test after some
remote enqueue took effect. -/
theorem queueActiveAtTest_iff (as : List Action) :
    (∀ s h, contextMachine.Visits as s h → s.QueueActiveAtTest) ↔
      ∀ s h a, contextMachine.Takes as s h a → s.passesStopTest a → enqueues h ≠ [] := by
  constructor
  · -- without an enqueue the context is fresh, and the next state is at the test
    rintro hall s h a ht ⟨rfl, f, fs, hf, hpc, hsf⟩ hno
    obtain ⟨as', -, hrun, -⟩ := id ht
    obtain ⟨hfresh, hq⟩ := fresh_of_no_enqueue hrun hno
    have hs : contextMachine.step s .loop
        = some ({ s with frames := f.goto .checkRemote :: fs }, []) := by
      show s.step .loop = _
      simp [step, hf, loopStep, hpc, runImplStep, hsf]
    have hact := (hall _ _ (ht.visits_next hs)).test (by simp [pc?]) hfresh.unread
    simp [hq, AtomicQueue.isActive] at hact
  · intro hcond s h hv
    obtain ⟨as', -, hrun⟩ := id hv
    obtain ⟨-, hL, -⟩ := handshake_of_exec hrun
    by_cases hne : enqueues h = []
    · have hnot : ¬ s.atTest := fun hat => enqueues_of_atTest hcond hv hat hne
      exact ⟨fun hpc _ => absurd (Or.inl hpc) hnot, fun hpc => absurd (Or.inr hpc) hnot⟩
    · exact (opened_of_enqueue hrun hne).queueActiveAtTest hL

/-- `Run` on a context nothing was scheduled on: the first look into
`remote_queue_` finds it inactive. -/
theorem not_queueActiveAtTest :
    ¬ ∀ s h, contextMachine.Visits [.run, .loop, .loop, .loop, .loop] s h →
      s.QueueActiveAtTest := by
  intro hall
  have hact := (hall _ _ (Machine.Visits.last rfl)).call rfl
  exact Bool.false_ne_true hact

/-! ### At most one wake-up -/

/-- The loop thread has the alarm's event and has not consumed it yet. -/
def alarmInHand (s : State) : Bool :=
  s.pc? == some .gotEvent && s.context.event.tag.isNone

/-- `Stranded` is only reached through `ShutDown`. -/
theorem isShutdown_of_mem {as : List Action} {s : State} {h : List Observation}
    (hrun : contextMachine.exec as = some (s, h)) (hno : .shutDown ∉ as) :
    s.context.completionQueue.isShutdown = false := by
  induction as using List.reverseRecOn generalizing s h with
  | nil =>
    obtain ⟨rfl, -⟩ : contextMachine.init = s ∧ [] = h := by simpa using hrun
    rfl
  | append_singleton as a ih =>
    obtain ⟨s₀, h₀, e, hl, hs, rfl⟩ := Machine.exec_concat.mp hrun
    simp only [List.mem_append, List.mem_singleton, not_or] at hno
    have hprev := ih hl hno.1
    cases step_cases hs with
    | shutDown => exact absurd rfl hno.2
    | _ => exact hprev

theorem alarmInHand_iff {s : State} :
    s.alarmInHand = true ↔ s.pc? = some .gotEvent ∧ s.context.event.tag = none := by
  simp [alarmInHand]

theorem Fresh.wakeUps_le {s : State} (h : Fresh s) : s.wakeUps + s.alarmInHand.toNat ≤ 1 := by
  have hhand : s.alarmInHand = false := by
    by_contra hne
    obtain ⟨hpc, -⟩ := alarmInHand_iff.mp (by simpa using hne)
    exact Bool.false_ne_true (h.early_of_pc? hpc)
  rw [hhand]
  rcases h.queue with ⟨-, hw⟩ | ⟨-, -, -, hw⟩ <;> simp [hw]

theorem FirstBatch.wakeUps_le {s : State} (h : FirstBatch s) :
    s.wakeUps + s.alarmInHand.toNat ≤ 1 := by
  have hhand : s.alarmInHand = false := by
    rcases h.top with hpc | hpc <;> simp [alarmInHand, hpc]
  simp [hhand, h.one]

theorem Steady.wakeUps_le {s : State} (h : Steady s) : s.wakeUps + s.alarmInHand.toNat ≤ 1 := by
  cases hhand : s.alarmInHand with
  | true =>
    -- the alarm in hand clears the flag, and was the only one
    obtain ⟨hpc, htag⟩ := alarmInHand_iff.mp hhand
    have hw := (h.clear (by simp [readSubmitted, hpc, htag])).2
    simp [hw]
  | false =>
    cases hsub : s.readSubmitted with
    | false => simp [(h.clear hsub).2]
    | true => rcases h.set hsub with ⟨-, hw⟩ | ⟨-, hw⟩ <;> simp [hw]

/-- **At most one wake-up is on its way**, in every state a run without
`ShutDown` reaches: threads that owe a `Set`, alarm events in the completion
queue, and the event `AcquireCompletionQueueItems` is about to consume, counted
together.  So a thread that owes a `Set` finds `work_alarm_` with no event
pending. -/
theorem wakeUps_le_one {as : List Action} {s : State} {h : List Observation}
    (hrun : contextMachine.exec as = some (s, h)) (hno : .shutDown ∉ as) :
    s.signalling.length + s.context.completionQueue.alarms + s.alarmInHand.toNat ≤ 1 ∧
      (s.signalling ≠ [] → s.context.completionQueue.alarms = 0 ∧ s.alarmInHand = false) := by
  have hle : s.wakeUps + s.alarmInHand.toNat ≤ 1 := by
    obtain ⟨-, -, hH⟩ := handshake_of_exec hrun
    rcases hH with h | h | h | h
    · exact h.wakeUps_le
    · exact h.wakeUps_le
    · exact h.wakeUps_le
    · obtain ⟨hshut, -⟩ := CompletionQueue.drained_iff.mp h.drained
      simp [isShutdown_of_mem hrun hno] at hshut
  refine ⟨hle, fun hsig => ?_⟩
  have hpos : 0 < s.signalling.length := List.length_pos_iff.mpr hsig
  have hhand : s.alarmInHand.toNat = 0 := by
    simp only [wakeUps] at hle
    omega
  refine ⟨?_, by simpa using hhand⟩
  simp only [wakeUps] at hle
  omega

/-- One operation scheduled from outside, up to the delivery of its alarm. -/
theorem wakeUps_le_one_first :
    ∃ s h, contextMachine.exec [.start 0, .run, .signal (.operation 0)] = some (s, h) ∧
      s.signalling.length + s.context.completionQueue.alarms + s.alarmInHand.toNat ≤ 1 ∧
      (s.signalling ≠ [] → s.context.completionQueue.alarms = 0 ∧ s.alarmInHand = false) := by
  obtain ⟨s, h, hrun⟩ :=
    contextMachine.exec_of_isSome [.start 0, .run, .signal (.operation 0)] rfl
  exact ⟨s, h, hrun, wakeUps_le_one hrun (by decide)⟩

/-! ### No lost wake-up -/

/-- The loop does not wait with work at hand: if it stands at `Next` and there
is no event, no alarm, and no thread that owes one, both queues are empty. -/
def NoLostWakeUp (s : State) : Prop :=
  s.pc? = some .callNext → s.context.completionQueue.events = [] →
    s.context.completionQueue.alarms = 0 → s.signalling = [] →
    s.context.localQueue = [] ∧ s.context.remoteQueue.items = []

/-- The step takes the loop to its `Next` call. -/
def EntersNext (s : State) (a : Action) : Prop :=
  a = .loop ∧ ∃ f fs, s.frames = f :: fs ∧
    (f.pc = .checkRemote ∧ s.context.remoteQueueReadSubmitted = true ∨
      ∃ submitted, f.pc = .assignSubmitted submitted)

/-- Something is there, or on its way, that ends a `Next` call: a finished gRPC
operation or a wake-up. -/
def wakePending (s : State) : Prop :=
  s.context.completionQueue.events ≠ [] ∨ 0 < s.wakeUps

/-- At `Next` with no wake-up on its way, `remote_queue_` is empty or the loop
knows of work in `local_queue_`. -/
theorem Handshake.remote_empty {s : State} (hL : LoopOk s) (h : Handshake s)
    (hpc : s.pc? = some .callNext) (hw : s.wakeUps = 0) (hl : s.context.localQueue = []) :
    s.context.remoteQueue.items = [] := by
  have hsub : s.readSubmitted = true := by
    simp only [readSubmitted, hpc]
    by_contra hne
    exact hL.waiting hpc (by simpa using hne) hl
  rcases h with h | h | h | h
  · exact absurd (h.early_of_pc? hpc) Bool.false_ne_true
  · exact absurd h.one (by simp [hw])
  · rcases h.set hsub with ⟨hq, -⟩ | ⟨-, hw'⟩
    · exact AtomicQueue.items_of_not_isActive hq
    · omega
  · rcases h.set hsub with hq | hsig
    · exact AtomicQueue.items_of_not_isActive hq
    · have := List.length_pos_iff.mpr hsig
      simp only [wakeUps] at hw
      omega

theorem wakeUps_le_scheduleRemote (s : State) (op : OperationBase) :
    s.wakeUps ≤ (s.scheduleRemote op).wakeUps := by
  simp only [wakeUps, scheduleRemote_signalling, scheduleRemote_completionQueue]
  split <;> simp

theorem wakeUps_signal {s : State} {op : OperationBase} (hop : op ∈ s.signalling) :
    (s.signalling.erase op).length + (s.context.completionQueue.alarms + 1) = s.wakeUps := by
  have hpos := List.length_pos_of_mem hop
  rw [wakeUps, List.length_erase_of_mem hop]
  omega

/-- No receiver runs while the loop stands at `Next`, and no nested `Run`
registers its callback. -/
theorem not_onLoop_of_callNext {s : State} (hpc : s.pc? = some .callNext) (run : ℕ) :
    s.inReceiver = false ∧ s.inNestedRun run = false := by
  refine ⟨by simp [inReceiver, hpc], ?_⟩
  rcases hf : s.frames with - | ⟨f, - | ⟨g, fs⟩⟩
  · simp [inNestedRun, hf]
  · simp [inNestedRun, hf]
  · rw [pc?_of_frames hf, Option.some.injEq] at hpc
    simp [inNestedRun, hf, hpc]

/-- While the loop stands at `Next` nobody touches `local_queue_`, and what can
end the wait stays. -/
theorem callNext_step {s s' : State} {a : Action} {e : List Observation} (hF : FramesOk s)
    (hs : Step s a s' e) (hpc : s'.pc? = some .callNext) :
    (s.EntersNext a ∨ s.pc? = some .callNext) ∧
      s'.context.localQueue = s.context.localQueue ∧ (s.wakePending → s'.wakePending) := by
  cases hs with
  | readSubmitted hf hpc' hr =>
    exact ⟨Or.inl ⟨rfl, _, _, hf, Or.inl ⟨hpc', hr⟩⟩, rfl, id⟩
  | assign hf hpc' => exact ⟨Or.inl ⟨rfl, _, _, hf, Or.inr ⟨_, hpc'⟩⟩, rfl, id⟩
  | leave hf =>
    rcases hF.pc?_leave hf with hp | ⟨id, r, rest, hp⟩ <;> simp [hp] at hpc
  | @start id =>
    refine ⟨Or.inr hpc, rfl, ?_⟩
    rintro (he | hw)
    · exact Or.inl he
    · have hle := wakeUps_le_scheduleRemote (s.setExecute id .onScheduleComplete) (.operation id)
      exact Or.inr (Nat.lt_of_lt_of_le hw hle)
  | @requestStop run =>
    have hsame : (s.stopRemote run).pc? = s.pc? := pc?_map (fun f => f.requestStop_pc _) rfl
    refine ⟨Or.inr (hsame ▸ hpc), rfl, ?_⟩
    rintro (he | hw)
    · exact Or.inl he
    · exact Or.inr (Nat.lt_of_lt_of_le hw (wakeUps_le_scheduleRemote
        { s with frames := s.frames.map (·.requestStop run) } (.stopOperation run)))
  | @requestStopOnLoop run hst hr =>
    have hsame : (s.stopLocal run).pc? = s.pc? := pc?_map (fun f => f.requestStop_pc _) rfl
    obtain ⟨h₁, h₂⟩ := not_onLoop_of_callNext (hsame ▸ hpc) run
    simp [h₁, h₂] at hr
  | signal hop hq =>
    refine ⟨Or.inr hpc, rfl, Or.imp_right fun hw => ?_⟩
    show 0 < _
    rw [wakeUps, wakeUps_signal hop]
    exact hw
  | finishRpc ht => exact ⟨Or.inr hpc, rfl, fun _ => Or.inl (by simp)⟩
  | startOnLoop | shutDown | destroy => exact ⟨Or.inr hpc, rfl, id⟩
  | _ => simp [pc?] at hpc

/-- Entering `Next` only moves the loop thread. -/
theorem EntersNext.step_eq {s : State} {a : Action} (h : s.EntersNext a) :
    ∃ s', contextMachine.step s a = some (s', []) ∧ s'.pc? = some .callNext ∧
      s'.context.localQueue = s.context.localQueue ∧
      s'.context.completionQueue = s.context.completionQueue ∧ s'.signalling = s.signalling := by
  obtain ⟨rfl, f, fs, hf, ⟨hpc, hr⟩ | ⟨submitted, hpc⟩⟩ := h
  · refine ⟨{ s with frames := f.goto .callNext :: fs }, ?_, rfl, rfl, rfl, rfl⟩
    show s.step .loop = _
    simp [step, hf, loopStep, hpc, runImplStep, hr]
  · refine ⟨{ s with
        context := { s.context with remoteQueueReadSubmitted := submitted }
        frames := f.goto .callNext :: fs }, ?_, rfl, rfl, rfl, rfl⟩
    show s.step .loop = _
    simp [step, hf, loopStep, hpc, runImplStep]

theorem EntersNext.not_loopTop {s : State} {a : Action} (h : s.EntersNext a) :
    s.pc? ≠ some .loopTop := by
  obtain ⟨-, f, fs, hf, ⟨hpc, -⟩ | ⟨submitted, hpc⟩⟩ := h <;> simp [pc?, hf, hpc]

/-- If something is pending whenever the loop enters `Next` with work in
`local_queue_`, then something is pending whenever it stands there with work. -/
theorem wakePending_of_entersNext {as : List Action}
    (hcond : ∀ s h a, contextMachine.Takes as s h a → s.EntersNext a →
      s.context.localQueue = [] ∨ s.wakePending)
    {s : State} {h : List Observation} (hv : contextMachine.Visits as s h)
    (hpc : s.pc? = some .callNext) : s.context.localQueue = [] ∨ s.wakePending := by
  refine (Machine.visits_induction
    (I := fun s _ => FramesOk s ∧
      (s.pc? = some .callNext → s.context.localQueue = [] ∨ s.wakePending))
    (P := fun s _ a => s.EntersNext a → s.context.localQueue = [] ∨ s.wakePending)
    ⟨framesOk_init, ?_⟩ ?_ hcond hv).2 hpc
  · intro hpc
    simp [contextMachine, pc?] at hpc
  · rintro s h a s' e ⟨hF, ih⟩ hP hs
    have hst := step_cases hs
    refine ⟨hF.step hst, fun hpc' => ?_⟩
    obtain ⟨hcome, hl, hw⟩ := callNext_step hF hst hpc'
    rw [hl]
    apply Or.imp_right hw
    rcases hcome with hent | hpc
    · exact hP hent
    · exact ih hpc

/-- **No lost wake-up**, in a whole run, exactly if something is pending that
ends the wait whenever the loop enters `Next` in a pass that has found work: in
which it looked into a `remote_queue_` that was not empty, or a stop was
requested on the loop thread. -/
theorem noLostWakeUp_iff (as : List Action) :
    (∀ s h, contextMachine.Visits as s h → s.NoLostWakeUp) ↔
      ∀ as₁ a s h, as₁ ++ [a] <+: as → contextMachine.exec as₁ = some (s, h) →
        s.EntersNext a → PassFindsWork as₁ → s.wakePending := by
  constructor
  · -- the state after the step stands at `Next` with the queues and events of `s`
    intro hall as₁ a s h hp hrun hent hwork
    by_contra hidle
    simp only [wakePending, wakeUps, not_or, not_not, Nat.not_lt, Nat.le_zero,
      Nat.add_eq_zero_iff, List.length_eq_zero_iff] at hidle
    obtain ⟨s', hs, hpc, hl, hcq, hsig⟩ := hent.step_eq
    have hv : contextMachine.Visits as s' (h ++ []) :=
      ⟨as₁ ++ [a], hp, Machine.exec_concat.mpr ⟨s, h, [], hrun, hs, rfl⟩⟩
    have hnone := hall s' _ hv hpc (by rw [hcq]; exact hidle.1)
      (by rw [hcq]; exact hidle.2.2) (hsig.trans hidle.2.1)
    exact (localQueue_eq_nil_iff hrun hent.not_loopTop).mp (hl.symm.trans hnone.1) hwork
  · intro hcond s h hv hpc hev hal hsig
    obtain ⟨as', -, hrun⟩ := id hv
    obtain ⟨-, hL, hH⟩ := handshake_of_exec hrun
    have hw : s.wakeUps = 0 := by simp [wakeUps, hal, hsig]
    have hl : s.context.localQueue = [] := by
      refine (wakePending_of_entersNext ?_ hv hpc).resolve_right (by simp [wakePending, hev, hw])
      rintro t k a ⟨as₁, hp, hrun₁, -⟩ hent
      by_cases hwork : PassFindsWork as₁
      · exact Or.inr (hcond as₁ a t k hp hrun₁ hent hwork)
      · exact Or.inl ((localQueue_eq_nil_iff hrun₁ hent.not_loopTop).mpr hwork)
    exact ⟨hl, hH.remote_empty hL hpc hw hl⟩

/-- A second operation is scheduled from outside after the first one's alarm
was consumed: the loop moves it to `local_queue_` and waits for the RPC of the
first. -/
theorem not_noLostWakeUp :
    ¬ ∀ s h, contextMachine.Visits
      [.start 0, .signal (.operation 0), .run, .loop, .loop, .loop, .loop, .loop, .loop,
        .next (.alarm true), .loop, .loop, .loop, .loop, .loop, .loop, .loop, .loop,
        .start 1, .signal (.operation 1), .next (.alarm true), .loop, .loop, .loop, .loop,
        .loop, .loop] s h → s.NoLostWakeUp := by
  intro hall
  have hidle := hall _ _ (Machine.Visits.last rfl) rfl rfl rfl rfl
  exact List.cons_ne_nil _ _ hidle.1

end State

end Agrpc
