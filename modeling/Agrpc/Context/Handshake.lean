/-
Agrpc/Context/Handshake.lean

The wake-up handshake between the loop and the threads that schedule remotely.

`remote_queue_read_submitted_` and the state of `remote_queue_` are two copies
of one fact: the flag says the loop has marked the queue inactive and waits to
be woken.  They are changed at different program points, so the flag is read
through `readSubmitted`, which looks past an assignment the loop is about to
make.  In the steady state

* flag set: the queue is inactive and no wake-up is on its way, or it is active
  and exactly one is;
* flag clear: the queue is active and no wake-up is on its way.

The constructor's state is not steady (flag clear, queue inactive), nor is the
first batch (flag clear, one wake-up on its way), and a completion queue that
is shut down before the first wake-up was sent never becomes steady.  The
invariant is therefore a disjunction of four phases, `Fresh`, `FirstBatch`,
`Steady` and `Stranded`, and the step lemmas follow the phases.
-/
import Agrpc.Context.Frames

namespace Agrpc

open Interleaving

namespace State

/-! ### What the loop thread knows of the queue -/

/-- `remote_queue_read_submitted_`, or the value the loop thread is about to
assign to it. -/
def readSubmitted (s : State) : Bool :=
  match s.pc? with
  | some (.assignSubmitted submitted) => submitted
  | some .gotEvent => s.context.event.tag.isSome && s.context.remoteQueueReadSubmitted
  | _ => s.context.remoteQueueReadSubmitted

/-- The wake-ups on their way: threads between a true `enqueue` and their
`Set`, and alarm events `Next` has not returned. -/
def wakeUps (s : State) : ℕ := s.signalling.length + s.context.completionQueue.alarms

/-- What the program point says about the flag and `local_queue_`: the loop
goes to `Next` with the flag clear only after it moved a batch. -/
structure LoopOk (s : State) : Prop where
  clear : s.pc? = some .dequeueRemote → s.context.remoteQueueReadSubmitted = false
  moved : s.pc? = some (.assignSubmitted false) → s.context.localQueue ≠ []
  waiting : s.pc? = some .callNext → s.context.remoteQueueReadSubmitted = false →
    s.context.localQueue ≠ []

theorem loopOk_init : LoopOk {} := by constructor <;> simp [pc?]

/-- A step of another party leaves the program point alone. -/
theorem LoopOk.congr {s s' : State} (h : LoopOk s) (hpc : s'.pc? = s.pc?)
    (hr : s'.context.remoteQueueReadSubmitted = s.context.remoteQueueReadSubmitted)
    (hl : s.context.localQueue ≠ [] → s'.context.localQueue ≠ []) : LoopOk s' where
  clear := fun hp => by rw [hr]; exact h.clear (hpc ▸ hp)
  moved := fun hp => hl (h.moved (hpc ▸ hp))
  waiting := fun hp hs => hl (h.waiting (hpc ▸ hp) (hr ▸ hs))

theorem LoopOk.step {s s' : State} {a : Action} {e : List Observation} (hF : FramesOk s)
    (h : LoopOk s) (hs : Step s a s' e) : LoopOk s' := by
  cases hs with
  | leave hf =>
    rcases hF.pc?_leave hf with hp | ⟨id, r, rest, hp⟩ <;>
      constructor <;> simp [hp]
  | executeStop hf =>
    refine ⟨?_, ?_, ?_⟩ <;> simp [pc?]
  | requestStop => exact h.congr (pc?_map (fun f => f.requestStop_pc _) rfl) rfl id
  | requestStopOnLoop =>
    exact h.congr (pc?_map (fun f => f.requestStop_pc _) rfl) rfl
      (by simp [stopLocal, GrpcContext.scheduleLocal])
  | start | startOnLoop | signal | finishRpc | shutDown | destroy => exact h.congr rfl rfl id
  | readSubmitted hf hpc hr | readNotSubmitted hf hpc hr =>
    refine ⟨?_, ?_, ?_⟩ <;> simp [pc?, hr]
  | dequeueAll hf hpc hq => refine ⟨?_, ?_, ?_⟩ <;> simp [pc?]
  | @assign f fs submitted hf hpc =>
    refine ⟨?_, ?_, ?_⟩
    · simp [pc?]
    · simp [pc?]
    · rintro - hsub
      obtain rfl : submitted = false := hsub
      exact h.moved (by simp [pc?, hf, hpc])
  | run | enter | nothingPending | takeBatch | batchDone | executeSchedule
  | executeRequest | setValueThrows | receiverReturns | stopSeen | stopNotSeen
  | markInactive | nextAlarm | nextTag | nextShutdown | dispatchAlarm | dispatchTag =>
    refine ⟨?_, ?_, ?_⟩ <;> simp [pc?]

/-! ### The steady state -/

/-- The flag and the queue agree. -/
structure Steady (s : State) : Prop where
  set : s.readSubmitted = true →
    s.context.remoteQueue.isActive = false ∧ s.wakeUps = 0 ∨
      s.context.remoteQueue.isActive = true ∧ s.wakeUps = 1
  clear : s.readSubmitted = false → s.context.remoteQueue.isActive = true ∧ s.wakeUps = 0

theorem Steady.congr {s s' : State} (h : Steady s) (hr : s'.readSubmitted = s.readSubmitted)
    (hq : s'.context.remoteQueue.isActive = s.context.remoteQueue.isActive)
    (hw : s'.wakeUps = s.wakeUps) : Steady s' where
  set := by simpa [hr, hq, hw] using h.set
  clear := by simpa [hr, hq, hw] using h.clear

/-- A remote enqueue: only the thread that finds the queue inactive owes a
wake-up, and then none is on its way. -/
theorem Steady.scheduleRemote {s s' : State} (h : Steady s) {x : OperationBase}
    (hr : s'.readSubmitted = s.readSubmitted)
    (hq : s'.context.remoteQueue = (s.context.remoteQueue.enqueue x).2)
    (hg : s'.signalling
      = if s.context.remoteQueue.isActive then s.signalling else x :: s.signalling)
    (ha : s'.context.completionQueue.alarms = s.context.completionQueue.alarms) :
    Steady s' := by
  have hact : s'.context.remoteQueue.isActive = true := by simp [hq]
  refine ⟨fun hsub => Or.inr ⟨hact, ?_⟩, fun hsub => ⟨hact, ?_⟩⟩
  · rcases h.set (hr ▸ hsub) with ⟨hina, hw⟩ | ⟨hact', hw⟩
    · simp only [wakeUps, hg, ha, hina] at hw ⊢
      simp only [Bool.false_eq_true, if_false, List.length_cons]
      omega
    · simpa [wakeUps, hg, ha, hact'] using hw
  · obtain ⟨hact', hw⟩ := h.clear (hr ▸ hsub)
    simpa [wakeUps, hg, ha, hact'] using hw

theorem readSubmitted_map {s s' : State} {g : RunFrame → RunFrame}
    (hpc : ∀ f, (g f).pc = f.pc) (hf : s'.frames = s.frames.map g)
    (he : s'.context.event = s.context.event)
    (hr : s'.context.remoteQueueReadSubmitted = s.context.remoteQueueReadSubmitted) :
    s'.readSubmitted = s.readSubmitted := by
  simp only [readSubmitted, pc?_map hpc hf, he, hr]

/-- The flag is what the loop knows of it wherever no assignment is due. -/
theorem readSubmitted_inReceiver {s : State}
    (h : s.pc? = none ∨ ∃ id r rest, s.pc? = some (.executing id r rest)) :
    s.readSubmitted = s.context.remoteQueueReadSubmitted := by
  rcases h with h | ⟨id, r, rest, h⟩ <;> simp [readSubmitted, h]

theorem Steady.step {s s' : State} {a : Action} {e : List Observation} (hF : FramesOk s)
    (hL : LoopOk s) (h : Steady s) (hs : Step s a s' e) : Steady s' := by
  cases hs with
  | run hr =>
    refine h.congr ?_ rfl rfl
    have hpc : s.pc? = none ∨ ∃ id r rest, s.pc? = some (.executing id r rest) :=
      hr.imp (fun hf => by simp [pc?, hf]) inReceiver_iff.mp
    rw [readSubmitted_inReceiver hpc]
    simp [readSubmitted, pc?]
  | leave hf hpc =>
    refine h.congr ?_ rfl rfl
    rw [readSubmitted_inReceiver (hF.pc?_leave hf)]
    simp [readSubmitted, pc?, hf, hpc]
  | executeStop hf hpc => exact h.congr (by simp [readSubmitted, pc?, hf, hpc]) rfl rfl
  | markInactive hf hpc hq =>
    -- the queue was active, empty, with no wake-up on its way
    have hclr : s.readSubmitted = false := by
      simp [readSubmitted, pc?, hf, hpc, hL.clear (by simp [pc?, hf, hpc])]
    obtain ⟨-, hw⟩ := h.clear hclr
    exact ⟨fun _ => Or.inl ⟨rfl, hw⟩, by simp [readSubmitted, pc?]⟩
  | dequeueAll hf hpc hq =>
    have hclr : s.readSubmitted = false := by
      simp [readSubmitted, pc?, hf, hpc, hL.clear (by simp [pc?, hf, hpc])]
    obtain ⟨-, hw⟩ := h.clear hclr
    exact ⟨by simp [readSubmitted, pc?], fun _ => ⟨rfl, hw⟩⟩
  | nextAlarm hf hpc ha =>
    -- an alarm on its way: the flag is set, the queue active, and this was it
    have hw : s.context.remoteQueue.isActive = true ∧ s.wakeUps = 1 := by
      rcases hsub : s.readSubmitted with - | -
      · have := (h.clear hsub).2
        simp only [wakeUps] at this
        omega
      · rcases h.set hsub with ⟨-, hw⟩ | hw
        · simp only [wakeUps] at hw
          omega
        · exact hw
    refine ⟨by simp [readSubmitted, pc?], fun _ => ⟨hw.1, ?_⟩⟩
    have := hw.2
    simp only [wakeUps] at this ⊢
    omega
  | start =>
    exact h.scheduleRemote (x := .operation _) rfl rfl
      (by rw [startRemote, scheduleRemote_signalling]; rfl) rfl
  | requestStop =>
    exact h.scheduleRemote (x := .stopOperation _)
      (readSubmitted_map (fun f => f.requestStop_pc _) rfl rfl rfl) rfl (by simp [stopRemote]) rfl
  | requestStopOnLoop =>
    exact h.congr (readSubmitted_map (fun f => f.requestStop_pc _) rfl rfl rfl) rfl rfl
  | @signal op hop hq =>
    refine h.congr rfl rfl ?_
    have := List.length_pos_of_mem hop
    simp only [wakeUps, List.length_erase_of_mem hop]
    omega
  | startOnLoop | finishRpc | shutDown | destroy => exact h.congr rfl rfl rfl
  | assign hf hpc | dispatchAlarm hf hpc ht | dispatchTag hf hpc ht =>
    exact h.congr (by simp [readSubmitted, pc?, *]) rfl rfl
  | enter hf hpc | nothingPending hf hpc | takeBatch hf hpc | batchDone hf hpc
  | executeSchedule hf hpc | executeRequest hf hpc | setValueThrows hf hpc
  | receiverReturns hf hpc | stopSeen hf hpc | stopNotSeen hf hpc | readSubmitted hf hpc
  | readNotSubmitted hf hpc | nextTag hf hpc | nextShutdown hf hpc =>
    exact h.congr (by simp [readSubmitted, pc?, rpcStarted, hf, hpc]) rfl rfl

end State

end Agrpc
