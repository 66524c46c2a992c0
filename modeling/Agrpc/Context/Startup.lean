/-
Agrpc/Context/Startup.lean

The handshake before its steady state, and the invariant of all runs.

* `Fresh`: from the constructor to the first time the loop takes a batch from
  `remote_queue_`.  The flag is clear although the queue may be inactive.
* `FirstBatch`: the loop has taken the first batch and has not got the first
  alarm; the one wake-up on its way is the one of the first enqueue.
* `Stranded`: the completion queue was shut down and drained before that
  wake-up was sent, so no event will ever come.

No operation has been executed in the first two, which is why no completion
can come between the first batch and the first alarm.
-/
import Agrpc.Context.Handshake

namespace Agrpc

open Interleaving

namespace LoopPc

/-- The program points of a loop that has executed nothing and taken nothing. -/
def early : LoopPc → Bool
  | registered | loopTop | checkStop | checkRemote | dequeueRemote | exited _ => true
  | _ => false

end LoopPc

namespace State

structure Fresh (s : State) : Prop where
  unread : s.context.remoteQueueReadSubmitted = false
  noLocal : s.context.localQueue = []
  noTags : s.context.completionQueue.tags = []
  noEvents : s.context.completionQueue.events = []
  early : ∀ f ∈ s.frames, f.pc.early = true
  queue : s.context.remoteQueue = .inactive ∧ s.wakeUps = 0 ∨
    ∃ x xs, s.context.remoteQueue = .active (x :: xs) ∧ s.wakeUps = 1

structure FirstBatch (s : State) : Prop where
  top : s.pc? = some (.assignSubmitted false) ∨ s.pc? = some .callNext
  unread : s.context.remoteQueueReadSubmitted = false
  noTags : s.context.completionQueue.tags = []
  noEvents : s.context.completionQueue.events = []
  active : s.context.remoteQueue.isActive = true
  one : s.wakeUps = 1

structure Stranded (s : State) : Prop where
  drained : s.context.completionQueue.drained = true
  set : s.readSubmitted = true → s.context.remoteQueue.isActive = false ∨ s.signalling ≠ []
  clear : s.readSubmitted = false → s.context.remoteQueue.isActive = true

/-- The invariant of the handshake. -/
def Handshake (s : State) : Prop := Fresh s ∨ FirstBatch s ∨ Steady s ∨ Stranded s

/-! ### `Fresh` -/

theorem fresh_init : Fresh {} :=
  ⟨rfl, rfl, rfl, rfl, by simp, Or.inl ⟨rfl, rfl⟩⟩

theorem Fresh.pc_early {s : State} (h : Fresh s) {f : RunFrame} {fs : List RunFrame}
    (hf : s.frames = f :: fs) : f.pc.early = true := h.early f (by simp [hf])

theorem Fresh.early_of_pc? {s : State} (h : Fresh s) {pc : LoopPc} (hpc : s.pc? = some pc) :
    pc.early = true := by
  rcases hf : s.frames with - | ⟨f, fs⟩
  · simp [pc?, hf] at hpc
  · rw [pc?_of_frames hf, Option.some.injEq] at hpc
    exact hpc ▸ h.pc_early hf

theorem Fresh.not_inReceiver {s : State} (h : Fresh s) : s.inReceiver = false := by
  by_contra hr
  obtain ⟨id, r, rest, hpc⟩ := inReceiver_iff.mp (by simpa using hr)
  exact Bool.false_ne_true (h.early_of_pc? hpc)

theorem Fresh.not_inNestedRun {s : State} (hF : FramesOk s) (h : Fresh s) (run : ℕ) :
    s.inNestedRun run = false := by
  rcases hf : s.frames with - | ⟨f, - | ⟨g, fs⟩⟩
  · simp [inNestedRun, hf]
  · simp [inNestedRun, hf]
  · obtain ⟨id, r, rest, hpc⟩ := hF.suspended g (by simp [hf])
    have := h.early g (by simp [hf])
    simp [hpc, LoopPc.early] at this

/-- Moving the innermost call between early program points. -/
theorem Fresh.goto {s : State} (h : Fresh s) {f : RunFrame} {fs : List RunFrame}
    (hf : s.frames = f :: fs) {pc : LoopPc} (hpc : pc.early = true) :
    Fresh { s with frames := f.goto pc :: fs } where
  unread := h.unread
  noLocal := h.noLocal
  noTags := h.noTags
  noEvents := h.noEvents
  early := by
    rintro g hg
    rcases List.mem_cons.mp hg with rfl | hg
    · exact hpc
    · exact h.early g (by simp [hf, hg])
  queue := h.queue

/-- The first enqueue owes the one wake-up; a later one owes none. -/
theorem Fresh.scheduleRemote {s : State} (h : Fresh s) (x : OperationBase) :
    Fresh (s.scheduleRemote x) where
  unread := h.unread
  noLocal := h.noLocal
  noTags := h.noTags
  noEvents := h.noEvents
  early := h.early
  queue := by
    right
    rcases h.queue with ⟨hq, hw⟩ | ⟨y, ys, hq, hw⟩
    · refine ⟨x, [], by simp [hq, AtomicQueue.enqueue], ?_⟩
      simp only [wakeUps, scheduleRemote_signalling, hq, AtomicQueue.isActive,
        scheduleRemote_completionQueue] at hw ⊢
      simp only [Bool.false_eq_true, if_false, List.length_cons]
      omega
    · refine ⟨y, ys ++ [x], by simp [hq, AtomicQueue.enqueue], ?_⟩
      simpa [wakeUps, hq, AtomicQueue.isActive] using hw

theorem Fresh.step {s s' : State} {a : Action} {e : List Observation} (hF : FramesOk s)
    (h : Fresh s) (hs : Step s a s' e) : Fresh s' ∨ FirstBatch s' := by
  cases hs with
  | run hr =>
    refine Or.inl ⟨h.unread, h.noLocal, h.noTags, h.noEvents, ?_, h.queue⟩
    simpa [LoopPc.early] using h.early
  | leave hf =>
    exact Or.inl ⟨h.unread, h.noLocal, h.noTags, h.noEvents,
      fun g hg => h.early g (by simp [hf, hg]), h.queue⟩
  | enter hf | nothingPending hf | stopSeen hf | stopNotSeen hf | readNotSubmitted hf =>
    exact Or.inl (h.goto hf rfl)
  | dequeueAll hf hpc hq =>
    rcases h.queue with ⟨hq', -⟩ | ⟨-, -, -, hw⟩
    · simp [hq] at hq'
    · exact Or.inr ⟨Or.inl (by simp [pc?]), h.unread, h.noTags, h.noEvents, rfl, hw⟩
  | @start id =>
    have h₁ : Fresh (s.setExecute id .onScheduleComplete) :=
      ⟨h.unread, h.noLocal, h.noTags, h.noEvents, h.early, h.queue⟩
    exact Or.inl (h₁.scheduleRemote _)
  | @requestStop run =>
    have h₁ : Fresh { s with frames := s.frames.map (·.requestStop run) } :=
      ⟨h.unread, h.noLocal, h.noTags, h.noEvents, by simpa using h.early, h.queue⟩
    exact Or.inl (h₁.scheduleRemote _)
  | @signal op hop hq =>
    refine Or.inl ⟨h.unread, h.noLocal, h.noTags, h.noEvents, h.early, ?_⟩
    have hw : wakeUps { s with
        context := { s.context with
          completionQueue := { s.context.completionQueue with
            alarms := s.context.completionQueue.alarms + 1 } }
        signalling := s.signalling.erase op } = s.wakeUps := by
      have := List.length_pos_of_mem hop
      simp only [wakeUps, List.length_erase_of_mem hop]
      omega
    rw [hw]
    exact h.queue
  | shutDown | destroy =>
    exact Or.inl ⟨h.unread, h.noLocal, h.noTags, h.noEvents, h.early, h.queue⟩
  -- what remains needs an executed operation, a batch, or a set flag
  | takeBatch hf hpc hl => exact absurd h.noLocal hl
  | readSubmitted hf hpc hr => simp [h.unread] at hr
  | markInactive hf hpc hq => rcases h.queue with ⟨hq', -⟩ | ⟨x, xs, hq', -⟩ <;> simp [hq] at hq'
  | startOnLoop hs hr => simp [h.not_inReceiver] at hr
  | requestStopOnLoop hs hr => simp [h.not_inReceiver, h.not_inNestedRun hF] at hr
  | finishRpc ht => simp [h.noTags] at ht
  | batchDone hf hpc | executeStop hf hpc | executeSchedule hf hpc | executeRequest hf hpc
  | setValueThrows hf hpc | receiverReturns hf hpc | assign hf hpc | nextAlarm hf hpc
  | nextTag hf hpc | nextShutdown hf hpc | dispatchAlarm hf hpc | dispatchTag hf hpc =>
    have := h.pc_early hf
    simp [hpc, LoopPc.early] at this

/-! ### `FirstBatch` -/

theorem FirstBatch.top_pc {s : State} (h : FirstBatch s) {f : RunFrame} {fs : List RunFrame}
    (hf : s.frames = f :: fs) : f.pc = .assignSubmitted false ∨ f.pc = .callNext := by
  simpa [pc?_of_frames hf] using h.top

theorem FirstBatch.not_inReceiver {s : State} (h : FirstBatch s) : s.inReceiver = false := by
  rcases h.top with hpc | hpc <;> simp [inReceiver, hpc]

theorem FirstBatch.scheduleRemote {s : State} (h : FirstBatch s) (x : OperationBase) :
    FirstBatch (s.scheduleRemote x) where
  top := h.top
  unread := h.unread
  noTags := h.noTags
  noEvents := h.noEvents
  active := by simp
  one := by simpa [wakeUps, h.active] using h.one

theorem FirstBatch.step {s s' : State} {a : Action} {e : List Observation}
    (h : FirstBatch s) (hs : Step s a s' e) : FirstBatch s' ∨ Steady s' ∨ Stranded s' := by
  cases hs with
  | assign hf hpc =>
    rcases h.top_pc hf with hpc' | hpc' <;> simp [hpc] at hpc'
    subst hpc'
    exact Or.inl ⟨Or.inr (by simp [pc?]), rfl, h.noTags, h.noEvents, h.active, h.one⟩
  | nextAlarm hf hpc ha =>
    -- the first wake-up arrives, and the steady state begins
    refine Or.inr (Or.inl ⟨by simp [readSubmitted, pc?], fun _ => ⟨h.active, ?_⟩⟩)
    have := h.one
    simp only [wakeUps] at this ⊢
    omega
  | nextShutdown hf hpc hd =>
    refine Or.inr (Or.inr ⟨hd, ?_, fun _ => h.active⟩)
    simp [readSubmitted, pc?, h.unread]
  | @start id =>
    have h₁ : FirstBatch (s.setExecute id .onScheduleComplete) :=
      ⟨h.top, h.unread, h.noTags, h.noEvents, h.active, h.one⟩
    exact Or.inl (h₁.scheduleRemote _)
  | @requestStop run =>
    have hpc : pc? { s with frames := s.frames.map (·.requestStop run) } = s.pc? :=
      pc?_map (fun f => f.requestStop_pc _) rfl
    have h₁ : FirstBatch { s with frames := s.frames.map (·.requestStop run) } :=
      ⟨by rw [hpc]; exact h.top, h.unread, h.noTags, h.noEvents, h.active, h.one⟩
    exact Or.inl (h₁.scheduleRemote _)
  | @signal op hop hq =>
    refine Or.inl ⟨h.top, h.unread, h.noTags, h.noEvents, h.active, ?_⟩
    have := h.one
    have := List.length_pos_of_mem hop
    simp only [wakeUps, List.length_erase_of_mem hop] at *
    omega
  | shutDown | destroy =>
    exact Or.inl ⟨h.top, h.unread, h.noTags, h.noEvents, h.active, h.one⟩
  -- the loop is at no other program point, and nothing is running at gRPC
  | run hr =>
    rcases hr with hf | hr
    · rcases h.top with hpc | hpc <;> simp [pc?, hf] at hpc
    · simp [h.not_inReceiver] at hr
  | startOnLoop hs hr => simp [h.not_inReceiver] at hr
  | @requestStopOnLoop run hs hr =>
    rcases hf : s.frames with - | ⟨f, - | ⟨g, fs⟩⟩
    · simp [h.not_inReceiver, inNestedRun, hf] at hr
    · simp [h.not_inReceiver, inNestedRun, hf] at hr
    · rcases h.top_pc hf with hpc | hpc <;> simp [h.not_inReceiver, inNestedRun, hf, hpc] at hr
  | nextTag hf hpc he => simp [h.noEvents] at he
  | finishRpc ht => simp [h.noTags] at ht
  | enter hf hpc | leave hf hpc | nothingPending hf hpc | takeBatch hf hpc | batchDone hf hpc
  | executeStop hf hpc | executeSchedule hf hpc | executeRequest hf hpc | setValueThrows hf hpc
  | receiverReturns hf hpc | stopSeen hf hpc | stopNotSeen hf hpc | readSubmitted hf hpc
  | readNotSubmitted hf hpc | markInactive hf hpc | dequeueAll hf hpc | dispatchAlarm hf hpc
  | dispatchTag hf hpc =>
    rcases h.top_pc hf with hpc' | hpc' <;> simp [hpc] at hpc'

/-! ### `Stranded` -/

theorem Stranded.congr {s s' : State} (h : Stranded s)
    (hd : s'.context.completionQueue.drained = true)
    (hr : s'.readSubmitted = s.readSubmitted)
    (hq : s'.context.remoteQueue.isActive = s.context.remoteQueue.isActive)
    (hg : s'.signalling = s.signalling) : Stranded s' where
  drained := hd
  set := by simpa [hr, hq, hg] using h.set
  clear := by simpa [hr, hq] using h.clear

theorem Stranded.scheduleRemote {s s' : State} (h : Stranded s) {x : OperationBase}
    (hd : s'.context.completionQueue.drained = true)
    (hr : s'.readSubmitted = s.readSubmitted)
    (hq : s'.context.remoteQueue = (s.context.remoteQueue.enqueue x).2)
    (hg : s'.signalling
      = if s.context.remoteQueue.isActive then s.signalling else x :: s.signalling) :
    Stranded s' where
  drained := hd
  set := by
    intro hsub
    right
    rw [hg]
    split
    next hact => exact (h.set (hr ▸ hsub)).resolve_left (by simp [hact])
    · simp
  clear := fun _ => by simp [hq]

theorem Stranded.step {s s' : State} {a : Action} {e : List Observation} (hF : FramesOk s)
    (h : Stranded s) (hs : Step s a s' e) : Stranded s' := by
  obtain ⟨hshut, halarms, htags, hevents⟩ := CompletionQueue.drained_iff.mp h.drained
  cases hs with
  | run hr =>
    refine h.congr h.drained ?_ rfl rfl
    have hpc : s.pc? = none ∨ ∃ id r rest, s.pc? = some (.executing id r rest) :=
      hr.imp (fun hf => by simp [pc?, hf]) inReceiver_iff.mp
    rw [readSubmitted_inReceiver hpc]
    simp [readSubmitted, pc?]
  | leave hf hpc =>
    refine h.congr h.drained ?_ rfl rfl
    rw [readSubmitted_inReceiver (hF.pc?_leave hf)]
    simp [readSubmitted, pc?, hf, hpc]
  | executeStop hf hpc => exact h.congr h.drained (by simp [readSubmitted, pc?, hf, hpc]) rfl rfl
  | markInactive hf hpc hq =>
    exact ⟨h.drained, fun _ => Or.inl rfl, by simp [readSubmitted, pc?]⟩
  | dequeueAll hf hpc hq =>
    exact ⟨h.drained, by simp [readSubmitted, pc?], fun _ => rfl⟩
  | start =>
    exact h.scheduleRemote (x := .operation _) h.drained rfl rfl
      (by rw [startRemote, scheduleRemote_signalling]; rfl)
  | requestStop =>
    exact h.scheduleRemote (x := .stopOperation _) h.drained
      (readSubmitted_map (fun f => f.requestStop_pc _) rfl rfl rfl) rfl (by simp [stopRemote])
  | requestStopOnLoop =>
    exact h.congr h.drained (readSubmitted_map (fun f => f.requestStop_pc _) rfl rfl rfl) rfl rfl
  | shutDown =>
    refine h.congr ?_ rfl rfl rfl
    exact CompletionQueue.drained_iff.mpr ⟨rfl, halarms, htags, hevents⟩
  | destroy => exact h.congr h.drained rfl rfl rfl
  | assign hf hpc | dispatchAlarm hf hpc ht | dispatchTag hf hpc ht =>
    exact h.congr h.drained (by simp [readSubmitted, pc?, *]) rfl rfl
  | enter hf hpc | nothingPending hf hpc | takeBatch hf hpc | batchDone hf hpc
  | executeRequest hf hpc | setValueThrows hf hpc | receiverReturns hf hpc | stopSeen hf hpc
  | stopNotSeen hf hpc | readSubmitted hf hpc | readNotSubmitted hf hpc
  | nextShutdown hf hpc =>
    exact h.congr h.drained (by simp [readSubmitted, pc?, hf, hpc]) rfl rfl
  -- a drained queue takes no work and gives no events
  | executeSchedule hf hpc hd hx hq => simp [h.drained] at hq
  | startOnLoop hs hr hq => simp [h.drained] at hq
  | signal hs hq => simp [h.drained] at hq
  | nextAlarm hf hpc ha => omega
  | nextTag hf hpc he => simp [hevents] at he
  | finishRpc ht => simp [htags] at ht

/-! ### The invariant of all runs -/

theorem Handshake.step {s s' : State} {a : Action} {e : List Observation} (hF : FramesOk s)
    (hL : LoopOk s) (h : Handshake s) (hs : Step s a s' e) : Handshake s' := by
  rcases h with h | h | h | h
  · exact (h.step hF hs).imp_right Or.inl
  · exact Or.inr (h.step hs)
  · exact Or.inr (Or.inr (Or.inl (h.step hF hL hs)))
  · exact Or.inr (Or.inr (Or.inr (h.step hF hs)))

/-- **The handshake invariant holds in every reachable state.** -/
theorem handshake_of_exec {as : List Action} {s : State} {h : List Observation}
    (hrun : contextMachine.exec as = some (s, h)) : FramesOk s ∧ LoopOk s ∧ Handshake s := by
  refine Machine.exec_induction (I := fun s _ => FramesOk s ∧ LoopOk s ∧ Handshake s)
    ⟨framesOk_init, loopOk_init, Or.inl fresh_init⟩ ?_ hrun
  rintro s h a s' e ⟨hF, hL, hH⟩ hs
  have hst := step_cases hs
  exact ⟨hF.step hst, hL.step hF hst, hH.step hF hL hst⟩

end State

end Agrpc
