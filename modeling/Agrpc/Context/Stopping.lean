/-
Agrpc/Context/Stopping.lean

What becomes of a stop request once the loop has it.

The stop of a `Run` call is *due* when its `StopOperation` is where the call
executes it before it comes to `Next` again: in `local_queue_` at the top of a
pass, or in the batch of the call (`StopDue`).  Whatever the other threads and
the receivers do, nested `Run` calls included, a stop that is due stays due
until the call has returned (`stopping_of_exec`), and the loop thread on its own
brings the call to its end (`stop_ends_run`).
-/
import Agrpc.Context.Progress

namespace Agrpc

open Interleaving

namespace State

/-! ### A stop that is due -/

/-- The stop operation of call `f` is where the call executes it before it comes
to `Next`, or it was executed. -/
def StopDue (s : State) (f : RunFrame) : Prop :=
  match f.pc with
  | .registered | .loopTop | .gotEvent => .stopOperation f.run ∈ s.context.localQueue
  | .draining pending | .executing _ _ pending =>
      f.shouldStop = true ∨ .stopOperation f.run ∈ pending
  | .checkStop => f.shouldStop = true
  | .exited byShutdown => byShutdown = false
  | _ => False

/-- Call `run` has returned, or its stop is due. -/
structure Stopping (s : State) (run : ℕ) : Prop where
  called : run < s.runs
  due : ∀ f ∈ s.frames, f.run = run → StopDue s f

/-- A call that is not moved. -/
theorem StopDue.stay {s s' : State} {f f' : RunFrame} (h : StopDue s f) (hpc : f'.pc = f.pc)
    (hrun : f'.run = f.run) (hstop : f.shouldStop = true → f'.shouldStop = true)
    (hl : s.context.localQueue ⊆ s'.context.localQueue) : StopDue s' f' := by
  unfold StopDue at h ⊢
  rw [hpc, hrun]
  cases hp : f.pc with
  | registered | loopTop | gotEvent =>
    rw [hp] at h
    exact hl h
  | draining pending | executing id r pending =>
    rw [hp] at h
    exact h.imp_left hstop
  | checkStop =>
    rw [hp] at h
    exact hstop h
  | exited byShutdown | checkRemote | dequeueRemote | assignSubmitted | callNext =>
    rw [hp] at h
    exact h

/-- A call that is suspended in a receiver looks at its own batch only. -/
theorem StopDue.suspended {s s' : State} {f : RunFrame} (h : StopDue s f)
    (hpc : ∃ id r rest, f.pc = .executing id r rest) : StopDue s' f := by
  obtain ⟨id, r, rest, hpc⟩ := hpc
  unfold StopDue at h ⊢
  rw [hpc] at h ⊢
  exact h

/-- Moving the innermost call. -/
theorem Stopping.goto {s s' : State} {run : ℕ} (hF : FramesOk s) (h : Stopping s run)
    {f : RunFrame} {fs : List RunFrame} {pc : LoopPc} (hf : s.frames = f :: fs)
    (hf' : s'.frames = f.goto pc :: fs) (hr : s'.runs = s.runs)
    (hdue : f.run = run → StopDue s f → StopDue s' (f.goto pc)) : Stopping s' run := by
  refine ⟨hr ▸ h.called, ?_⟩
  rw [hf']
  intro g hg heq
  rcases List.mem_cons.mp hg with rfl | hg
  · exact hdue heq (h.due f (by simp [hf]) heq)
  · apply (h.due g (by simp [hf, hg]) heq).suspended
    exact hF.suspended g (by simpa [hf] using hg)

/-- A step of another party. -/
theorem Stopping.other {s s' : State} {run : ℕ} (h : Stopping s run) {g : RunFrame → RunFrame}
    (hpc : ∀ f, (g f).pc = f.pc) (hrun : ∀ f, (g f).run = f.run)
    (hstop : ∀ f, (g f).shouldStop = f.shouldStop) (hf : s'.frames = s.frames.map g)
    (hr : s'.runs = s.runs) (hl : s.context.localQueue ⊆ s'.context.localQueue) :
    Stopping s' run := by
  refine ⟨hr ▸ h.called, ?_⟩
  intro f' hf' heq
  rw [hf] at hf'
  obtain ⟨f, hfm, rfl⟩ := List.mem_map.mp hf'
  rw [hrun] at heq
  exact (h.due f hfm heq).stay (hpc f) (hrun f) (fun hs => (hstop f).trans hs) hl

/-- **A stop that is due stays due** until its call has returned. -/
theorem Stopping.step {s s' : State} {a : Action} {e : List Observation} {run : ℕ}
    (hF : FramesOk s) (h : Stopping s run) (hs : Step s a s' e) : Stopping s' run := by
  cases hs with
  | run hr =>
    refine ⟨Nat.lt_succ_of_lt h.called, ?_⟩
    intro f hf heq
    rcases List.mem_cons.mp hf with rfl | hf
    · exact absurd heq (Nat.ne_of_gt h.called)
    · exact (h.due f hf heq).stay rfl rfl id (List.Subset.refl _)
  | leave hf hpc =>
    refine ⟨h.called, ?_⟩
    intro f hm heq
    exact (h.due f (by simp [hf, hm]) heq).stay rfl rfl id (List.Subset.refl _)
  | @executeStop f fs r rest hf hpc hx =>
    refine ⟨h.called, ?_⟩
    intro g' hg' heq
    obtain ⟨g, hg, rfl⟩ := List.mem_map.mp hg'
    rw [RunFrame.seeStop_run] at heq
    rcases List.mem_cons.mp hg with rfl | hg
    · -- the operation is its own stop, or its own is still behind
      have hdue := h.due f (by simp [hf]) heq
      simp only [StopDue, hpc, List.mem_cons, OperationBase.stopOperation.injEq] at hdue
      simp only [StopDue, RunFrame.seeStop_pc, RunFrame.goto_pc, RunFrame.seeStop_shouldStop,
        RunFrame.seeStop_run, RunFrame.goto_run, RunFrame.goto_shouldStop, Bool.or_eq_true,
        beq_iff_eq]
      rcases hdue with hs | hr | hm
      · exact Or.inl (Or.inl hs)
      · exact Or.inl (Or.inr hr)
      · exact Or.inr hm
    · apply (h.due g (by simp [hf, hg]) heq).stay (g.seeStop_pc r) (g.seeStop_run r) _
        (List.Subset.refl _)
      intro hs
      rw [RunFrame.seeStop_shouldStop, hs, Bool.true_or]
  | requestStop =>
    exact h.other (fun f => f.requestStop_pc _) (fun f => f.requestStop_run _)
      (fun f => f.requestStop_shouldStop _) rfl rfl (List.Subset.refl _)
  | requestStopOnLoop =>
    exact h.other (fun f => f.requestStop_pc _) (fun f => f.requestStop_run _)
      (fun f => f.requestStop_shouldStop _) rfl rfl (List.subset_append_left _ _)
  | start | startOnLoop | signal | finishRpc | shutDown | destroy =>
    exact h.other (g := id) (fun _ => rfl) (fun _ => rfl) (fun _ => rfl)
      (List.map_id _).symm rfl (List.Subset.refl _)
  | @takeBatch f fs hf hpc hl =>
    refine h.goto hF hf rfl rfl ?_
    intro heq hdue
    simp only [StopDue, hpc] at hdue
    exact Or.inr hdue
  | @executeSchedule f fs id rest hf hpc | @executeRequest f fs id rest hf hpc =>
    refine h.goto hF hf rfl rfl ?_
    intro heq hdue
    simp only [StopDue, hpc, List.mem_cons, reduceCtorEq, false_or] at hdue
    exact hdue
  | @setValueThrows f fs id ok rest hf hpc | @receiverReturns f fs id r rest hf hpc =>
    refine h.goto hF hf rfl rfl ?_
    intro heq hdue
    simp only [StopDue, hpc] at hdue
    exact hdue
  | @batchDone f fs hf hpc =>
    refine h.goto hF hf rfl rfl ?_
    intro heq hdue
    simp only [StopDue, hpc, List.not_mem_nil, or_false] at hdue
    exact hdue
  | @dispatchTag f fs id hf hpc ht =>
    refine h.goto hF hf rfl rfl ?_
    intro heq hdue
    simp only [StopDue, hpc] at hdue
    exact List.mem_append_left _ hdue
  | enter hf hpc | dispatchAlarm hf hpc =>
    refine h.goto hF hf rfl rfl ?_
    intro heq hdue
    simp only [StopDue, hpc] at hdue
    exact hdue
  | stopSeen hf hpc => exact h.goto hF hf rfl rfl fun _ _ => rfl
  | nothingPending hf hpc hl =>
    refine h.goto hF hf rfl rfl ?_
    intro heq hdue
    simp only [StopDue, hpc, hl, List.not_mem_nil] at hdue
  | stopNotSeen hf hpc hs =>
    refine h.goto hF hf rfl rfl ?_
    intro heq hdue
    simp only [StopDue, hpc, hs, Bool.false_eq_true] at hdue
  -- at these points no stop is due
  | readSubmitted hf hpc | readNotSubmitted hf hpc | markInactive hf hpc | dequeueAll hf hpc
  | assign hf hpc | nextAlarm hf hpc | nextTag hf hpc | nextShutdown hf hpc =>
    refine h.goto hF hf rfl rfl ?_
    intro heq hdue
    simp only [StopDue, hpc] at hdue

theorem Stopping.of_due {s : State} (hF : FramesOk s) {f : RunFrame} (hf : f ∈ s.frames)
    (hdue : StopDue s f) : Stopping s f.run := by
  refine ⟨hF.fresh f hf, ?_⟩
  intro g hg heq
  rw [hF.unique hg hf heq]
  exact hdue

theorem Stopping.execFrom {s s' : State} {run : ℕ} {bs : List Action} {e : List Observation}
    (hF : FramesOk s) (h : Stopping s run)
    (hrun : contextMachine.execFrom s bs = some (s', e)) : Stopping s' run :=
  (Machine.execFrom_induction (I := fun s _ => FramesOk s ∧ Stopping s run) ⟨hF, h⟩
    (fun _ _ _ _ _ hI hs => ⟨hI.1.step (step_cases hs), hI.2.step hI.1 (step_cases hs)⟩)
    hrun).2

/-- **A stop that is due stays due**, whatever happens, until its call has
returned; the call is never again at `Next`. -/
theorem stopping_of_exec {as bs : List Action} {s s' : State} {h h' : List Observation}
    (hrun : contextMachine.exec as = some (s, h)) {f : RunFrame} (hf : f ∈ s.frames)
    (hdue : StopDue s f) (hrun' : contextMachine.exec (as ++ bs) = some (s', h')) :
    ∀ g ∈ s'.frames, g.run = f.run → StopDue s' g := by
  have hF := framesOk_of_exec hrun
  obtain ⟨s₁, h₁, h₂, hl, hr, -⟩ := Machine.execFrom_append.mp hrun'
  obtain ⟨rfl, -⟩ : s = s₁ ∧ h = h₁ := by simpa using hrun.symm.trans hl
  exact ((Stopping.of_due hF hf hdue).execFrom hF hr).due

/-- A receiver calls `Run` again on its context, with a token whose stop was
requested already. -/
def nestedAndStopped : List Action := List.flatten
  [firstPass, [.finishRpc 0 true, .next (.tag 0 true)], List.replicate 3 .loop,
    [.run, .requestStopOnLoop 1]]

theorem exec_nestedAndStopped :
    ∃ s h f fs, contextMachine.exec nestedAndStopped = some (s, h) ∧ s.frames = f :: fs ∧
      StopDue s f := by
  obtain ⟨s, h, hrun⟩ := contextMachine.exec_of_isSome nestedAndStopped (by decide +kernel)
  have htest : (contextMachine.exec nestedAndStopped).map
      (fun p => (p.1.frames.head?, p.1.context.localQueue))
        = some (some { run := 1, stopRequested := true }, [.stopOperation 1]) := by
    decide +kernel
  simp only [hrun, Option.map_some, Option.some.injEq, Prod.mk.injEq] at htest
  obtain ⟨hhead, hlocal⟩ := htest
  rcases hf : s.frames with - | ⟨f, fs⟩
  · simp [hf] at hhead
  · obtain rfl : f = { run := 1, stopRequested := true } := by simpa [hf] using hhead
    exact ⟨s, h, _, fs, hrun, hf, by simp [StopDue, hlocal]⟩

/-- The nested call enters its loop while another thread starts an operation. -/
theorem stopping_of_exec_nested :
    ∃ s h f s' h', contextMachine.exec nestedAndStopped = some (s, h) ∧ f ∈ s.frames ∧
      StopDue s f ∧ contextMachine.exec (nestedAndStopped ++ [.loop, .start 1, .loop])
        = some (s', h') ∧ ∀ g ∈ s'.frames, g.run = f.run → StopDue s' g := by
  obtain ⟨s, h, f, fs, hrun, hf, hdue⟩ := exec_nestedAndStopped
  obtain ⟨s', h', hrun'⟩ := contextMachine.exec_of_isSome
    (nestedAndStopped ++ [.loop, .start 1, .loop]) (by decide +kernel)
  have hm : f ∈ s.frames := by simp [hf]
  exact ⟨s, h, f, s', h', hrun, hm, hdue, hrun', stopping_of_exec hrun hm hdue hrun'⟩

/-! ### To the end of the call -/

/-- Before the first remote enqueue nothing was executed, so no call has seen a
stop. -/
theorem not_stopped_of_no_enqueue {as : List Action} {s : State} {h : List Observation}
    (hrun : contextMachine.exec as = some (s, h)) (hno : enqueues h = []) :
    ∀ f ∈ s.frames, f.shouldStop = false ∧ f.pc ≠ .exited false := by
  induction as using List.reverseRecOn generalizing s h with
  | nil =>
    obtain ⟨rfl, -⟩ : contextMachine.init = s ∧ [] = h := by simpa using hrun
    exact fun f hf => absurd hf List.not_mem_nil
  | append_singleton as a ih =>
    obtain ⟨s₀, h₀, e, hl, hs, rfl⟩ := Machine.exec_concat.mp hrun
    rw [enqueues_append, List.append_eq_nil_iff] at hno
    have hprev := ih hl hno.1
    have hfresh := (fresh_of_no_enqueue hl hno.1).1
    -- a call that goes on to a point that is no exit
    have hgoto : ∀ (f : RunFrame) (fs : List RunFrame) (pc : LoopPc), s₀.frames = f :: fs →
        pc ≠ .exited false →
          ∀ g ∈ f.goto pc :: fs, g.shouldStop = false ∧ g.pc ≠ .exited false := by
      intro f fs pc hf hpc g hg
      rcases List.mem_cons.mp hg with rfl | hg
      · exact ⟨(hprev f (hf ▸ List.mem_cons_self)).1, hpc⟩
      · exact hprev g (hf ▸ List.mem_cons_of_mem f hg)
    have hst := step_cases hs
    cases hst with
    | run =>
      intro g hg
      rcases List.mem_cons.mp hg with rfl | hg
      · exact ⟨rfl, by simp⟩
      · exact hprev g hg
    | @leave f fs _ hf => exact fun g hg => hprev g (hf ▸ List.mem_cons_of_mem f hg)
    | executeStop hf hpc =>
      have hearly := hfresh.pc_early hf
      rw [hpc] at hearly
      cases hearly
    | stopSeen hf hpc hstop =>
      rw [(hprev _ (hf ▸ List.mem_cons_self)).1] at hstop
      cases hstop
    | start | requestStop => simp [enqueues, Observation.enqueued?] at hno
    | @requestStopOnLoop run =>
      intro g hg
      obtain ⟨g₀, hg₀, rfl⟩ := List.mem_map.mp hg
      rw [g₀.requestStop_shouldStop, g₀.requestStop_pc]
      exact hprev g₀ hg₀
    | startOnLoop | signal | finishRpc | shutDown | destroy => exact hprev
    | enter hf | nothingPending hf | takeBatch hf | batchDone hf | executeSchedule hf
    | executeRequest hf | setValueThrows hf | receiverReturns hf | stopNotSeen hf
    | readSubmitted hf | readNotSubmitted hf | markInactive hf | dequeueAll hf | assign hf
    | nextAlarm hf | nextTag hf | nextShutdown hf | dispatchAlarm hf | dispatchTag hf =>
      exact hgoto _ _ _ hf (by simp)

/-- A stop that is due was requested by an enqueue, or by a receiver that an
enqueue came before. -/
theorem StopDue.enqueues_ne_nil {as : List Action} {s : State} {h : List Observation}
    (hrun : contextMachine.exec as = some (s, h)) {f : RunFrame} (hf : f ∈ s.frames)
    (hdue : StopDue s f) : enqueues h ≠ [] := by
  intro hno
  have hfresh := (fresh_of_no_enqueue hrun hno).1
  obtain ⟨hstop, hexit⟩ := not_stopped_of_no_enqueue hrun hno f hf
  have hearly := hfresh.early f hf
  unfold StopDue at hdue
  cases hpc : f.pc with
  | registered | loopTop | gotEvent =>
    rw [hpc, hfresh.noLocal] at hdue
    exact absurd hdue List.not_mem_nil
  | draining pending | executing id r pending =>
    rw [hpc] at hearly
    cases hearly
  | checkStop =>
    rw [hpc] at hdue
    exact Bool.false_ne_true (hstop.symm.trans hdue)
  | exited byShutdown =>
    rw [hpc] at hdue
    exact hexit (hpc.trans (congrArg LoopPc.exited hdue))
  | checkRemote | dequeueRemote | assignSubmitted | callNext =>
    rw [hpc] at hdue
    exact hdue

/-- While the loop thread is on its own, its innermost call stays the innermost
until it returns. -/
theorem innermost_of_follow {s s' : State} {e : List Observation} {n run : ℕ}
    (hrun : contextMachine.execFrom s (contextMachine.follow loopThread n s) = some (s', e))
    (htop : ∀ g ∈ s.frames.tail, g.run ≠ run) : ∀ g ∈ s'.frames.tail, g.run ≠ run := by
  refine Machine.follow_induction (I := fun s => ∀ g ∈ s.frames.tail, g.run ≠ run) ?_ htop hrun
  intro s s' e hI hs g hg
  have hne : s.loopThread ≠ .run := by
    unfold loopThread
    split <;> simp
  obtain ⟨g₀, hg₀, heq⟩ := tail_of_step (step_cases hs) hne hg
  rw [← heq]
  exact hI g₀ hg₀

/-- **A stop that is due ends its call**: without `ShutDown`, a loop thread whose
receivers return comes within `toDo` steps out of the call, or to its end, where
it waits for the thread that requested the stop, which can go on. -/
theorem stop_ends_run {as : List Action} (hno : .shutDown ∉ as) {s : State}
    {h : List Observation} (hrun : contextMachine.exec as = some (s, h)) {f : RunFrame}
    {fs : List RunFrame} (hf : s.frames = f :: fs) (hdue : StopDue s f) :
    ∃ s' h', contextMachine.exec (as ++ contextMachine.follow loopThread s.toDo s)
        = some (s', h') ∧ ∀ g ∈ s'.frames, g.run = f.run → g.pc = .exited false ∧
          .stopOperation f.run ∈ s'.signalling ∧
          (s'.step (.signal (.stopOperation f.run))).isSome = true := by
  have hne := hdue.enqueues_ne_nil hrun (hf ▸ List.mem_cons_self)
  obtain ⟨s', e, hfollow, hrun', hwaits⟩ := exists_waits hno hrun hne
  refine ⟨s', h ++ e, hrun', ?_⟩
  intro g hg heq
  have hF := framesOk_of_exec hrun
  have hdue' := ((Stopping.of_due hF (by simp [hf]) hdue).execFrom hF hfollow).due g hg heq
  have htop : ∀ g ∈ s'.frames.tail, g.run ≠ f.run := by
    apply innermost_of_follow hfollow
    have hord := hF.ordered
    rw [hf] at hord
    intro g hg
    rw [hf] at hg
    exact Nat.ne_of_lt ((List.pairwise_cons.mp hord).1 g hg)
  rcases hf' : s'.frames with - | ⟨f', fs'⟩
  · simp [hf'] at hg
  · rw [hf'] at hg htop
    rcases List.mem_cons.mp hg with rfl | hg
    · rcases hwaits g fs' hf' with hpc | ⟨hpc, hsig, hstep⟩
      · simp [StopDue, hpc] at hdue'
      · rw [heq] at hsig hstep
        exact ⟨hpc, hsig, hstep⟩
    · exact absurd heq (htop g hg)

theorem stop_ends_run_nested :
    ∃ s h f fs, contextMachine.exec nestedAndStopped = some (s, h) ∧ s.frames = f :: fs ∧
      ∃ s' h', contextMachine.exec
          (nestedAndStopped ++ contextMachine.follow loopThread s.toDo s) = some (s', h') ∧
        ∀ g ∈ s'.frames, g.run = f.run → g.pc = .exited false ∧
          .stopOperation f.run ∈ s'.signalling ∧
          (s'.step (.signal (.stopOperation f.run))).isSome = true := by
  obtain ⟨s, h, f, fs, hrun, hf, hdue⟩ := exec_nestedAndStopped
  exact ⟨s, h, f, fs, hrun, hf, stop_ends_run (by decide) hrun hf hdue⟩

end State

end Agrpc
