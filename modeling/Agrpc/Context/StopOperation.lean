/-
Agrpc/Context/StopOperation.lean

The stop operations of the `Run` calls, and what a call leaves behind.

A `StopOperation` lives on the stack of its `Run` call.  `StopOk` follows it:
it is linked once from the stop request to its execution, and then and before
not at all.  A call that ends because it saw `should_stop_` has executed it.  A
call that ends because `Next` returned false looks at no queue any more, so a
stop operation that was requested is still linked when the frame is destroyed.

`linksExist_iff`: every linked operation exists, along a whole run, exactly if
no `Run` call ends through `ShutDown` after its stop was requested.
-/
import Agrpc.Context.Places
import Mathlib.Data.List.Nodup

namespace Agrpc

open Interleaving

namespace LoopPc

/-- The points after the test of `should_stop` in a pass, and the exit through
`ShutDown`. -/
def pastStopTest : LoopPc → Bool
  | checkRemote | dequeueRemote | assignSubmitted _ | callNext | gotEvent | exited true => true
  | _ => false

end LoopPc

namespace State

/-- Every operation linked in either queue exists. -/
def LinksExist (s : State) : Prop :=
  ∀ op ∈ s.context.localQueue ++ s.context.remoteQueue.items, s.exists? op = true

/-- The innermost `Run` call returns to its caller after `Next` returned false,
although its stop was requested. -/
def leavesStopLinked (s : State) (a : Action) : Prop :=
  a = .loop ∧ ∃ f fs, s.frames = f :: fs ∧ f.pc = .exited true ∧ f.stopRequested = true

/-- How often the stop operation of call `run` is linked. -/
def linked (s : State) (run : ℕ) : ℕ :=
  s.inRemote (.stopOperation run) + s.inLocal (.stopOperation run)

structure StopOk (s : State) : Prop where
  /-- it is linked from the request to the execution -/
  live : ∀ f ∈ s.frames, s.linked f.run = (f.stopRequested && !f.shouldStop).toNat
  seen : ∀ f ∈ s.frames, f.shouldStop = true → f.stopRequested = true
  running : ∀ f ∈ s.frames, f.pc.pastStopTest = true → f.shouldStop = false
  stopped : ∀ f ∈ s.frames, f.pc = .exited false → f.shouldStop = true
  /-- no other stop operation is linked -/
  dead : ∀ r, (∀ f ∈ s.frames, f.run ≠ r) → s.linked r = 0
  /-- a batch holds no stop operation of a younger call -/
  batch : ∀ f ∈ s.frames, ∀ r, .stopOperation r ∈ f.pc.batch → r ≤ f.run

theorem stopOk_init : StopOk {} :=
  ⟨by simp, by simp, by simp, by simp, fun _ _ => rfl, by simp⟩

/-- A call is known by its number. -/
theorem FramesOk.unique {s : State} (h : FramesOk s) {f g : RunFrame} (hf : f ∈ s.frames)
    (hg : g ∈ s.frames) (hrun : f.run = g.run) : f = g := by
  have hnodup : (s.frames.map RunFrame.run).Nodup := by
    rw [List.Nodup, List.pairwise_map]
    exact h.ordered.imp fun hlt => Nat.ne_of_gt hlt
  exact List.inj_on_of_nodup_map hnodup hf hg hrun

/-! ### Steps that link no stop operation -/

/-- Moving the innermost call. -/
theorem StopOk.goto {s s' : State} (h : StopOk s) {f : RunFrame} {fs : List RunFrame}
    {pc : LoopPc} (hf : s.frames = f :: fs) (hf' : s'.frames = f.goto pc :: fs)
    (hl : ∀ r, s'.linked r = s.linked r) (hrun : pc.pastStopTest = true → f.shouldStop = false)
    (hstop : pc = .exited false → f.shouldStop = true)
    (hb : ∀ r, .stopOperation r ∈ pc.batch → r ≤ f.run) : StopOk s' := by
  have hfm : f ∈ s.frames := by simp [hf]
  have hfs : ∀ g ∈ fs, g ∈ s.frames := fun g hg => by simp [hf, hg]
  refine ⟨?_, ?_, ?_, ?_, fun r hr => ?_, ?_⟩
  · intro g hg
    rw [hl]
    rcases List.mem_cons.mp (hf' ▸ hg) with rfl | hg
    · exact h.live f hfm
    · exact h.live g (hfs g hg)
  · intro g hg
    rcases List.mem_cons.mp (hf' ▸ hg) with rfl | hg
    · exact h.seen f hfm
    · exact h.seen g (hfs g hg)
  · intro g hg
    rcases List.mem_cons.mp (hf' ▸ hg) with rfl | hg
    · exact hrun
    · exact h.running g (hfs g hg)
  · intro g hg
    rcases List.mem_cons.mp (hf' ▸ hg) with rfl | hg
    · exact hstop
    · exact h.stopped g (hfs g hg)
  · rw [hl]
    apply h.dead r
    simpa [hf, hf'] using hr
  · intro g hg
    rcases List.mem_cons.mp (hf' ▸ hg) with rfl | hg
    · exact hb
    · exact h.batch g (hfs g hg)

theorem StopOk.congr {s s' : State} (h : StopOk s) (hf : s'.frames = s.frames)
    (hl : ∀ r, s'.linked r = s.linked r) : StopOk s' := by
  refine ⟨?_, ?_, ?_, ?_, ?_, ?_⟩
  · simpa [hf, hl] using h.live
  · simpa [hf] using h.seen
  · simpa [hf] using h.running
  · simpa [hf] using h.stopped
  · simpa [hf, hl] using h.dead
  · simpa [hf] using h.batch

/-! ### Steps that do -/

/-- A stop request: the stop operation of the call is linked, at either end. -/
theorem StopOk.request {s s' : State} (hF : FramesOk s) (h : StopOk s) {run : ℕ}
    (hst : s.stopPending run = true) (hf : s'.frames = s.frames.map (·.requestStop run))
    (hl : ∀ r, s'.linked r = s.linked r + if r = run then 1 else 0) : StopOk s' := by
  obtain ⟨f, hfm, hfrun⟩ := List.any_eq_true.mp hst
  simp only [Bool.and_eq_true, beq_iff_eq, Bool.not_eq_true'] at hfrun
  have hmem : ∀ g' ∈ s'.frames, ∃ g ∈ s.frames, g' = g.requestStop run := by
    intro g' hg'
    rw [hf] at hg'
    obtain ⟨g, hg, rfl⟩ := List.mem_map.mp hg'
    exact ⟨g, hg, rfl⟩
  have hfresh : f.shouldStop = false := by
    by_contra hne
    have := h.seen f hfm (by simpa using hne)
    simp [hfrun.2] at this
  refine ⟨?_, ?_, ?_, ?_, fun r hr => ?_, ?_⟩
  · intro g' hg'
    obtain ⟨g, hg, rfl⟩ := hmem g' hg'
    rw [RunFrame.requestStop_run, hl, h.live g hg]
    by_cases hgr : g.run = run
    · obtain rfl := hF.unique hg hfm (hgr.trans hfrun.1.symm)
      simp [RunFrame.requestStop, hfrun, hfresh]
    · simp [RunFrame.requestStop, hgr]
  · intro g' hg' hs
    obtain ⟨g, hg, rfl⟩ := hmem g' hg'
    rw [RunFrame.requestStop_stopRequested, h.seen g hg (by simpa using hs)]
    rfl
  · intro g' hg' hp
    obtain ⟨g, hg, rfl⟩ := hmem g' hg'
    rw [RunFrame.requestStop_shouldStop]
    exact h.running g hg (by simpa using hp)
  · intro g' hg' hp
    obtain ⟨g, hg, rfl⟩ := hmem g' hg'
    rw [RunFrame.requestStop_shouldStop]
    exact h.stopped g hg (by simpa using hp)
  · have hrun : r ≠ run := by
      rintro rfl
      refine hr (f.requestStop r) ?_ (by simp [hfrun.1])
      rw [hf]
      exact List.mem_map_of_mem hfm
    rw [hl, if_neg hrun, Nat.add_zero]
    apply h.dead r
    intro g hg
    have := hr (g.requestStop run) (by rw [hf]; exact List.mem_map_of_mem hg)
    simpa using this
  · intro g' hg' r hm
    obtain ⟨g, hg, rfl⟩ := hmem g' hg'
    rw [RunFrame.requestStop_run]
    exact h.batch g hg r (by simpa using hm)

/-- The stop operation of call `run` is executed in the innermost call. -/
theorem StopOk.execute {s s' : State} (hF : FramesOk s) (h : StopOk s) {f : RunFrame}
    {fs : List RunFrame} {run : ℕ} {rest : List OperationBase} (hf : s.frames = f :: fs)
    (hpc : f.pc = .draining (.stopOperation run :: rest))
    (hf' : s'.frames = (f.goto (.draining rest) :: fs).map (·.seeStop run))
    (hl : ∀ r, s'.linked r + (if r = run then 1 else 0) = s.linked r) : StopOk s' := by
  -- the frames are those of `s`, marked, the innermost one past the operation
  have hmem : ∀ g' ∈ s'.frames, ∃ g ∈ s.frames, g'.run = g.run ∧
      g'.stopRequested = g.stopRequested ∧ g'.shouldStop = (g.shouldStop || g.run == run) ∧
      g'.pc.batch ⊆ g.pc.batch ∧ g'.pc.pastStopTest = false ∧ g'.pc ≠ .exited false := by
    intro g' hg'
    rw [hf'] at hg'
    obtain ⟨g, hg, rfl⟩ := List.mem_map.mp hg'
    rcases List.mem_cons.mp hg with rfl | hg
    · exact ⟨f, by simp [hf], by simp, by simp, by simp [RunFrame.seeStop_shouldStop],
        by simp [hpc, LoopPc.batch], by simp [LoopPc.pastStopTest], by simp⟩
    · obtain ⟨id, r, pending, hg'pc⟩ := hF.suspended g (by simpa [hf] using hg)
      exact ⟨g, by simp [hf, hg], by simp, by simp, by simp [RunFrame.seeStop_shouldStop],
        by simp, by simp [hg'pc, LoopPc.pastStopTest], by simp [hg'pc]⟩
  have hruns : ∀ g ∈ s.frames, ∃ g' ∈ s'.frames, g'.run = g.run := by
    intro g hg
    rw [hf] at hg
    rcases List.mem_cons.mp hg with rfl | hg
    · exact ⟨(g.goto (.draining rest)).seeStop run, by simp [hf'], by simp⟩
    · refine ⟨g.seeStop run, ?_, by simp⟩
      rw [hf']
      exact List.mem_map_of_mem (List.mem_cons_of_mem _ hg)
  have hone : ∀ g ∈ s.frames, g.run = run → g.stopRequested = true ∧ g.shouldStop = false ∧
      s.linked run = 1 := by
    intro g hg hgr
    have hlive := h.live g hg
    have hpos := hl run
    rw [if_pos rfl] at hpos
    rw [hgr] at hlive
    cases hreq : g.stopRequested <;> cases hsee : g.shouldStop <;>
      simp [hreq, hsee] at hlive ⊢ <;> omega
  refine ⟨?_, ?_, ?_, ?_, fun r hr => ?_, ?_⟩
  · intro g' hg'
    obtain ⟨g, hg, hrun, hreq, hsee, -⟩ := hmem g' hg'
    have hlink := hl g.run
    rw [hrun, hreq, hsee]
    by_cases hgr : g.run = run
    · obtain ⟨h₁, h₂, h₃⟩ := hone g hg hgr
      rw [if_pos hgr, hgr, h₃] at hlink
      simp [h₁, h₂, hgr]
      omega
    · have hbeq : (g.run == run) = false := by simpa using hgr
      rw [if_neg hgr, Nat.add_zero] at hlink
      rw [hlink, h.live g hg, hbeq, Bool.or_false]
  · intro g' hg' hs
    obtain ⟨g, hg, -, hreq, hsee, -⟩ := hmem g' hg'
    rw [hreq]
    rw [hsee, Bool.or_eq_true, beq_iff_eq] at hs
    rcases hs with hs | hgr
    · exact h.seen g hg hs
    · exact (hone g hg hgr).1
  · intro g' hg' hp
    obtain ⟨g, -, -, -, -, -, hpast, -⟩ := hmem g' hg'
    simp [hpast] at hp
  · intro g' hg' hp
    obtain ⟨g, -, -, -, -, -, -, hexit⟩ := hmem g' hg'
    exact absurd hp hexit
  · have hdead : s.linked r = 0 := by
      apply h.dead r
      intro g hg hgr
      obtain ⟨g', hg', hrun⟩ := hruns g hg
      exact hr g' hg' (hrun.trans hgr)
    have := hl r
    omega
  · intro g' hg' r hm
    obtain ⟨g, hg, hrun, -, -, hb, -⟩ := hmem g' hg'
    rw [hrun]
    exact h.batch g hg r (hb hm)

/-- The innermost call returns.  What is left of its stop operation is what the
exit through `ShutDown` did not look at. -/
theorem StopOk.leave {s : State} (h : StopOk s) {f : RunFrame}
    {fs : List RunFrame} {byShutdown : Bool} (hf : s.frames = f :: fs)
    (hpc : f.pc = .exited byShutdown)
    (hno : byShutdown = true → f.stopRequested = false) : StopOk { s with frames := fs } := by
  have hfs : ∀ g ∈ fs, g ∈ s.frames := fun g hg => by simp [hf, hg]
  have hlinked : ∀ r, linked { s with frames := fs } r = s.linked r := by
    intro r
    simp [linked, inRemote, inLocal, batches, hf, hpc, LoopPc.batch]
  have hzero : s.linked f.run = 0 := by
    rw [h.live f (by simp [hf])]
    cases byShutdown with
    | true => simp [hno rfl]
    | false => simp [h.stopped f (by simp [hf]) hpc]
  refine ⟨?_, fun g hg => h.seen g (hfs g hg), fun g hg => h.running g (hfs g hg),
    fun g hg => h.stopped g (hfs g hg), fun r hr => ?_, fun g hg => h.batch g (hfs g hg)⟩
  · intro g hg
    rw [hlinked]
    exact h.live g (hfs g hg)
  · rw [hlinked]
    by_cases hfr : f.run = r
    · exact hfr ▸ hzero
    · apply h.dead r
      intro g hg
      rcases List.mem_cons.mp (hf ▸ hg) with rfl | hg
      · exact hfr
      · exact hr g hg

/-! ### Every step -/

theorem count_concat_stop (ops : List OperationBase) (r run : ℕ) :
    (ops ++ [OperationBase.stopOperation run]).count (OperationBase.stopOperation r)
      = ops.count (OperationBase.stopOperation r) + if r = run then 1 else 0 := by
  by_cases hr : r = run
  · simp [hr]
  · have hne : OperationBase.stopOperation run ≠ .stopOperation r := fun h => hr (by cases h; rfl)
    simp [hr, hne]

theorem StopOk.step {s s' : State} {a : Action} {e : List Observation} (hF : FramesOk s)
    (h : StopOk s) (hno : ¬ s.leavesStopLinked a) (hs : Step s a s' e) : StopOk s' := by
  cases hs with
  | run hr =>
    have hl : ∀ r, linked { s with
        frames := { run := s.runs } :: s.frames, runs := s.runs + 1 } r = s.linked r := by
      intro r
      simp [linked, inRemote, inLocal, batches, LoopPc.batch]
    have hnew : s.linked s.runs = 0 :=
      h.dead _ fun f hf => Nat.ne_of_lt (hF.fresh f hf)
    refine ⟨?_, ?_, ?_, ?_, fun r hr => ?_, ?_⟩
    · intro f hf
      rw [hl]
      rcases List.mem_cons.mp hf with rfl | hf
      · exact hnew
      · exact h.live f hf
    · exact List.forall_mem_cons.mpr ⟨by simp, h.seen⟩
    · exact List.forall_mem_cons.mpr ⟨by simp, h.running⟩
    · exact List.forall_mem_cons.mpr ⟨by simp, h.stopped⟩
    · rw [hl]
      exact h.dead r fun f hf => hr f (List.mem_cons_of_mem _ hf)
    · exact List.forall_mem_cons.mpr ⟨by simp [LoopPc.batch], h.batch⟩
  | @leave f fs b hf hpc =>
    apply h.leave hf hpc
    intro hb
    by_contra hreq
    subst hb
    exact hno ⟨rfl, f, fs, hf, hpc, by simpa using hreq⟩
  | @takeBatch f fs hf hpc hl =>
    -- what is linked belongs to an active call, and none is younger
    refine h.goto hf rfl (fun r => ?_) (by simp [LoopPc.pastStopTest]) (by simp) fun r hm => ?_
    · simp [linked, inRemote, inLocal, batches, hf, hpc, LoopPc.batch]
    · have hpos : 0 < s.linked r := by
        have := List.count_pos_iff.mpr hm
        simp only [linked, inLocal, LoopPc.batch] at this ⊢
        omega
      by_contra hlt
      refine absurd (h.dead r fun g hg hgr => ?_) (by omega)
      have hord := hF.ordered
      rw [hf, List.pairwise_cons] at hord
      rcases List.mem_cons.mp (hf ▸ hg) with rfl | hg
      · omega
      · have := hord.1 g hg
        omega
  | @executeStop f fs run rest hf hpc hx =>
    apply h.execute hF hf hpc rfl
    intro r
    have hb : batches { s with
        frames := (f.goto (.draining rest) :: fs).map (·.seeStop run) }
          = rest ++ fs.flatMap fun g => g.pc.batch := by
      simp [batches, LoopPc.batch, List.flatMap_map]
    have hb' : s.batches = .stopOperation run :: (rest ++ fs.flatMap fun g => g.pc.batch) := by
      simp [batches, hf, hpc, LoopPc.batch]
    rw [linked, linked, inLocal, inLocal, hb, hb', List.count_cons]
    by_cases hr : r = run
    · subst hr
      simp only [inRemote, beq_self_eq_true, if_true]
      omega
    · have hne : ¬ run = r := fun h => hr h.symm
      simp [inRemote, hr, hne]
  | @executeSchedule f fs k rest hf hpc | @executeRequest f fs k rest hf hpc =>
    refine h.goto hf rfl (fun r => ?_) (by simp [LoopPc.pastStopTest]) (by simp) fun r hm => ?_
    · simp [linked, inRemote, inLocal, batches, hf, hpc, LoopPc.batch, rpcStarted]
    · exact h.batch f (by simp [hf]) r (by simpa [hpc, LoopPc.batch] using hm)
  | @setValueThrows f fs k ok rest hf hpc | @receiverReturns f fs k r rest hf hpc =>
    refine h.goto hf rfl (fun r => ?_) (by simp [LoopPc.pastStopTest]) (by simp) fun r hm => ?_
    · simp [linked, inRemote, inLocal, batches, hf, hpc, LoopPc.batch]
    · exact h.batch f (by simp [hf]) r (by simpa [hpc, LoopPc.batch] using hm)
  | @dequeueAll f fs x xs hf hpc hq =>
    refine h.goto hf rfl (fun r => ?_) (fun _ => h.running f (by simp [hf]) (by rw [hpc]; rfl))
      (by simp) (by simp [LoopPc.batch])
    simp [linked, inRemote, inLocal, batches, hf, hpc, LoopPc.batch, hq, AtomicQueue.items]
    omega
  | @stopSeen f fs hf hpc hsf =>
    refine h.goto hf rfl (fun r => ?_) (by simp [LoopPc.pastStopTest]) (fun _ => hsf)
      (by simp [LoopPc.batch])
    simp [linked, inRemote, inLocal, batches, hf, hpc, LoopPc.batch]
  | @stopNotSeen f fs hf hpc hsf =>
    refine h.goto hf rfl (fun r => ?_) (fun _ => hsf) (by simp) (by simp [LoopPc.batch])
    simp [linked, inRemote, inLocal, batches, hf, hpc, LoopPc.batch]
  | @markInactive f fs hf hpc hq =>
    refine h.goto hf rfl (fun r => ?_) (fun _ => h.running f (by simp [hf]) (by rw [hpc]; rfl))
      (by simp) (by simp [LoopPc.batch])
    simp [linked, inRemote, inLocal, batches, hf, hpc, LoopPc.batch, hq, AtomicQueue.items]
  | @readSubmitted f fs hf hpc | @readNotSubmitted f fs hf hpc | @assign f fs _ hf hpc
  | @nextAlarm f fs _ hf hpc | @nextTag f fs _ _ hf hpc | @nextShutdown f fs hf hpc =>
    refine h.goto hf rfl (fun r => ?_) (fun _ => h.running f (by simp [hf]) (by rw [hpc]; rfl))
      (by simp) (by simp [LoopPc.batch])
    simp [linked, inRemote, inLocal, batches, hf, hpc, LoopPc.batch]
  | @enter f fs hf hpc | @nothingPending f fs hf hpc | @batchDone f fs hf hpc
  | @dispatchAlarm f fs hf hpc | @dispatchTag f fs _ hf hpc =>
    refine h.goto hf rfl (fun r => ?_) (by simp [LoopPc.pastStopTest]) (by simp)
      (by simp [LoopPc.batch])
    simp [linked, inRemote, inLocal, batches, hf, hpc, LoopPc.batch]
  | @requestStop run hst =>
    apply h.request hF hst rfl
    intro r
    have hb : (s.stopRemote run).batches = s.batches :=
      batches_map (fun f => f.requestStop_pc run) rfl
    have hq : (s.stopRemote run).inRemote (.stopOperation r)
        = s.inRemote (.stopOperation r) + if r = run then 1 else 0 := by
      rw [inRemote, inRemote, ← count_concat_stop, ← AtomicQueue.items_enqueue]
      rfl
    have hl : (s.stopRemote run).context.localQueue = s.context.localQueue := rfl
    rw [linked, linked, inLocal, inLocal, hb, hq, hl]
    omega
  | @requestStopOnLoop run hst =>
    apply h.request hF hst rfl
    intro r
    have hb : (s.stopLocal run).batches = s.batches :=
      batches_map (fun f => f.requestStop_pc run) rfl
    have hq : (s.stopLocal run).inRemote (.stopOperation r) = s.inRemote (.stopOperation r) := rfl
    have hl : (s.stopLocal run).context.localQueue
        = s.context.localQueue ++ [.stopOperation run] := rfl
    rw [linked, linked, inLocal, inLocal, hb, hq, hl, List.count_append]
    have := count_concat_stop [] r run
    simp only [List.nil_append, List.count_nil] at this
    omega
  | @start k =>
    refine h.congr rfl fun r => ?_
    simp [linked, inRemote, startRemote, inLocal, batches]
  | startOnLoop | signal | finishRpc | shutDown | destroy => exact h.congr rfl fun r => rfl

/-! ### Linked operations exist -/

/-- With every stop operation accounted for, what is linked exists: an
operation of a sender is only destroyed when its completion is executed. -/
theorem StopOk.linksExist {s : State} (h : StopOk s)
    (hpl : ∀ id, ∃ p, Placed s id p) : LinksExist s := by
  intro op hop
  cases op with
  | stopOperation run =>
    have hpos : 0 < s.linked run := by
      have := List.count_pos_iff.mpr hop
      rw [List.count_append] at this
      simp only [linked, inLocal, inRemote]
      omega
    by_contra hne
    refine absurd (h.dead run fun f hf hfr => hne ?_) (by omega)
    exact List.any_eq_true.mpr ⟨f, hf, by simp [hfr]⟩
  | operation id =>
    obtain ⟨p, hpl⟩ := hpl id
    have hplace : p.place = some .localQueue ∨ p.place = some .remoteQueue := by
      rcases List.mem_append.mp hop with hm | hm
      · refine Or.inl (hpl.place_eq (Nat.add_pos_left (List.count_pos_iff.mpr hm) _))
      · exact Or.inr (hpl.place_eq (List.count_pos_iff.mpr hm))
    cases hd : (s.ops id).destroyed with
    | false => simp [exists?, hd]
    | true =>
      have hdel := hpl.destroyed hd
      cases p <;> simp [Phase.delivered, Phase.place] at hdel hplace

/-- The exit through `ShutDown` of a call whose stop was requested leaves a link
to an object that no longer exists. -/
theorem StopOk.not_linksExist {s s' : State} {e : List Observation} {a : Action}
    (hF : FramesOk s) (h : StopOk s) (hbad : s.leavesStopLinked a) (hs : Step s a s' e) :
    ¬ LinksExist s' := by
  obtain ⟨rfl, f, fs, hf, hpc, hreq⟩ := hbad
  have hfm : f ∈ s.frames := by simp [hf]
  have hord := hF.ordered
  rw [hf, List.pairwise_cons] at hord
  -- the stop operation is linked, in no batch, and so in one of the queues
  have hone : s.linked f.run = 1 := by
    rw [h.live f hfm, hreq, h.running f hfm (by rw [hpc]; rfl)]
    rfl
  have hnot : .stopOperation f.run ∉ s.batches := by
    intro hm
    obtain ⟨g, hg, hgm⟩ := List.mem_flatMap.mp hm
    rcases List.mem_cons.mp (hf ▸ hg) with rfl | hg'
    · simp [hpc, LoopPc.batch] at hgm
    · have hle := h.batch g hg _ hgm
      have hlt := hord.1 g hg'
      omega
  have hmem : .stopOperation f.run ∈ s.context.localQueue ++ s.context.remoteQueue.items := by
    rw [linked, inLocal, inRemote, List.count_eq_zero_of_not_mem hnot] at hone
    apply List.count_pos_iff.mp
    rw [List.count_append]
    omega
  have hs' : s'.context = s.context ∧ s'.frames = fs := by
    cases hs with
    | leave hf' => rw [hf] at hf'; cases hf'; exact ⟨rfl, rfl⟩
    | enter hf' hpc' | nothingPending hf' hpc' | takeBatch hf' hpc' | batchDone hf' hpc'
    | executeStop hf' hpc' | executeSchedule hf' hpc' | executeRequest hf' hpc'
    | stopSeen hf' hpc' | stopNotSeen hf' hpc' | readSubmitted hf' hpc'
    | readNotSubmitted hf' hpc' | markInactive hf' hpc' | dequeueAll hf' hpc' | assign hf' hpc'
    | dispatchAlarm hf' hpc' | dispatchTag hf' hpc' =>
      rw [hf] at hf'
      cases hf'
      simp [hpc] at hpc'
  intro hlink
  have hex := hlink (.stopOperation f.run) (by rw [hs'.1]; exact hmem)
  obtain ⟨g, hg, hrun⟩ := List.any_eq_true.mp hex
  rw [hs'.2] at hg
  have hlt := hord.1 g hg
  have heq : g.run = f.run := by simpa using hrun
  omega

/-! ### Whole runs -/

/-- The invariant along a run none of whose steps leaves a stop operation
linked. -/
theorem stopOk_of_visits {as : List Action}
    (hcond : ∀ s h a, contextMachine.Takes as s h a → ¬ s.leavesStopLinked a) {s : State}
    {h : List Observation} (hv : contextMachine.Visits as s h) : StopOk s := by
  refine (Machine.visits_induction (I := fun s _ => FramesOk s ∧ StopOk s)
    (P := fun s _ a => ¬ s.leavesStopLinked a) ⟨framesOk_init, stopOk_init⟩ ?_ hcond hv).2
  rintro s h a s' e ⟨hF, hO⟩ hP hs
  exact ⟨hF.step (step_cases hs), hO.step hF hP (step_cases hs)⟩

/-- **Every linked operation exists**, in every state of a whole run, exactly if
no `Run` call of it ends because `Next` returned false after its stop was
requested. -/
theorem linksExist_iff (as : List Action) :
    (∀ s h, contextMachine.Visits as s h → s.LinksExist) ↔
      ∀ s h a, contextMachine.Takes as s h a → ¬ s.leavesStopLinked a := by
  constructor
  · -- the first such step would leave a link to a destroyed object
    intro hall
    have hnext : ∀ s h a, contextMachine.Takes as s h a →
        ∀ s' e, Step s a s' e → FramesOk s → StopOk s → ¬ s.leavesStopLinked a := by
      intro s h a ht s' e hst hF hO hbad
      obtain ⟨as', -, -, hsome⟩ := id ht
      obtain ⟨⟨t, o⟩, hstep⟩ := Option.isSome_iff_exists.mp hsome
      exact hO.not_linksExist hF hbad (step_cases hstep) (hall _ _ (ht.visits_next hstep))
    have hinv : ∀ {s h}, contextMachine.Visits as s h → FramesOk s ∧ StopOk s := by
      intro s h hv
      refine Machine.visits_induction (I := fun s _ => FramesOk s ∧ StopOk s)
        (P := fun s h a => contextMachine.Takes as s h a) ⟨framesOk_init, stopOk_init⟩ ?_
        (fun _ _ _ ht => ht) hv
      rintro s h a s' e ⟨hF, hO⟩ ht hs
      have hst := step_cases hs
      exact ⟨hF.step hst, hO.step hF (hnext s h a ht s' e hst hF hO) hst⟩
    intro s h a ht
    obtain ⟨as', -, -, hsome⟩ := id ht
    obtain ⟨⟨s', e⟩, hs⟩ := Option.isSome_iff_exists.mp hsome
    obtain ⟨hF, hO⟩ := hinv ht.visits
    exact hnext s h a ht s' e (step_cases hs) hF hO
  · intro hcond s h hv
    apply (stopOk_of_visits hcond hv).linksExist
    intro id
    obtain ⟨as', -, hrun⟩ := hv
    obtain ⟨p, -, hpl⟩ := placed_of_exec hrun id
    exact ⟨p, hpl⟩

/-- Stop is requested from another thread while the loop waits, the loop dequeues
the stop operation, and the queue is shut down. -/
def stoppedAndShutDown : List Action := List.flatten
  [[.start 0, .signal (.operation 0), .run], List.replicate 6 .loop, [.next (.alarm true)],
    List.replicate 8 .loop, [.finishRpc 0 true, .next (.tag 0 true)], List.replicate 3 .loop,
    [.receiverReturns], List.replicate 3 .loop,
    [.requestStop 0, .signal (.stopOperation 0), .next (.alarm true)], List.replicate 6 .loop,
    [.shutDown, .next .shutdown, .loop]]

/-- `Next` returns false, `Run` returns, and its stop operation is still in
`local_queue_`. -/
theorem not_linksExist :
    ¬ ∀ s h, contextMachine.Visits stoppedAndShutDown s h → s.LinksExist := by
  intro hall
  obtain ⟨s, h, hrun, htest⟩ := contextMachine.exec_of_test stoppedAndShutDown
    (fun s => s.context.localQueue.any fun op => !s.exists? op) (by decide +kernel)
  obtain ⟨op, hop, hgone⟩ := List.any_eq_true.mp htest
  have hex := hall s h (Machine.Visits.last hrun) op (List.mem_append_left _ hop)
  simp [hex] at hgone

end State

end Agrpc
