/-
Agrpc/System/ThreadSteps.lean

Everything one step of the system can do: `SystemStep`, one constructor per
branch of the code, and the inversion lemma `system_step_cases`.  What happens
inside `RunImpl` between two program points is left to `runImplStep` and
`runImplNext` (`RunImplGoes`); the invariants use their own lemmas about them.
-/
import Agrpc.System.Threads

namespace Agrpc

/-! ### The fields after each update -/

namespace Activation

@[simp] theorem seeStop_context (run : ℕ) (a : Activation) :
    (a.seeStop run).context = a.context := rfl
@[simp] theorem seeStop_oldContext (run : ℕ) (a : Activation) :
    (a.seeStop run).oldContext = a.oldContext := rfl
@[simp] theorem seeStop_pc (run : ℕ) (a : Activation) :
    (a.seeStop run).frame.pc = a.frame.pc := by
  show (a.frame.seeStop run).pc = a.frame.pc
  unfold RunFrame.seeStop
  split <;> rfl
@[simp] theorem seeStop_run (run : ℕ) (a : Activation) :
    (a.seeStop run).frame.run = a.frame.run := by
  show (a.frame.seeStop run).run = a.frame.run
  unfold RunFrame.seeStop
  split <;> rfl
@[simp] theorem requestStop_context (run : ℕ) (a : Activation) :
    (a.requestStop run).context = a.context := rfl
@[simp] theorem requestStop_oldContext (run : ℕ) (a : Activation) :
    (a.requestStop run).oldContext = a.oldContext := rfl
@[simp] theorem requestStop_pc (run : ℕ) (a : Activation) :
    (a.requestStop run).frame.pc = a.frame.pc := by
  show (a.frame.requestStop run).pc = a.frame.pc
  unfold RunFrame.requestStop
  split <;> rfl
@[simp] theorem requestStop_run (run : ℕ) (a : Activation) :
    (a.requestStop run).frame.run = a.frame.run := by
  show (a.frame.requestStop run).run = a.frame.run
  unfold RunFrame.requestStop
  split <;> rfl

end Activation

namespace System

@[simp] theorem scheduleRemote_contexts (s : System) (t c : ℕ) (op : OperationBase) :
    (s.scheduleRemote t c op).contexts
      = Function.update s.contexts c ((s.contexts c).enqueueRemote op).2 := rfl

@[simp] theorem isRunningOnThisThread_iff {s : System} {t c : ℕ} :
    s.isRunningOnThisThread t c = true ↔ s.currentThreadContext t = some c := by
  simp [isRunningOnThisThread]

end System

/-! ### The outcomes of a step -/

/-- `RunImpl` with frame `f` goes on to `pc`, changes its context from `x` to
`y` and reports `e`. -/
inductive RunImplGoes (x : GrpcContext) (f : RunFrame) :
    GrpcContext → LoopPc → List Observation → Prop
  | step {y pc e} (h : runImplStep x f.shouldStop f.pc = some (y, pc, e)) : RunImplGoes x f y pc e
  | next {r y pc e} (hpc : f.pc = .callNext) (h : runImplNext x r = some (y, pc, e)) :
      RunImplGoes x f y pc e

/-- `SystemStep owner s s' e`: some action takes `s` to `s'` and emits `e`. -/
inductive SystemStep (owner : ℕ → ℕ) (s : System) : System → List SystemObservation → Prop
  -- a `Run` call: registration, entry, the loop, exit and return
  | run {t c calls runs} (hu : s.inUserCode t = true) :
      SystemStep owner s
        { s.setStack t ({ context := c, frame := { run := s.runs } } :: s.callStacks t) with
          calls := calls, runs := runs } []
  | enter {t a outer} (hs : s.callStacks t = a :: outer) (hpc : a.frame.pc = .registered) :
      SystemStep owner s
        ((s.setStack t
            ({ a.goto .loopTop with oldContext := s.currentThreadContext t } :: outer)).setCurrent t
          (some a.context))
        [.entered t a.frame.run (s.currentThreadContext t)]
  | goOn {t a outer x pc e} (hs : s.callStacks t = a :: outer)
      (hg : RunImplGoes (s.contexts a.context) a.frame x pc e) (hpc : ∀ b, pc ≠ .exited b) :
      SystemStep owner s ((s.setContext a.context x).setStack t (a.goto pc :: outer))
        (e.map (.at a.context))
  | exit {t a outer x b e} (hs : s.callStacks t = a :: outer)
      (hg : RunImplGoes (s.contexts a.context) a.frame x (.exited b) e) :
      SystemStep owner s
        (((s.setContext a.context x).setStack t (a.goto (.exited b) :: outer)).setCurrent t
          a.oldContext)
        (e.map (.at a.context) ++ [.left t a.frame.run a.oldContext])
  | leave {t a outer b calls} (hs : s.callStacks t = a :: outer) (hpc : a.frame.pc = .exited b) :
      SystemStep owner s { s.setStack t outer with calls := calls } []
  -- `ExecutePendingLocal` and the receivers
  | executeStop {t a outer run rest} (hs : s.callStacks t = a :: outer)
      (hpc : a.frame.pc = .draining (.stopOperation run :: rest)) :
      SystemStep owner s
        { s with
          callStacks := fun u =>
            (Function.update s.callStacks t (a.goto (.draining rest) :: outer) u).map
              (Activation.seeStop run) }
        [.at a.context (.executed (.stopOperation run))]
  | executeSchedule {t a outer id rest x} (hs : s.callStacks t = a :: outer)
      (hpc : a.frame.pc = .draining (.operation id :: rest))
      (hc : s.currentThreadContext t = some (owner id))
      (hx : (s.contexts (owner id)).invokeRpc id = some x) :
      SystemStep owner s
        (((s.setStack t (a.goto (.draining rest) :: outer)).setExecute id
          .onRequestComplete).setContext (owner id) x)
        [.at a.context (.executed (.operation id)), .checked t id true,
          .at (owner id) (.rpcInvoked id)]
  | executeScheduleFails {t a outer id rest} (hs : s.callStacks t = a :: outer)
      (hpc : a.frame.pc = .draining (.operation id :: rest))
      (hc : s.currentThreadContext t ≠ some (owner id)) :
      SystemStep owner s
        { s.setStack t (a.goto (.draining rest) :: outer) with aborted := true }
        [.at a.context (.executed (.operation id)), .checked t id false]
  | executeRequest {t a outer id rest} (hs : s.callStacks t = a :: outer)
      (hpc : a.frame.pc = .draining (.operation id :: rest)) (ok : Bool) :
      SystemStep owner s (s.setStack t (a.goto (.executing id (.value ok) rest) :: outer))
        [.at a.context (.executed (.operation id)), .at a.context (.setValue id ok)]
  | setValueThrows {t a outer id ok rest} (hs : s.callStacks t = a :: outer)
      (hpc : a.frame.pc = .executing id (.value ok) rest) :
      SystemStep owner s (s.setStack t (a.goto (.executing id .error rest) :: outer))
        [.at a.context (.setError id)]
  | receiverReturns {t a outer id result rest} (hs : s.callStacks t = a :: outer)
      (hpc : a.frame.pc = .executing id result rest) (o : Operation) :
      SystemStep owner s ((s.setStack t (a.goto (.draining rest) :: outer)).setOperation id o)
        [.at a.context (.completed id result)]
  -- `start()`
  | startRemote {t id} (hu : s.inUserCode t = true)
      (hc : s.currentThreadContext t ≠ some (owner id)) :
      SystemStep owner s
        ((s.setExecute id .onScheduleComplete).scheduleRemote t (owner id) (.operation id))
        [.at (owner id) (.enqueued (.operation id))]
  | startDirect {t id x} (hu : s.inUserCode t = true)
      (hc : s.currentThreadContext t = some (owner id))
      (hx : (s.contexts (owner id)).invokeRpc id = some x) :
      SystemStep owner s ((s.setExecute id .onRequestComplete).setContext (owner id) x)
        [.checked t id true, .at (owner id) (.rpcInvoked id)]
  -- the stop callbacks
  | requestStopLocal {t run calls} (call : RunCall)
      (hc : s.currentThreadContext t = some call.context) :
      SystemStep owner s
        { s.setContext call.context
            ((s.contexts call.context).scheduleLocal (.stopOperation run)) with
          callStacks := fun u => (s.callStacks u).map (Activation.requestStop run)
          calls := calls }
        [.at call.context (.arrived .direct (.stopOperation run))]
  | requestStopRemote {t run calls} (call : RunCall)
      (hc : s.currentThreadContext t ≠ some call.context) :
      SystemStep owner s
        { s.scheduleRemote t call.context (.stopOperation run) with
          callStacks := fun u => (s.callStacks u).map (Activation.requestStop run)
          calls := calls }
        [.at call.context (.enqueued (.stopOperation run))]
  -- `SignalRemoteQueue`, gRPC, `ShutDown`
  | signal {c x signalling calls} (hx : (s.contexts c).signalRemoteQueue = some x) :
      SystemStep owner s { s.setContext c x with signalling := signalling, calls := calls } []
  | finishRpc {c id ok cq} (hq : (s.contexts c).completionQueue.finish id ok = some cq) :
      SystemStep owner s (s.setContext c { s.contexts c with completionQueue := cq }) []
  | shutDown {c} :
      SystemStep owner s
        (s.setContext c { s.contexts c with
          completionQueue := (s.contexts c).completionQueue.shutdown }) []

namespace System

variable {owner : ℕ → ℕ} {s s' : System} {e : List SystemObservation} {t : ℕ}
  {a : Activation} {outer : List Activation}

/-! ### Inversion -/

theorem goOn_cases {x : GrpcContext} {pc : LoopPc} {o : List Observation}
    (hs : s.callStacks t = a :: outer) (hg : RunImplGoes (s.contexts a.context) a.frame x pc o) :
    SystemStep owner s (s.goOn t a outer x pc o).1 (s.goOn t a outer x pc o).2 := by
  cases pc with
  | exited b => exact .exit hs hg
  | _ => exact .goOn hs hg (fun b h => LoopPc.noConfusion h)

theorem executeItem_cases {item : OperationBase} {rest : List OperationBase}
    (hs : s.callStacks t = a :: outer) (hpc : a.frame.pc = .draining (item :: rest))
    (h : s.executeItem owner t a outer item rest = some (s', e)) : SystemStep owner s s' e := by
  unfold executeItem at h
  cases item with
  | stopOperation run =>
    simp only [Option.ite_none_right_eq_some, Option.some.injEq, Prod.mk.injEq] at h
    obtain ⟨-, rfl, rfl⟩ := h
    exact .executeStop hs hpc
  | operation id =>
    rcases hfn : (s.ops id).execute with - | ⟨- | -⟩
    · simp [hfn] at h
    · simp only [hfn, startAsyncRpc, Option.map_eq_some_iff, Prod.exists, Prod.mk.injEq] at h
      obtain ⟨s₁, e₁, hstart, rfl, rfl⟩ := h
      split at hstart
      next hc =>
        obtain ⟨x, hx, heq⟩ := Option.map_eq_some_iff.mp hstart
        obtain ⟨rfl, rfl⟩ := Prod.mk.inj heq
        exact .executeSchedule hs hpc (isRunningOnThisThread_iff.mp hc) hx
      next hc =>
        obtain ⟨rfl, rfl⟩ := Prod.mk.inj (Option.some.inj hstart)
        exact .executeScheduleFails hs hpc (fun hc' => hc (isRunningOnThisThread_iff.mpr hc'))
    · simp only [hfn, Option.some.injEq, Prod.mk.injEq] at h
      obtain ⟨rfl, rfl⟩ := h
      exact .executeRequest hs hpc _

theorem loopStep_cases (hs : s.callStacks t = a :: outer)
    (h : s.loopStep owner t a outer = some (s', e)) : SystemStep owner s s' e := by
  unfold loopStep at h
  split at h
  next hpc =>
    obtain ⟨rfl, rfl⟩ := Prod.mk.inj (Option.some.inj h)
    exact .enter hs hpc
  next item rest hpc => exact executeItem_cases hs hpc h
  next b hpc =>
    simp only [Option.ite_none_left_eq_some, Option.some.injEq, Prod.mk.injEq] at h
    obtain ⟨-, rfl, rfl⟩ := h
    exact .leave hs hpc
  · obtain ⟨⟨x, pc, o⟩, hx, heq⟩ := Option.map_eq_some_iff.mp h
    obtain ⟨rfl, rfl⟩ := Prod.mk.inj heq
    exact goOn_cases hs (.step hx)

theorem start_cases {id : ℕ} (hu : s.inUserCode t = true)
    (h : s.start owner t id = some (s', e)) : SystemStep owner s s' e := by
  unfold start startAsyncRpc at h
  by_cases hc : s.currentThreadContext t = some (owner id)
  · have hrun : s.isRunningOnThisThread t (owner id) = true := isRunningOnThisThread_iff.mpr hc
    simp only [hrun, Bool.not_true, Bool.false_eq_true, if_false, if_true] at h
    obtain ⟨x, hx, heq⟩ := Option.map_eq_some_iff.mp h
    obtain ⟨rfl, rfl⟩ := Prod.mk.inj heq
    exact .startDirect hu hc hx
  · have hrun : s.isRunningOnThisThread t (owner id) = false := by
      rw [Bool.eq_false_iff]
      exact fun hc' => hc (isRunningOnThisThread_iff.mp hc')
    simp only [hrun, Bool.not_false, if_true] at h
    obtain ⟨rfl, rfl⟩ := Prod.mk.inj (Option.some.inj h)
    exact .startRemote hu hc

theorem requestStop_cases (owner : ℕ → ℕ) (s : System) (t : ℕ) (call : RunCall) (run : ℕ) :
    SystemStep owner s (s.requestStop t call run).1 (s.requestStop t call run).2 := by
  unfold requestStop
  by_cases hc : s.currentThreadContext t = some call.context
  · have hl : s.scheduleImpl t call.context (.stopOperation run) = _ :=
      if_pos (isRunningOnThisThread_iff.mpr hc)
    rw [hl]
    exact .requestStopLocal call hc
  · have hr : s.scheduleImpl t call.context (.stopOperation run) = _ :=
      if_neg (fun hc' => hc (isRunningOnThisThread_iff.mp hc'))
    rw [hr]
    exact .requestStopRemote call hc

/-- **Inversion of `System.step`.** -/
theorem system_step_cases {act : SystemAction} (h : s.step owner act = some (s', e)) :
    SystemStep owner s s' e := by
  cases act with
  | run t c =>
    simp only [step, Option.ite_none_right_eq_some, Option.some.injEq, Prod.mk.injEq] at h
    obtain ⟨hu, rfl, rfl⟩ := h
    exact .run hu
  | loop t =>
    rcases hs : s.callStacks t with - | ⟨a, outer⟩ <;> simp only [step, hs, reduceCtorEq] at h
    simp only [Option.ite_none_right_eq_some] at h
    exact loopStep_cases hs h.2
  | next t r =>
    rcases hs : s.callStacks t with - | ⟨a, outer⟩ <;> simp only [step, hs, reduceCtorEq] at h
    simp only [Option.ite_none_right_eq_some] at h
    obtain ⟨⟨x, pc, o⟩, hx, heq⟩ := Option.map_eq_some_iff.mp h.2
    obtain ⟨rfl, rfl⟩ := Prod.mk.inj heq
    exact goOn_cases hs (.next h.1 hx)
  | setValueThrows t =>
    rcases hs : s.callStacks t with - | ⟨a, outer⟩ <;> simp only [step, hs, reduceCtorEq] at h
    split at h
    next id ok rest hpc =>
      simp only [Option.ite_none_right_eq_some, Option.some.injEq, Prod.mk.injEq] at h
      obtain ⟨-, rfl, rfl⟩ := h
      exact .setValueThrows hs hpc
    · cases h
  | receiverReturns t =>
    rcases hs : s.callStacks t with - | ⟨a, outer⟩ <;> simp only [step, hs, reduceCtorEq] at h
    split at h
    next id result rest hpc =>
      simp only [Option.ite_none_right_eq_some, Option.some.injEq, Prod.mk.injEq] at h
      obtain ⟨-, rfl, rfl⟩ := h
      exact .receiverReturns hs hpc _
    · cases h
  | start t id =>
    simp only [step, Bool.or_eq_true, Bool.not_eq_true', Option.ite_none_left_eq_some, not_or,
      Bool.not_eq_false] at h
    exact start_cases h.1.2 h.2
  | requestStop t run =>
    rcases hc : s.calls run with - | call <;> simp only [step, hc, reduceCtorEq] at h
    simp only [Option.ite_none_right_eq_some, Option.some.injEq] at h
    have hstep := requestStop_cases owner s t call run
    rwa [h.2] at hstep
  | signal t =>
    rcases hc : s.signalling t with - | ⟨c, op⟩ <;> simp only [step, hc, reduceCtorEq] at h
    obtain ⟨x, hx, heq⟩ := Option.map_eq_some_iff.mp h
    obtain ⟨rfl, rfl⟩ := Prod.mk.inj heq
    exact .signal hx
  | finishRpc c id ok =>
    obtain ⟨cq, hq, heq⟩ := Option.map_eq_some_iff.mp h
    obtain ⟨rfl, rfl⟩ := Prod.mk.inj heq
    exact .finishRpc hq
  | shutDown c =>
    obtain ⟨rfl, rfl⟩ := Prod.mk.inj (Option.some.inj h)
    exact .shutDown

end System

end Agrpc
