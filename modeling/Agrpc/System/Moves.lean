/-
Agrpc/System/Moves.lean

Everything a step of the system does, guards and bookkeeping included:
`SystemMove`, one constructor per branch of the code, with the action that
takes it, and the inversion lemma `system_move_cases`.

`SystemStep` says what the scopes of `current_thread_context` need to know; the
results about single contexts also need which call a stop callback belongs to
and what keeps a `Run` call from returning.
-/
import Agrpc.System.ThreadSteps

namespace Agrpc

/-- The calls after `SignalRemoteQueue` for `op`: a stop callback returns. -/
def System.callsSignalled (s : System) : OperationBase → ℕ → Option RunCall
  | .stopOperation run =>
      Function.update s.calls run
        ((s.calls run).map fun call => { call with signalling := false })
  | .operation _ => s.calls

/-- `SystemMove owner s a s' e`: the action `a` takes `s` to `s'` and emits
`e`. -/
inductive SystemMove (owner : ℕ → ℕ) (s : System) :
    SystemAction → System → List SystemObservation → Prop
  -- a `Run` call: registration, entry, the loop, return
  | run {t c} (hu : s.inUserCode t = true) :
      SystemMove owner s (.run t c)
        { s.setStack t ({ context := c, frame := { run := s.runs } } :: s.callStacks t) with
          calls := Function.update s.calls s.runs (some { thread := t, context := c })
          runs := s.runs + 1 } []
  | enter {t a outer} (hs : s.callStacks t = a :: outer) (hpc : a.frame.pc = .registered) :
      SystemMove owner s (.loop t)
        ((s.setStack t
            ({ a.goto .loopTop with oldContext := s.currentThreadContext t } :: outer)).setCurrent t
          (some a.context))
        [.entered t a.frame.run (s.currentThreadContext t)]
  | loop {t a outer x pc e} (hs : s.callStacks t = a :: outer)
      (hx : runImplStep (s.contexts a.context) a.frame.shouldStop a.frame.pc = some (x, pc, e)) :
      SystemMove owner s (.loop t) (s.goOn t a outer x pc e).1 (s.goOn t a outer x pc e).2
  | next {t r a outer x pc e} (hs : s.callStacks t = a :: outer) (hpc : a.frame.pc = .callNext)
      (hx : runImplNext (s.contexts a.context) r = some (x, pc, e)) :
      SystemMove owner s (.next t r) (s.goOn t a outer x pc e).1 (s.goOn t a outer x pc e).2
  | leave {t a outer b} (hs : s.callStacks t = a :: outer) (hpc : a.frame.pc = .exited b)
      (hcall : (s.calls a.frame.run).any RunCall.signalling = false) :
      SystemMove owner s (.loop t)
        { s.setStack t outer with calls := Function.update s.calls a.frame.run none } []
  -- `ExecutePendingLocal` and the receivers
  | executeStop {t a outer run rest} (hs : s.callStacks t = a :: outer)
      (hpc : a.frame.pc = .draining (.stopOperation run :: rest))
      (hcall : (s.calls run).isSome = true) :
      SystemMove owner s (.loop t)
        { s with
          callStacks := fun u =>
            (Function.update s.callStacks t (a.goto (.draining rest) :: outer) u).map
              (Activation.seeStop run) }
        [.at a.context (.executed (.stopOperation run))]
  | executeSchedule {t a outer id rest x} (hs : s.callStacks t = a :: outer)
      (hpc : a.frame.pc = .draining (.operation id :: rest))
      (hfn : (s.ops id).execute = some .onScheduleComplete)
      (hc : s.currentThreadContext t = some (owner id))
      (hx : (s.contexts (owner id)).invokeRpc id = some x) :
      SystemMove owner s (.loop t)
        (((s.setStack t (a.goto (.draining rest) :: outer)).setExecute id
          .onRequestComplete).setContext (owner id) x)
        [.at a.context (.executed (.operation id)), .checked t id true,
          .at (owner id) (.rpcInvoked id)]
  | executeScheduleFails {t a outer id rest} (hs : s.callStacks t = a :: outer)
      (hpc : a.frame.pc = .draining (.operation id :: rest))
      (hc : s.currentThreadContext t ≠ some (owner id)) :
      SystemMove owner s (.loop t)
        { s.setStack t (a.goto (.draining rest) :: outer) with aborted := true }
        [.at a.context (.executed (.operation id)), .checked t id false]
  | executeRequest {t a outer id rest} (hs : s.callStacks t = a :: outer)
      (hpc : a.frame.pc = .draining (.operation id :: rest))
      (hfn : (s.ops id).execute = some .onRequestComplete) :
      SystemMove owner s (.loop t)
        (s.setStack t
          (a.goto (.executing id (.value (s.contexts (owner id)).event.ok) rest) :: outer))
        [.at a.context (.executed (.operation id)),
          .at a.context (.setValue id (s.contexts (owner id)).event.ok)]
  | setValueThrows {t a outer id ok rest} (hs : s.callStacks t = a :: outer)
      (hpc : a.frame.pc = .executing id (.value ok) rest) :
      SystemMove owner s (.setValueThrows t)
        (s.setStack t (a.goto (.executing id .error rest) :: outer))
        [.at a.context (.setError id)]
  | receiverReturns {t a outer id result rest} (hs : s.callStacks t = a :: outer)
      (hpc : a.frame.pc = .executing id result rest) :
      SystemMove owner s (.receiverReturns t)
        ((s.setStack t (a.goto (.draining rest) :: outer)).setOperation id
          { s.ops id with finished := true })
        [.at a.context (.completed id result)]
  -- `start()`
  | startRemote {t id} (hst : (s.ops id).started = false) (hu : s.inUserCode t = true)
      (hc : s.currentThreadContext t ≠ some (owner id)) :
      SystemMove owner s (.start t id)
        ((s.setExecute id .onScheduleComplete).scheduleRemote t (owner id) (.operation id))
        [.at (owner id) (.enqueued (.operation id))]
  | startDirect {t id x} (hst : (s.ops id).started = false) (hu : s.inUserCode t = true)
      (hc : s.currentThreadContext t = some (owner id))
      (hx : (s.contexts (owner id)).invokeRpc id = some x) :
      SystemMove owner s (.start t id)
        ((s.setExecute id .onRequestComplete).setContext (owner id) x)
        [.checked t id true, .at (owner id) (.rpcInvoked id)]
  -- the stop callbacks
  | requestStopLocal {t run call} (hcall : s.calls run = some call)
      (hst : s.stopPending call run = true)
      (hu : (s.inUserCode t || s.registers t run) = true)
      (hc : s.currentThreadContext t = some call.context) :
      SystemMove owner s (.requestStop t run)
        { s.setContext call.context
            ((s.contexts call.context).scheduleLocal (.stopOperation run)) with
          callStacks := fun u => (s.callStacks u).map (Activation.requestStop run)
          calls := Function.update s.calls run
            (some { call with signalling := (s.signalling t).isSome }) }
        [.at call.context (.arrived .direct (.stopOperation run))]
  | requestStopRemote {t run call} (hcall : s.calls run = some call)
      (hst : s.stopPending call run = true)
      (hu : (s.inUserCode t || s.registers t run) = true)
      (hc : s.currentThreadContext t ≠ some call.context) :
      SystemMove owner s (.requestStop t run)
        { s.scheduleRemote t call.context (.stopOperation run) with
          callStacks := fun u => (s.callStacks u).map (Activation.requestStop run)
          calls := Function.update s.calls run
            (some { call with
              signalling :=
                ((s.scheduleRemote t call.context (.stopOperation run)).signalling t).isSome }) }
        [.at call.context (.enqueued (.stopOperation run))]
  -- `SignalRemoteQueue`, gRPC, `ShutDown`
  | signal {t c op x} (hsig : s.signalling t = some (c, op))
      (hx : (s.contexts c).signalRemoteQueue = some x) :
      SystemMove owner s (.signal t)
        { s.setContext c x with
          signalling := Function.update s.signalling t none
          calls := s.callsSignalled op } []
  | finishRpc {c id ok cq} (hq : (s.contexts c).completionQueue.finish id ok = some cq) :
      SystemMove owner s (.finishRpc c id ok)
        (s.setContext c { s.contexts c with completionQueue := cq }) []
  | shutDown {c} :
      SystemMove owner s (.shutDown c)
        (s.setContext c { s.contexts c with
          completionQueue := (s.contexts c).completionQueue.shutdown }) []

namespace System

variable {owner : ℕ → ℕ} {s s' : System} {e : List SystemObservation} {t : ℕ}
  {a : Activation} {outer : List Activation}

theorem executeItem_moves {item : OperationBase} {rest : List OperationBase}
    (hs : s.callStacks t = a :: outer) (hpc : a.frame.pc = .draining (item :: rest))
    (h : s.executeItem owner t a outer item rest = some (s', e)) :
    SystemMove owner s (.loop t) s' e := by
  unfold executeItem at h
  cases item with
  | stopOperation run =>
    simp only [Option.ite_none_right_eq_some, Option.some.injEq, Prod.mk.injEq] at h
    obtain ⟨hcall, rfl, rfl⟩ := h
    exact .executeStop hs hpc hcall
  | operation id =>
    rcases hfn : (s.ops id).execute with - | ⟨- | -⟩
    · simp [hfn] at h
    · simp only [hfn, startAsyncRpc, Option.map_eq_some_iff, Prod.exists, Prod.mk.injEq] at h
      obtain ⟨s₁, e₁, hstart, rfl, rfl⟩ := h
      split at hstart
      next hc =>
        obtain ⟨x, hx, heq⟩ := Option.map_eq_some_iff.mp hstart
        obtain ⟨rfl, rfl⟩ := Prod.mk.inj heq
        exact .executeSchedule hs hpc hfn (isRunningOnThisThread_iff.mp hc) hx
      next hc =>
        obtain ⟨rfl, rfl⟩ := Prod.mk.inj (Option.some.inj hstart)
        exact .executeScheduleFails hs hpc (fun hc' => hc (isRunningOnThisThread_iff.mpr hc'))
    · simp only [hfn, Option.some.injEq, Prod.mk.injEq] at h
      obtain ⟨rfl, rfl⟩ := h
      exact .executeRequest hs hpc hfn

theorem loopStep_moves (hs : s.callStacks t = a :: outer)
    (h : s.loopStep owner t a outer = some (s', e)) : SystemMove owner s (.loop t) s' e := by
  unfold loopStep at h
  split at h
  next hpc =>
    obtain ⟨rfl, rfl⟩ := Prod.mk.inj (Option.some.inj h)
    exact .enter hs hpc
  next item rest hpc => exact executeItem_moves hs hpc h
  next b hpc =>
    simp only [Option.ite_none_left_eq_some, Option.some.injEq, Prod.mk.injEq] at h
    obtain ⟨hcall, rfl, rfl⟩ := h
    exact .leave hs hpc (Bool.eq_false_iff.mpr hcall)
  · obtain ⟨⟨x, pc, o⟩, hx, heq⟩ := Option.map_eq_some_iff.mp h
    obtain ⟨rfl, rfl⟩ := Prod.mk.inj heq
    exact .loop hs hx

theorem start_moves {id : ℕ} (hst : (s.ops id).started = false) (hu : s.inUserCode t = true)
    (h : s.start owner t id = some (s', e)) : SystemMove owner s (.start t id) s' e := by
  unfold start startAsyncRpc at h
  by_cases hc : s.currentThreadContext t = some (owner id)
  · have hrun : s.isRunningOnThisThread t (owner id) = true := isRunningOnThisThread_iff.mpr hc
    simp only [hrun, Bool.not_true, Bool.false_eq_true, if_false, if_true] at h
    obtain ⟨x, hx, heq⟩ := Option.map_eq_some_iff.mp h
    obtain ⟨rfl, rfl⟩ := Prod.mk.inj heq
    exact .startDirect hst hu hc hx
  · have hrun : s.isRunningOnThisThread t (owner id) = false := by
      rw [Bool.eq_false_iff]
      exact fun hc' => hc (isRunningOnThisThread_iff.mp hc')
    simp only [hrun, Bool.not_false, if_true] at h
    obtain ⟨rfl, rfl⟩ := Prod.mk.inj (Option.some.inj h)
    exact .startRemote hst hu hc

theorem requestStop_moves {call : RunCall} {run : ℕ} (hcall : s.calls run = some call)
    (hst : s.stopPending call run = true) (hu : (s.inUserCode t || s.registers t run) = true) :
    SystemMove owner s (.requestStop t run) (s.requestStop t call run).1
      (s.requestStop t call run).2 := by
  unfold requestStop
  by_cases hc : s.currentThreadContext t = some call.context
  · have hl : s.scheduleImpl t call.context (.stopOperation run) = _ :=
      if_pos (isRunningOnThisThread_iff.mpr hc)
    rw [hl]
    exact .requestStopLocal hcall hst hu hc
  · have hr : s.scheduleImpl t call.context (.stopOperation run) = _ :=
      if_neg (fun hc' => hc (isRunningOnThisThread_iff.mp hc'))
    rw [hr]
    exact .requestStopRemote hcall hst hu hc

/-- **Inversion of `System.step`**, with everything a step does. -/
theorem system_move_cases {act : SystemAction} (h : s.step owner act = some (s', e)) :
    SystemMove owner s act s' e := by
  cases act with
  | run t c =>
    simp only [step, Option.ite_none_right_eq_some, Option.some.injEq, Prod.mk.injEq] at h
    obtain ⟨hu, rfl, rfl⟩ := h
    exact .run hu
  | loop t =>
    rcases hs : s.callStacks t with - | ⟨a, outer⟩ <;> simp only [step, hs, reduceCtorEq] at h
    simp only [Option.ite_none_right_eq_some] at h
    exact loopStep_moves hs h.2
  | next t r =>
    rcases hs : s.callStacks t with - | ⟨a, outer⟩ <;> simp only [step, hs, reduceCtorEq] at h
    simp only [Option.ite_none_right_eq_some] at h
    obtain ⟨⟨x, pc, o⟩, hx, heq⟩ := Option.map_eq_some_iff.mp h.2
    obtain ⟨rfl, rfl⟩ := Prod.mk.inj heq
    exact .next hs h.1 hx
  | setValueThrows t =>
    rcases hs : s.callStacks t with - | ⟨a, outer⟩ <;> simp only [step, hs, reduceCtorEq] at h
    split at h
    next id ok rest hpc =>
      simp only [Option.ite_none_right_eq_some, Option.some.injEq, Prod.mk.injEq] at h
      obtain ⟨-, rfl, rfl⟩ := h
      exact .setValueThrows hs hpc
    · cases h
  | receiverReturns t =>
    rcases hs : s.callStacks t with - | ⟨a, outer⟩ <;> simp only [step, hs, reduceCtorEq] at h
    split at h
    next id result rest hpc =>
      simp only [Option.ite_none_right_eq_some, Option.some.injEq, Prod.mk.injEq] at h
      obtain ⟨-, rfl, rfl⟩ := h
      exact .receiverReturns hs hpc
    · cases h
  | start t id =>
    simp only [step, Bool.or_eq_true, Bool.not_eq_true', Option.ite_none_left_eq_some, not_or,
      Bool.not_eq_false] at h
    exact start_moves (Bool.eq_false_iff.mpr h.1.1) h.1.2 h.2
  | requestStop t run =>
    rcases hc : s.calls run with - | call <;> simp only [step, hc, reduceCtorEq] at h
    simp only [Option.ite_none_right_eq_some, Option.some.injEq, Bool.and_eq_true] at h
    have hmove : SystemMove owner s (.requestStop t run) (s.requestStop t call run).1
        (s.requestStop t call run).2 := requestStop_moves hc h.1.1 h.1.2
    rwa [h.2] at hmove
  | signal t =>
    rcases hc : s.signalling t with - | ⟨c, op⟩ <;> simp only [step, hc, reduceCtorEq] at h
    obtain ⟨x, hx, heq⟩ := Option.map_eq_some_iff.mp h
    obtain ⟨rfl, rfl⟩ := Prod.mk.inj heq
    cases op <;> exact .signal hc hx
  | finishRpc c id ok =>
    obtain ⟨cq, hq, heq⟩ := Option.map_eq_some_iff.mp h
    obtain ⟨rfl, rfl⟩ := Prod.mk.inj heq
    exact .finishRpc hq
  | shutDown c =>
    obtain ⟨rfl, rfl⟩ := Prod.mk.inj (Option.some.inj h)
    exact .shutDown

end System

end Agrpc
