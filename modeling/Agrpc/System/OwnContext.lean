/-
Agrpc/System/OwnContext.lean

An RPC is started on a thread that runs its operation's context.  `start()`
decides by `current_thread_context`, and an operation it sends to the remote
queue comes out of that queue under its own context's loop: a context holds no
operation of another (`Owned`).  So the check of `StartAsyncRPC` holds on both
routes.
-/
import Agrpc.Context.Contents
import Agrpc.System.CurrentContext

namespace Agrpc

open Interleaving Scoping

variable {owner : ℕ → ℕ}

/-! ### Whose operations a context holds -/

/-- An operation in the hands of context `c` belongs to it. -/
def OwnedBy (owner : ℕ → ℕ) (c : ℕ) : OperationBase → Prop
  | .stopOperation _ => True
  | .operation id => owner id = c

theorem ownedBy_owner (owner : ℕ → ℕ) (id : ℕ) : OwnedBy owner (owner id) (.operation id) := rfl

theorem ownedBy_stopOperation (owner : ℕ → ℕ) (c run : ℕ) :
    OwnedBy owner c (.stopOperation run) := trivial

/-- What the contexts hold, and what their loops still have in a batch,
belongs to them. -/
structure Owned (owner : ℕ → ℕ) (s : System) : Prop where
  holds : ∀ c, OnlyHolds (OwnedBy owner c) (s.contexts c)
  batches : ∀ t, ∀ a ∈ s.callStacks t, ∀ op ∈ a.frame.pc.batch, OwnedBy owner a.context op

namespace Owned

variable {s s' : System}

/-- A step that changes context `c` only. -/
theorem setContext (h : Owned owner s) {c : ℕ} {x : GrpcContext}
    (hx : OnlyHolds (OwnedBy owner c) x) (hc : s'.contexts = Function.update s.contexts c x)
    (hst : ∀ t, ∀ a ∈ s'.callStacks t, ∀ op ∈ a.frame.pc.batch, OwnedBy owner a.context op) :
    Owned owner s' := by
  refine ⟨?_, hst⟩
  intro d
  rw [hc]
  by_cases hd : d = c
  · rw [hd, Function.update_self]
    exact hx
  · rw [Function.update_of_ne hd]
    exact h.holds d

/-- The batches after a step that gives thread `t` the stack `stack`. -/
theorem batches_setStack (h : Owned owner s) (t : ℕ) {stack : List Activation}
    (hst : ∀ b ∈ stack, ∀ op ∈ b.frame.pc.batch, OwnedBy owner b.context op) :
    ∀ u, ∀ b ∈ Function.update s.callStacks t stack u,
      ∀ op ∈ b.frame.pc.batch, OwnedBy owner b.context op := by
  intro u b hb
  by_cases hu : u = t
  · rw [hu, Function.update_self] at hb
    exact hst b hb
  · rw [Function.update_of_ne hu] at hb
    exact h.batches u b hb

theorem outer_owned (h : Owned owner s) {t : ℕ} {a : Activation} {outer : List Activation}
    (hs : s.callStacks t = a :: outer) :
    ∀ b ∈ outer, ∀ op ∈ b.frame.pc.batch, OwnedBy owner b.context op := by
  intro b hb
  apply h.batches t b
  rw [hs]
  exact List.mem_cons_of_mem a hb

/-- The batches after a step of thread `t` in its innermost call. -/
theorem batches_goto (h : Owned owner s) {t : ℕ} {a : Activation} {outer : List Activation}
    (hs : s.callStacks t = a :: outer) {pc : LoopPc}
    (hpc : ∀ op ∈ pc.batch, OwnedBy owner a.context op) :
    ∀ u, ∀ b ∈ Function.update s.callStacks t (a.goto pc :: outer) u,
      ∀ op ∈ b.frame.pc.batch, OwnedBy owner b.context op :=
  h.batches_setStack t (List.forall_mem_cons.mpr ⟨hpc, h.outer_owned hs⟩)

/-- The rest of the batch the innermost call holds. -/
theorem rest_owned (h : Owned owner s) {t : ℕ} {a : Activation} {outer : List Activation}
    (hs : s.callStacks t = a :: outer) {rest : List OperationBase}
    (hrest : ∀ op ∈ rest, op ∈ a.frame.pc.batch) : ∀ op ∈ rest, OwnedBy owner a.context op := by
  intro op hop
  apply h.batches t a
  · rw [hs]
    exact List.mem_cons_self
  · exact hrest op hop

/-- The batches after the flags of the frames changed. -/
theorem batches_map (h : Owned owner s) {f : Activation → Activation}
    (hpc : ∀ a, (f a).frame.pc = a.frame.pc) (hctx : ∀ a, (f a).context = a.context) :
    ∀ u, ∀ b ∈ (s.callStacks u).map f, ∀ op ∈ b.frame.pc.batch, OwnedBy owner b.context op := by
  intro u b hb
  obtain ⟨a, ha, rfl⟩ := List.mem_map.mp hb
  rw [hpc, hctx]
  exact h.batches u a ha

end Owned

/-- The loop keeps what it holds: its batch is its context's. -/
theorem Owned.goes {s : System} (h : Owned owner s) {a : Activation} {x : GrpcContext}
    {pc : LoopPc} {e : List Observation}
    (hg : RunImplGoes (s.contexts a.context) a.frame x pc e) :
    OnlyHolds (OwnedBy owner a.context) x ∧ ∀ op ∈ pc.batch, OwnedBy owner a.context op := by
  cases hg with
  | step hs => exact (h.holds a.context).runImplStep hs
  | next hpc hs =>
    obtain ⟨hx, hb⟩ := (h.holds a.context).runImplNext hs
    refine ⟨hx, ?_⟩
    rw [hb]
    intro op hop
    exact absurd hop List.not_mem_nil

theorem Owned.init (owner : ℕ → ℕ) : Owned owner {} :=
  ⟨fun _ => OnlyHolds.init, fun _ _ ha => absurd ha List.not_mem_nil⟩

/-- **The step lemma for ownership.** -/
theorem Owned.step {s s' : System} {e : List SystemObservation} (h : Owned owner s)
    (hstep : SystemStep owner s s' e) : Owned owner s' := by
  cases hstep with
  | @run t c calls runs hu =>
    have hnew : ∀ op ∈ LoopPc.registered.batch, OwnedBy owner c op :=
      fun op hop => absurd hop List.not_mem_nil
    exact ⟨h.holds, h.batches_setStack t (List.forall_mem_cons.mpr ⟨hnew, h.batches t⟩)⟩
  | @enter t a outer hs hpc =>
    have htop : ∀ op ∈ LoopPc.loopTop.batch, OwnedBy owner a.context op :=
      fun op hop => absurd hop List.not_mem_nil
    exact ⟨h.holds, h.batches_setStack t (List.forall_mem_cons.mpr ⟨htop, h.outer_owned hs⟩)⟩
  | @goOn t a outer x pc e hs hg hpc =>
    obtain ⟨hx, hb⟩ := h.goes hg
    exact h.setContext hx rfl (h.batches_goto hs hb)
  | @exit t a outer x b e hs hg =>
    obtain ⟨hx, hb⟩ := h.goes hg
    exact h.setContext hx rfl (h.batches_goto hs hb)
  | @leave t a outer b calls hs hpc =>
    exact ⟨h.holds, h.batches_setStack t (h.outer_owned hs)⟩
  | @executeStop t a outer run rest hs hpc =>
    have hrest : ∀ op ∈ rest, OwnedBy owner a.context op :=
      h.rest_owned hs (by rw [hpc]; exact fun op hop => List.mem_cons_of_mem _ hop)
    have hmid : Owned owner (s.setStack t (a.goto (.draining rest) :: outer)) :=
      ⟨h.holds, h.batches_goto hs hrest⟩
    exact ⟨h.holds, hmid.batches_map (Activation.seeStop_pc run)
      (Activation.seeStop_context run)⟩
  | @executeSchedule t a outer id rest x hs hpc hc hx =>
    have hrest : ∀ op ∈ rest, OwnedBy owner a.context op :=
      h.rest_owned hs (by rw [hpc]; exact fun op hop => List.mem_cons_of_mem _ hop)
    exact h.setContext ((h.holds (owner id)).invokeRpc (ownedBy_owner owner id) hx) rfl
      (h.batches_goto hs hrest)
  | @executeScheduleFails t a outer id rest hs hpc hc =>
    have hrest : ∀ op ∈ rest, OwnedBy owner a.context op :=
      h.rest_owned hs (by rw [hpc]; exact fun op hop => List.mem_cons_of_mem _ hop)
    exact ⟨h.holds, h.batches_goto hs hrest⟩
  | @executeRequest t a outer id rest hs hpc ok =>
    have hrest : ∀ op ∈ rest, OwnedBy owner a.context op :=
      h.rest_owned hs (by rw [hpc]; exact fun op hop => List.mem_cons_of_mem _ hop)
    exact ⟨h.holds, h.batches_goto hs hrest⟩
  | @setValueThrows t a outer id ok rest hs hpc =>
    have hrest : ∀ op ∈ rest, OwnedBy owner a.context op :=
      h.rest_owned hs (by rw [hpc]; exact fun op hop => hop)
    exact ⟨h.holds, h.batches_goto hs hrest⟩
  | @receiverReturns t a outer id result rest hs hpc o =>
    have hrest : ∀ op ∈ rest, OwnedBy owner a.context op :=
      h.rest_owned hs (by rw [hpc]; exact fun op hop => hop)
    exact ⟨h.holds, h.batches_goto hs hrest⟩
  | @startRemote t id hu hc =>
    exact h.setContext ((h.holds (owner id)).enqueueRemote (ownedBy_owner owner id)) rfl h.batches
  | @startDirect t id x hu hc hx =>
    exact h.setContext ((h.holds (owner id)).invokeRpc (ownedBy_owner owner id) hx) rfl h.batches
  | @requestStopLocal t run calls call hc =>
    exact h.setContext ((h.holds call.context).scheduleLocal (ownedBy_stopOperation owner _ run))
      rfl (h.batches_map (Activation.requestStop_pc run) (Activation.requestStop_context run))
  | @requestStopRemote t run calls call hc =>
    exact h.setContext ((h.holds call.context).enqueueRemote (ownedBy_stopOperation owner _ run))
      rfl (h.batches_map (Activation.requestStop_pc run) (Activation.requestStop_context run))
  | @signal c x signalling calls hx =>
    exact h.setContext ((h.holds c).signalRemoteQueue hx) rfl h.batches
  | @finishRpc c id ok cq hq => exact h.setContext ((h.holds c).finish hq) rfl h.batches
  | @shutDown c => exact h.setContext (h.holds c).shutdown rfl h.batches

/-! ### The check of `StartAsyncRPC` -/

/-- A call that executes an item of its batch runs on a thread whose variable
names its context. -/
theorem System.AllNested.current_of_draining {s : System} {h : List SystemObservation}
    (hn : s.AllNested h) {t : ℕ} {a : Activation} {outer : List Activation}
    (hs : s.callStacks t = a :: outer) {items : List OperationBase}
    (hpc : a.frame.pc = .draining items) : s.currentThreadContext t = some a.context := by
  have ha : a.inRunImpl = true := by simp [Activation.inRunImpl, hpc]
  have ht := (hn t).current_eq
  rw [hs, insides_cons_of_inside ha] at ht
  exact ht

/-- **The step lemma for the check**: it holds where it is evaluated. -/
theorem Owned.checks {s s' : System} {h e : List SystemObservation} (ho : Owned owner s)
    (hn : s.AllNested h) (hstep : SystemStep owner s s' e) :
    s'.aborted = s.aborted ∧ ∀ t id holds, .checked t id holds ∈ e → holds = true := by
  cases hstep with
  | @executeScheduleFails t a outer id rest hs hpc hc =>
    -- the operation is in a batch of `a`, so its context is the one `a` runs
    have hid : OwnedBy owner a.context (.operation id) := by
      apply ho.batches t a
      · rw [hs]
        exact List.mem_cons_self
      · rw [hpc]
        exact List.mem_cons_self
    have hid' : owner id = a.context := hid
    have hcur := hn.current_of_draining hs hpc
    rw [hid'] at hc
    exact absurd hcur hc
  | goOn | exit =>
    refine ⟨rfl, ?_⟩
    intro t id holds hmem
    simp at hmem
  | _ =>
    refine ⟨rfl, ?_⟩
    intro t id holds hmem
    simp_all

/-- What every run of the system keeps. -/
theorem System.nested_owned_of_exec {as : List SystemAction} {s : System}
    {h : List SystemObservation} (hrun : (systemMachine owner).exec as = some (s, h)) :
    s.AllNested h ∧ Owned owner s ∧ s.aborted = false ∧
      ∀ t id holds, .checked t id holds ∈ h → holds = true := by
  refine Machine.exec_induction (M := systemMachine owner)
    (I := fun s h => s.AllNested h ∧ Owned owner s ∧ s.aborted = false ∧
      ∀ t id holds, .checked t id holds ∈ h → holds = true) ?_ ?_ hrun
  · exact ⟨fun _ => Nested.init, Owned.init owner, rfl,
      fun _ _ _ hmem => absurd hmem List.not_mem_nil⟩
  · rintro s h a s' e ⟨hn, ho, hrunning, hchecks⟩ hs
    have hs' : (if s.aborted then none else s.step owner a) = some (s', e) := hs
    rw [hrunning] at hs'
    have hstep := system_step_cases hs'
    obtain ⟨hab, he⟩ := ho.checks hn hstep
    refine ⟨hn.step hstep, ho.step hstep, hab.trans hrunning, ?_⟩
    intro t id holds hmem
    rcases List.mem_append.mp hmem with hmem | hmem
    · exact hchecks t id holds hmem
    · exact he t id holds hmem

/-! ### Where `start()` goes -/

/-- `start()` calls `StartAsyncRPC`, whose check then holds, if the variable
names the operation's context, and enqueues on that context's remote queue
otherwise. -/
theorem System.start_outcome {s s' : System} {t id : ℕ} {e : List SystemObservation}
    (h : s.step owner (.start t id) = some (s', e)) :
    (s.currentThreadContext t = some (owner id) ∧
        e = [.checked t id true, .at (owner id) (.rpcInvoked id)]) ∨
      (s.currentThreadContext t ≠ some (owner id) ∧
        e = [.at (owner id) (.enqueued (.operation id))] ∧
        (s'.contexts (owner id)).remoteQueue.items
          = (s.contexts (owner id)).remoteQueue.items ++ [.operation id]) := by
  simp only [step, Option.ite_none_left_eq_some] at h
  have hstart := h.2
  unfold start startAsyncRpc at hstart
  by_cases hc : s.currentThreadContext t = some (owner id)
  · left
    have hr : s.isRunningOnThisThread t (owner id) = true := isRunningOnThisThread_iff.mpr hc
    simp only [hr, Bool.not_true, Bool.false_eq_true, if_false, if_true] at hstart
    obtain ⟨x, -, heq⟩ := Option.map_eq_some_iff.mp hstart
    exact ⟨hc, (Prod.mk.inj heq).2.symm⟩
  · right
    have hr : s.isRunningOnThisThread t (owner id) = false := by
      rw [Bool.eq_false_iff]
      exact fun hc' => hc (isRunningOnThisThread_iff.mp hc')
    simp only [hr, Bool.not_false, if_true] at hstart
    obtain ⟨rfl, rfl⟩ := Prod.mk.inj (Option.some.inj hstart)
    refine ⟨hc, rfl, ?_⟩
    rw [scheduleRemote_contexts, Function.update_self]
    exact AtomicQueue.items_enqueue _ _

/-- **RPCs are started on a thread that runs their context**, for any number
of contexts and threads and any nesting of `Run` calls.  The variable of every
thread names the context of its innermost `RunImpl`, and is what it was before
any `Run` call, `nullptr`, if there is none; every exit of `RunImpl` restores
what the entry of the same call found.  So `start()` calls `StartAsyncRPC` at
once exactly if the innermost `RunImpl` of its thread is its context's, and
enqueues on its context's remote queue otherwise; and no check of
`StartAsyncRPC` ever fails. -/
theorem System.runs_on_own_context (owner : ℕ → ℕ) {as : List SystemAction} {s : System}
    {h : List SystemObservation} (hrun : (systemMachine owner).exec as = some (s, h)) :
    (∀ t, s.currentThreadContext t = s.innermost t) ∧
      (∀ t, Bracketed (scopeEvents t h)
        ((insides (s.callStacks t)).map fun a => (a.frame.run, a.oldContext))) ∧
      (∀ t id s' e, s.step owner (.start t id) = some (s', e) →
        (e = [.checked t id true, .at (owner id) (.rpcInvoked id)] ↔
          s.innermost t = some (owner id)) ∧
        (s.innermost t ≠ some (owner id) →
          e = [.at (owner id) (.enqueued (.operation id))] ∧
          (s'.contexts (owner id)).remoteQueue.items
            = (s.contexts (owner id)).remoteQueue.items ++ [.operation id])) ∧
      (∀ t id holds, .checked t id holds ∈ h → holds = true) ∧ s.aborted = false := by
  obtain ⟨hn, -, hrunning, hchecks⟩ := nested_owned_of_exec hrun
  have hcur : ∀ t, s.currentThreadContext t = s.innermost t := by
    intro t
    rw [innermost_eq]
    exact (hn t).current_eq
  refine ⟨hcur, fun t => (hn t).bracketed, ?_, hchecks, hrunning⟩
  intro t id s' e hstart
  rw [← hcur t]
  rcases start_outcome hstart with ⟨hc, rfl⟩ | ⟨hc, rfl, hq⟩
  · exact ⟨⟨fun _ => hc, fun _ => rfl⟩, fun hne => absurd hc hne⟩
  · refine ⟨⟨?_, fun hc' => absurd hc' hc⟩, fun _ => ⟨rfl, hq⟩⟩
    intro heq
    cases heq

/-- A `Run` call on context 1 from a receiver that context 0 executes: the
inner loop executes an operation of context 1, whose receiver starts one of
each context, and after it returned the outer receiver starts one of its own.
Even operations are of context 0. -/
def nestedRuns : List SystemAction := List.flatten
  [[.start 7 0, .signal 7, .run 0 0], List.replicate 6 (.loop 0), [.next 0 (.alarm true)],
    List.replicate 8 (.loop 0), [.finishRpc 0 0 true, .next 0 (.tag 0 true)],
    List.replicate 3 (.loop 0),
    [.start 0 1, .signal 0, .run 0 1], List.replicate 6 (.loop 0), [.next 0 (.alarm true)],
    List.replicate 8 (.loop 0), [.finishRpc 1 1 true, .next 0 (.tag 1 true)],
    List.replicate 3 (.loop 0),
    [.start 0 2, .signal 0, .start 0 3, .requestStop 0 1, .finishRpc 1 3 true,
      .receiverReturns 0, .loop 0, .loop 0, .loop 0, .next 0 (.tag 3 true), .loop 0, .loop 0,
      .loop 0, .loop 0, .receiverReturns 0, .loop 0, .loop 0, .loop 0, .start 0 4]]

theorem System.runs_on_own_context_nested :
    ∃ s h, (systemMachine (· % 2)).exec nestedRuns = some (s, h) ∧
      (∀ t, s.currentThreadContext t = s.innermost t) ∧
      (∀ t, Bracketed (scopeEvents t h)
        ((insides (s.callStacks t)).map fun a => (a.frame.run, a.oldContext))) ∧
      (∀ t id s' e, s.step (· % 2) (.start t id) = some (s', e) →
        (e = [.checked t id true, .at (id % 2) (.rpcInvoked id)] ↔
          s.innermost t = some (id % 2)) ∧
        (s.innermost t ≠ some (id % 2) →
          e = [.at (id % 2) (.enqueued (.operation id))] ∧
          (s'.contexts (id % 2)).remoteQueue.items
            = (s.contexts (id % 2)).remoteQueue.items ++ [.operation id])) ∧
      (∀ t id holds, .checked t id holds ∈ h → holds = true) ∧ s.aborted = false := by
  obtain ⟨s, h, hrun⟩ := (systemMachine (· % 2)).exec_of_isSome nestedRuns (by decide +kernel)
  exact ⟨s, h, hrun, runs_on_own_context (· % 2) hrun⟩

end Agrpc
