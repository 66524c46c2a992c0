/-
Agrpc/Context/Progress.lean

That the loop of `RunImpl` gets on.

`State.toDo` bounds what the loop can do by itself: every step of the loop
thread lowers it, and only a `Run` call, a `Next` that returned and an item that
is scheduled raise it (`toDo_pays`).  So the loop thread on its own comes to
rest.  `Rests` says where, in any reachable state; without `ShutDown`, once
something was scheduled from outside, it is where the loop waits for others
(`reaches_next`).
-/
import Agrpc.Context.StopOperation
import Agrpc.Context.WakeUp
import Agrpc.Lib.Potential

namespace Agrpc

open Interleaving

/-! ### What the loop has to do -/

/-- The steps from a program point to `Next` or to the return of `Run`.  Every
item of the batch is two steps: it is executed, and its receiver returns. -/
def LoopPc.toDo : LoopPc → ℕ
  | callNext => 0
  | exited _ => 1
  | assignSubmitted _ => 1
  | dequeueRemote => 2
  | checkRemote => 3
  | checkStop => 4
  | draining pending => 5 + 2 * pending.length
  | executing _ _ pending => 6 + 2 * pending.length
  | loopTop => 6
  | registered => 7
  -- the event may be a completion, one item more
  | gotEvent => 9

namespace Action

/-- The steps the loop thread makes by itself. -/
def cost : Action → ℕ
  | loop | receiverReturns => 1
  | _ => 0

/-- What an action gives the loop to do. -/
def credit : Action → ℕ
  | run => 7
  | next _ => 9
  | start _ | requestStop _ | requestStopOnLoop _ => 2
  | _ => 0

end Action

namespace State

/-- What the loop thread has to do in all its `Run` calls, if it is given
nothing more. -/
def toDo (s : State) : ℕ :=
  total (fun f => f.pc.toDo) s.frames + 2 * s.context.remoteQueue.items.length
    + 2 * s.context.localQueue.length

theorem toDo_scheduleRemote (s : State) (op : OperationBase) :
    (s.scheduleRemote op).toDo = s.toDo + 2 := by
  rw [toDo, scheduleRemote_remoteQueue, AtomicQueue.items_enqueue, List.length_append]
  simp only [scheduleRemote_frames, scheduleRemote_localQueue, List.length_singleton, toDo]
  omega

/-- Marking frames moves none. -/
theorem total_pc_map (w : LoopPc → ℕ) {g : RunFrame → RunFrame} (hpc : ∀ f, (g f).pc = f.pc)
    (fs : List RunFrame) :
    total (fun f => w f.pc) (fs.map g) = total (fun f => w f.pc) fs := by
  rw [total_map]
  congr 1
  funext f
  exact congrArg w (hpc f)

/-- Moving the innermost call. -/
theorem toDo_goto {s s' : State} {f : RunFrame} {fs : List RunFrame} {pc : LoopPc} {m n : ℕ}
    (hf : s.frames = f :: fs) (hf' : s'.frames = f.goto pc :: fs)
    (hle : m + pc.toDo + 2 * s'.context.remoteQueue.items.length
        + 2 * s'.context.localQueue.length
      ≤ f.pc.toDo + 2 * s.context.remoteQueue.items.length
        + 2 * s.context.localQueue.length + n) :
    m + s'.toDo ≤ s.toDo + n := by
  simp only [toDo, hf, hf', total_cons, RunFrame.goto_pc]
  omega

/-- One step: what the loop does it no longer has to do. -/
theorem toDo_step {s s' : State} {a : Action} {e : List Observation} (hs : Step s a s' e) :
    a.cost + s'.toDo ≤ s.toDo + a.credit := by
  cases hs with
  | run =>
    simp only [toDo, total_cons, Action.cost, Action.credit, LoopPc.toDo]
    omega
  | @leave f fs b hf hpc =>
    simp only [toDo, hf, hpc, total_cons, Action.cost, LoopPc.toDo]
    omega
  | @start id =>
    show 0 + ((s.setExecute id .onScheduleComplete).scheduleRemote (.operation id)).toDo ≤ _ + 2
    rw [toDo_scheduleRemote]
    exact Nat.le_of_eq (Nat.zero_add _)
  | @requestStop run =>
    show 0 + (scheduleRemote { s with frames := s.frames.map (·.requestStop run) } _).toDo ≤ _ + 2
    rw [toDo_scheduleRemote, toDo, toDo, total_pc_map LoopPc.toDo fun f => f.requestStop_pc run]
    exact Nat.le_of_eq (Nat.zero_add _)
  | @requestStopOnLoop run =>
    have hl : (s.stopLocal run).context.localQueue
        = s.context.localQueue ++ [.stopOperation run] := rfl
    have hq : (s.stopLocal run).context.remoteQueue = s.context.remoteQueue := rfl
    have hf : (s.stopLocal run).frames = s.frames.map (·.requestStop run) := rfl
    rw [toDo, toDo, hl, hq, hf, total_pc_map LoopPc.toDo fun f => f.requestStop_pc run,
      List.length_append]
    simp only [Action.cost, Action.credit, List.length_singleton]
    omega
  | @executeStop f fs run rest hf hpc =>
    have hmoved : 1 + toDo { s with frames := f.goto (.draining rest) :: fs } ≤ s.toDo + 0 := by
      apply toDo_goto hf rfl
      simp only [hpc, LoopPc.toDo, List.length_cons]
      omega
    rw [toDo, total_pc_map LoopPc.toDo fun f => f.seeStop_pc run]
    exact hmoved
  | startOnLoop | signal | finishRpc | shutDown | destroy => exact Nat.le_of_eq (Nat.zero_add _)
  | @takeBatch f fs hf hpc =>
    apply toDo_goto hf rfl
    simp only [hpc, LoopPc.toDo, Action.cost, List.length_nil]
    omega
  | dequeueAll hf hpc hq | markInactive hf hpc hq =>
    apply toDo_goto hf rfl
    simp only [hpc, hq, LoopPc.toDo, Action.cost, AtomicQueue.items, List.length_append,
      List.length_nil, List.length_cons]
    omega
  | dispatchTag hf hpc =>
    apply toDo_goto hf rfl
    simp only [hpc, LoopPc.toDo, Action.cost, List.length_append, List.length_singleton]
    omega
  | executeSchedule hf hpc | executeRequest hf hpc =>
    apply toDo_goto hf rfl
    simp only [hpc, LoopPc.toDo, Action.cost, Action.credit, List.length_cons, rpcStarted]
    omega
  | enter hf hpc | nothingPending hf hpc | batchDone hf hpc | setValueThrows hf hpc
  | receiverReturns hf hpc | stopSeen hf hpc | stopNotSeen hf hpc | readSubmitted hf hpc
  | readNotSubmitted hf hpc | assign hf hpc | nextAlarm hf hpc | nextTag hf hpc
  | nextShutdown hf hpc | dispatchAlarm hf hpc =>
    apply toDo_goto hf rfl
    simp only [hpc, LoopPc.toDo, Action.cost, Action.credit, List.length_nil]
    omega

/-- `toDo` pays for the steps of the loop. -/
theorem toDo_pays :
    Machine.Pays contextMachine (fun _ => True) toDo Action.cost Action.credit :=
  fun _ _ _ _ _ hs => ⟨trivial, toDo_step (step_cases hs)⟩

/-- The steps of the loop in a schedule. -/
theorem total_cost (as : List Action) :
    total Action.cost as = as.count .loop + as.count .receiverReturns := by
  induction as with
  | nil => rfl
  | cons a as ih =>
    rw [total_cons, ih, List.count_cons, List.count_cons]
    cases a <;> simp [Action.cost] <;> omega

/-! ### Where the loop rests -/

/-- The loop thread, in its innermost call `f`, does not go on by itself. -/
def Rests (s : State) (f : RunFrame) : Prop :=
  match f.pc with
  -- it runs the code of a receiver, or waits in `Next`
  | .executing _ _ _ | .callNext => True
  -- it waits in `~stop_callback` for the thread that requested the stop
  | .exited _ => .stopOperation f.run ∈ s.signalling
  -- it would mark a queue inactive that is
  | .dequeueRemote => s.context.remoteQueue = .inactive
  -- it would execute the stop operation of a call that has returned
  | .draining (.stopOperation run :: _) => ∀ g ∈ s.frames, g.run ≠ run
  -- it would start an RPC on a completion queue that has drained
  | .draining (.operation id :: _) => (s.ops id).execute = some .onScheduleComplete ∧
      s.context.completionQueue.drained = true
  | _ => False

theorem exists?_eq_false {s : State} {run : ℕ} :
    s.exists? (.stopOperation run) = false ↔ ∀ g ∈ s.frames, g.run ≠ run := by
  simp [exists?]

/-- The item the loop is about to execute, of a sender. -/
theorem loopStep_operation {s : State} {f : RunFrame} {fs : List RunFrame} {id : ℕ}
    {rest : List OperationBase} (hpl : ∃ p, Placed s id p) (hf : s.frames = f :: fs)
    (hpc : f.pc = .draining (.operation id :: rest)) :
    s.loopStep f fs = none ↔ (s.ops id).execute = some .onScheduleComplete ∧
      s.context.completionQueue.drained = true := by
  obtain ⟨p, hpl⟩ := hpl
  have hphase := hpl.of_draining hf hpc
  have hd : (s.ops id).destroyed = false := by
    by_contra hne
    have hdel := hpl.destroyed (by simpa using hne)
    rcases hphase with rfl | rfl <;> simp [Phase.delivered] at hdel
  have hx := hpl.execute
  simp only [loopStep, hpc, executeItem, exists?, hd, Bool.not_false, if_true, startAsyncRpc_eq]
  rcases hphase with rfl | rfl
  · rw [Phase.execute] at hx
    simp only [hx, Option.map_eq_none_iff, true_and]
    split <;> simp_all
  · rw [Phase.execute] at hx
    simp [hx]

/-- **Where the loop rests**: in every reachable state its thread goes on by
itself but where `Rests` says. -/
theorem rests_iff {s : State} {f : RunFrame} {fs : List RunFrame}
    (hpl : ∀ id, ∃ p, Placed s id p) (hf : s.frames = f :: fs) :
    s.step .loop = none ↔ Rests s f := by
  have hstep : s.step .loop = s.loopStep f fs := by simp only [step, hf]
  rw [hstep]
  cases hpc : f.pc with
  | executing id r rest | callNext => simp [Rests, loopStep, runImplStep, hpc]
  | exited byShutdown => simp [Rests, loopStep, hpc]
  | dequeueRemote =>
    rcases hq : s.context.remoteQueue with - | ⟨- | ⟨x, xs⟩⟩ <;>
      simp [Rests, loopStep, runImplStep, hpc, GrpcContext.tryScheduleRemoteQueuedItems, hq,
        AtomicQueue.tryMarkInactiveOrDequeueAll]
  | draining pending =>
    cases pending with
    | nil => simp [Rests, loopStep, runImplStep, hpc]
    | cons item rest =>
      cases item with
      | operation id =>
        rw [loopStep_operation (hpl id) hf hpc, Rests, hpc]
      | stopOperation run =>
        simp only [Rests, hpc]
        rw [← exists?_eq_false]
        simp [loopStep, hpc, executeItem]
  | loopTop =>
    simp only [Rests, loopStep, runImplStep, hpc]
    split <;> simp
  | registered | checkStop | checkRemote | assignSubmitted | gotEvent =>
    simp [Rests, loopStep, runImplStep, hpc]

/-! ### The loop thread on its own -/

/-- What the loop thread does next, where receivers return. -/
def loopThread (s : State) : Action := if s.inReceiver then .receiverReturns else .loop

theorem cost_loopThread (s : State) : 0 < s.loopThread.cost := by
  unfold loopThread
  split <;> exact Nat.one_pos

theorem credit_loopThread (s : State) : s.loopThread.credit = 0 := by
  unfold loopThread
  split <;> rfl

/-- A running receiver can return. -/
theorem receiverReturns_isSome {s : State} (hr : s.inReceiver = true) :
    (s.step .receiverReturns).isSome = true := by
  obtain ⟨id, r, rest, hpc⟩ := inReceiver_iff.mp hr
  rcases hf : s.frames with - | ⟨f, fs⟩
  · simp [pc?, hf] at hpc
  · rw [pc?_of_frames hf, Option.some.injEq] at hpc
    simp [step, hf, hpc]

/-- Where the loop thread on its own comes to rest. -/
theorem rests_of_loopThread {s : State} (hpl : ∀ id, ∃ p, Placed s id p)
    (hnone : s.step s.loopThread = none) :
    s.inReceiver = false ∧ ∀ f fs, s.frames = f :: fs → Rests s f := by
  cases hr : s.inReceiver with
  | true =>
    have hsome := receiverReturns_isSome hr
    rw [loopThread, if_pos hr] at hnone
    simp [hnone] at hsome
  | false =>
    rw [loopThread, hr, if_neg Bool.false_ne_true] at hnone
    exact ⟨rfl, fun f fs hf => (rests_iff hpl hf).mp hnone⟩

/-- A call ends through `ShutDown` on a queue that has drained only. -/
theorem notExited_step {s s' : State} {a : Action} {e : List Observation} (hs : Step s a s' e)
    (hq : s.context.completionQueue.isShutdown = false)
    (h : ∀ f ∈ s.frames, f.pc ≠ .exited true) : ∀ f ∈ s'.frames, f.pc ≠ .exited true := by
  cases hs with
  | nextShutdown hf hpc hd =>
    obtain ⟨hshut, -⟩ := CompletionQueue.drained_iff.mp hd
    exact absurd (hq.symm.trans hshut) Bool.false_ne_true
  | start | startOnLoop | signal | finishRpc | shutDown | destroy => exact h
  | run => exact List.forall_mem_cons.mpr ⟨by simp, h⟩
  | leave hf hpc =>
    intro g hg
    exact h g (by simp [hf, hg])
  | requestStop | requestStopOnLoop =>
    intro g' hg'
    obtain ⟨g, hg, rfl⟩ := List.mem_map.mp hg'
    rw [RunFrame.requestStop_pc]
    exact h g hg
  | executeStop hf hpc =>
    intro g' hg'
    obtain ⟨g, hg, rfl⟩ := List.mem_map.mp hg'
    rw [RunFrame.seeStop_pc]
    rcases List.mem_cons.mp hg with rfl | hg
    · simp
    · exact h g (by simp [hf, hg])
  | enter hf | nothingPending hf | takeBatch hf | batchDone hf | executeSchedule hf
  | executeRequest hf | setValueThrows hf | receiverReturns hf | stopSeen hf | stopNotSeen hf
  | readSubmitted hf | readNotSubmitted hf | markInactive hf | dequeueAll hf | assign hf
  | nextAlarm hf | nextTag hf | dispatchAlarm hf | dispatchTag hf =>
    exact List.forall_mem_cons.mpr ⟨by simp, fun g hg => h g (by simp [hf, hg])⟩

/-- Without `ShutDown` no call ends through it. -/
theorem not_exited_of_not_shutDown {as : List Action} (hno : .shutDown ∉ as) {s : State}
    {h : List Observation} (hrun : contextMachine.exec as = some (s, h)) :
    ∀ f ∈ s.frames, f.pc ≠ .exited true := by
  induction as using List.reverseRecOn generalizing s h with
  | nil =>
    obtain ⟨rfl, -⟩ : contextMachine.init = s ∧ [] = h := by simpa using hrun
    exact fun f hf => absurd hf List.not_mem_nil
  | append_singleton as a ih =>
    obtain ⟨s₀, h₀, e, hl, hs, -⟩ := Machine.exec_concat.mp hrun
    have hno₀ : .shutDown ∉ as := fun hm => hno (List.mem_append_left _ hm)
    exact notExited_step (step_cases hs) (isShutdown_of_mem hl hno₀) (ih hno₀ hl)

/-- So every stop operation is accounted for. -/
theorem stopOk_of_not_shutDown {as : List Action} (hno : .shutDown ∉ as) {s : State}
    {h : List Observation} (hrun : contextMachine.exec as = some (s, h)) : StopOk s := by
  apply stopOk_of_visits _ (Machine.Visits.last hrun)
  rintro s₀ h₀ a ⟨as', hp, hrun₀, -⟩ ⟨-, f, fs, hf, hpc, -⟩
  have hno₀ : .shutDown ∉ as' :=
    fun hm => hno (hp.subset (List.mem_append_left _ hm))
  exact not_exited_of_not_shutDown hno₀ hrun₀ f (by simp [hf]) hpc

/-- What the loop thread can wait for: an event of gRPC in `Next`, or, behind
`RunImpl`, the thread that requested the stop, which has still to set the
alarm. -/
def Waits (s : State) (f : RunFrame) : Prop :=
  f.pc = .callNext ∨
    f.pc = .exited false ∧ .stopOperation f.run ∈ s.signalling ∧
      (s.step (.signal (.stopOperation f.run))).isSome = true

/-- Without `ShutDown`, once something was scheduled from outside, the loop
waits for nothing else. -/
theorem Rests.waits {as : List Action} (hno : .shutDown ∉ as) {s : State}
    {h : List Observation} (hrun : contextMachine.exec as = some (s, h))
    (hne : enqueues h ≠ []) {f : RunFrame} {fs : List RunFrame} (hf : s.frames = f :: fs)
    (hr : s.inReceiver = false) (hrests : Rests s f) : Waits s f := by
  have hdrained : s.context.completionQueue.drained = false := by
    rw [CompletionQueue.drained, isShutdown_of_mem hrun hno]
    rfl
  unfold Rests at hrests
  cases hpc : f.pc with
  | executing id r rest =>
    have hin : s.inReceiver = true :=
      inReceiver_iff.mpr ⟨id, r, rest, by rw [pc?_of_frames hf, hpc]⟩
    rw [hr] at hin
    cases hin
  | callNext => exact Or.inl hpc
  | exited byShutdown =>
    rw [hpc] at hrests
    have hby : byShutdown = false := by
      by_contra hne
      apply not_exited_of_not_shutDown hno hrun f (by simp [hf])
      rw [hpc]
      simpa using hne
    refine Or.inr ⟨by rw [hpc, hby], hrests, ?_⟩
    simp [step, hrests, GrpcContext.signalRemoteQueue, CompletionQueue.set, hdrained]
  | dequeueRemote =>
    rw [hpc] at hrests
    have hact := ((opened_of_enqueue hrun hne).queueActiveAtTest
      (handshake_of_exec hrun).2.1).call (by rw [pc?_of_frames hf, hpc])
    simp [hrests, AtomicQueue.isActive] at hact
  | draining pending =>
    cases pending with
    | nil =>
      rw [hpc] at hrests
      exact absurd hrests id
    | cons item rest =>
      cases item with
      | operation id =>
        rw [hpc] at hrests
        have hq := hrests.2
        rw [hdrained] at hq
        cases hq
      | stopOperation run =>
        rw [hpc] at hrests
        -- it is linked, and so that of an active call
        have hzero := (stopOk_of_not_shutDown hno hrun).dead run hrests
        have hmem : .stopOperation run ∈ s.batches := by
          simp [batches, hf, hpc, LoopPc.batch]
        have hpos := List.count_pos_iff.mpr hmem
        rw [linked, inLocal] at hzero
        omega
  | registered | loopTop | checkStop | checkRemote | assignSubmitted | gotEvent =>
    rw [hpc] at hrests
    exact absurd hrests id

/-- Where the loop thread on its own has come to rest, it waits. -/
theorem waits_of_rest {as : List Action} (hno : .shutDown ∉ as) {s : State}
    {h : List Observation} (hrun : contextMachine.exec as = some (s, h))
    (hne : enqueues h ≠ []) (hnone : s.step s.loopThread = none) :
    ∀ f fs, s.frames = f :: fs → Waits s f := by
  have hpl : ∀ id, ∃ p, Placed s id p := by
    intro id
    obtain ⟨p, -, hpl⟩ := placed_of_exec hrun id
    exact ⟨p, hpl⟩
  obtain ⟨hr, hrests⟩ := rests_of_loopThread hpl hnone
  intro f fs hf
  exact (hrests f fs hf).waits hno hrun hne hf hr

/-- The loop thread on its own shuts nothing down. -/
theorem shutDown_notMem_follow {as : List Action} (hno : .shutDown ∉ as) (n : ℕ) (s : State) :
    .shutDown ∉ as ++ contextMachine.follow loopThread n s := by
  intro hm
  rcases List.mem_append.mp hm with hm | hm
  · exact hno hm
  · obtain ⟨t, ht⟩ := Machine.mem_follow hm
    unfold loopThread at ht
    split at ht <;> cases ht

/-- The loop thread on its own, from a reachable state to where it waits. -/
theorem exists_waits {as : List Action} (hno : .shutDown ∉ as) {s : State}
    {h : List Observation} (hrun : contextMachine.exec as = some (s, h))
    (hne : enqueues h ≠ []) :
    ∃ s' e, contextMachine.execFrom s (contextMachine.follow loopThread s.toDo s)
        = some (s', e) ∧
      contextMachine.exec (as ++ contextMachine.follow loopThread s.toDo s)
        = some (s', h ++ e) ∧ ∀ f fs, s'.frames = f :: fs → Waits s' f := by
  obtain ⟨s', e, hfollow, hnone⟩ := toDo_pays.follow_rests cost_loopThread credit_loopThread
    trivial (Nat.le_refl s.toDo)
  have hrun' : contextMachine.exec (as ++ contextMachine.follow loopThread s.toDo s)
      = some (s', h ++ e) := Machine.execFrom_append.mpr ⟨s, h, e, hrun, hfollow, rfl⟩
  have hne' : enqueues (h ++ e) ≠ [] := by
    rw [enqueues_append]
    exact List.append_ne_nil_of_left_ne_nil hne _
  exact ⟨s', e, hfollow, hrun', waits_of_rest (shutDown_notMem_follow hno _ s) hrun' hne' hnone⟩

/-- **The loop gets to `Next`**: without `ShutDown`, once something was
scheduled from outside, a loop thread whose receivers return comes within
`toDo` steps to `Next`, out of all its `Run` calls, or to the end of a call
whose callback still runs on another thread, which can go on. -/
theorem reaches_next {as : List Action} (hno : .shutDown ∉ as) {s : State}
    {h : List Observation} (hrun : contextMachine.exec as = some (s, h))
    (hne : enqueues h ≠ []) :
    (contextMachine.follow loopThread s.toDo s).length ≤ s.toDo ∧
      ∃ s' h', contextMachine.exec (as ++ contextMachine.follow loopThread s.toDo s)
        = some (s', h') ∧ ∀ f fs, s'.frames = f :: fs → Waits s' f := by
  obtain ⟨s', e, -, hrun', hwaits⟩ := exists_waits hno hrun hne
  exact ⟨Machine.length_follow_le, s', h ++ e, hrun', hwaits⟩

/-- An operation from outside, up to the `Next` it is executed before. -/
def firstPass : List Action := List.flatten
  [[.start 0, .signal (.operation 0), .run], List.replicate 6 .loop, [.next (.alarm true)],
    List.replicate 8 .loop]

theorem reaches_next_firstPass :
    ∃ s h, contextMachine.exec firstPass = some (s, h) ∧
      (contextMachine.follow loopThread s.toDo s).length ≤ s.toDo ∧
      ∃ s' h', contextMachine.exec (firstPass ++ contextMachine.follow loopThread s.toDo s)
        = some (s', h') ∧ ∀ f fs, s'.frames = f :: fs → Waits s' f := by
  obtain ⟨s, h, hrun⟩ := contextMachine.exec_of_isSome firstPass rfl
  have hne : (contextMachine.exec firstPass).map (fun p => enqueues p.2)
      = some [.operation 0] := rfl
  rw [hrun, Option.map_some, Option.some.injEq] at hne
  exact ⟨s, h, hrun, reaches_next (by decide) hrun (by simp [hne])⟩

end State

end Agrpc
