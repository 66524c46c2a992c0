/-
Agrpc/Context/Completion.lean

That the work comes to its end.

Once nothing new is asked for, the loop thread, gRPC and the threads that owe a
`Set` can make so many steps only, in whatever order (`length_le_of_serving`).
What is left when none of them can make one?

* Without `ShutDown`, nothing, if the loop waits in `Next` with `local_queue_`
  empty: every operation has completed and every stop request was seen.  If
  `local_queue_` is not empty there, something is left (`comes_to_rest`).
* After `ShutDown` the `Run` calls have returned, or the loop is about to do what
  its libraries do not define (`shutDown_ends_runs`).
-/
import Agrpc.Context.Work
import Agrpc.Context.Shutdown

namespace Agrpc

open Interleaving

/-! ### What is done when nothing new is asked for -/

namespace Action

/-- What the loop thread does, with receivers that return and start nothing, what
gRPC does, and the `Set` calls that are owed. -/
def serving : Action → Bool
  | loop | receiverReturns | next _ | finishRpc _ _ | signal _ => true
  | _ => false

/-- gRPC finishes an operation. -/
def finishes : Action → ℕ
  | finishRpc _ _ => 1
  | _ => 0

/-- A thread calls `Set`. -/
def signals : Action → ℕ
  | signal _ => 1
  | _ => 0

/-- The steps that serve. -/
def steps (a : Action) : ℕ :=
  a.cost + (a.alarms + (a.tags + (a.shutdowns + (a.finishes + a.signals))))

/-- The steps a call can cause. -/
def effort : Action → ℕ
  | run => 17
  | start _ => 24
  | startOnLoop _ => 11
  | requestStop _ => 13
  | requestStopOnLoop _ => 2
  | _ => 0

theorem effort_eq (a : Action) :
    a.effort = a.given + 10 * (a.enqueues + (a.started?.toList.length + a.runs))
      + (a.started?.toList.length + a.enqueues) := by
  cases a <;> rfl

/-- A step that serves is one of those that are counted. -/
theorem one_le_steps {a : Action} (h : a.serving = true) : 1 ≤ a.steps := by
  cases a with
  | next r => cases r <;> exact Nat.le_refl 1
  | loop | receiverReturns | finishRpc | signal => exact Nat.le_refl 1
  | _ => cases h

theorem effort_of_serving {a : Action} (h : a.serving = true) : a.effort = 0 := by
  cases a <;> first | rfl | cases h

end Action

namespace State

/-! ### It does not go on forever -/

/-- What gRPC has finished is reported or waits to be. -/
theorem total_finishes {as : List Action} {s : State} {h : List Observation}
    (hrun : contextMachine.exec as = some (s, h)) :
    total Action.finishes as
      = (returnedIds h).length + s.context.completionQueue.events.length := by
  induction as using List.reverseRecOn generalizing s h with
  | nil =>
    cases hrun
    rfl
  | append_singleton as a ih =>
    obtain ⟨s₁, h₁, e, hl, hs, rfl⟩ := Machine.exec_concat.mp hrun
    have hst := step_cases hs
    rw [total_append, ih hl, returnedIds_append, List.length_append, returnedIds_step hst]
    cases hst with
    | finishRpc ht =>
      simp only [total_cons, total_nil, Action.finishes, Action.tags, List.length_append,
        List.length_singleton]
      omega
    | nextTag hf hpc he =>
      have hpos := List.length_pos_of_mem he
      simp only [total_cons, total_nil, Action.finishes, Action.tags,
        List.length_erase_of_mem he]
      omega
    | _ => rfl

/-- What gRPC has finished is not reported and waiting at once. -/
theorem count_finished_le {s : State} {h : List Observation} {id : ℕ} {p : Phase}
    (hp : Phase.idle.run id h = some p) (hpl : Placed s id p) :
    (returnedIds h).count id + (s.context.completionQueue.events.map Prod.fst).count id ≤ 1 := by
  rw [count_returnedIds, Phase.returns_eq hp]
  have hone := p.cameBack.toNat_le
  cases p with
  | returned =>
    -- the event is the one `Next` has returned
    have hgrpc : s.atGrpc id = 1 := hpl.places .grpc
    rw [atGrpc, hpl.inHand.mpr rfl, Option.toList_some, List.count_singleton_self] at hgrpc
    show 1 + _ ≤ 1
    omega
  | submitted =>
    have hgrpc : s.atGrpc id = 1 := hpl.places .grpc
    rw [atGrpc] at hgrpc
    show 0 + _ ≤ 1
    omega
  | _ =>
    have hgrpc : s.atGrpc id = 0 := hpl.places .grpc
    rw [atGrpc] at hgrpc
    omega

/-- What gRPC has finished was started. -/
theorem started_of_finished {s : State} {h : List Observation} {id : ℕ} {p : Phase}
    (hp : Phase.idle.run id h = some p) (hpl : Placed s id p)
    (hid : id ∈ returnedIds h ++ s.context.completionQueue.events.map Prod.fst) :
    (s.ops id).started = true := by
  rw [hpl.started]
  rcases List.mem_append.mp hid with hid | hid
  · have hpos := List.count_pos_iff.mpr hid
    rw [count_returnedIds, Phase.returns_eq hp] at hpos
    cases p <;> simp [Phase.cameBack, Phase.execute] at hpos ⊢
  · have hpos := List.count_pos_iff.mpr hid
    have hplace : p.place = some .grpc := by
      apply hpl.place_eq
      show 0 < s.atGrpc id
      unfold atGrpc
      omega
    cases p <;> simp [Phase.place, Phase.execute] at hplace ⊢

/-- gRPC finishes no operation that was not started, and none twice. -/
theorem total_finishes_le {as : List Action} {s : State} {h : List Observation}
    (hrun : contextMachine.exec as = some (s, h)) :
    total Action.finishes as ≤ (startedIds as).length := by
  have hevents : (s.context.completionQueue.events.map Prod.fst).length
      = s.context.completionQueue.events.length := List.length_map _
  rw [total_finishes hrun, ← hevents, ← List.length_append]
  apply List.Nodup.length_le_of_subset
  · apply List.nodup_iff_count_le_one.mpr
    intro id
    obtain ⟨p, hp, hpl⟩ := placed_of_exec hrun id
    rw [List.count_append]
    exact count_finished_le hp hpl
  · intro id hid
    obtain ⟨p, hp, hpl⟩ := placed_of_exec hrun id
    exact mem_startedIds hrun (started_of_finished hp hpl hid)

/-- Who calls `Set` has enqueued something. -/
theorem signals_pay :
    Machine.Pays contextMachine (fun _ => True) (fun s => s.signalling.length) Action.signals
      Action.enqueues := by
  intro s a s' e _ hs
  refine ⟨trivial, ?_⟩
  have hscheduled : ∀ (s : State) (op : OperationBase),
      0 + (s.scheduleRemote op).signalling.length ≤ s.signalling.length + 1 := by
    intro s op
    rw [scheduleRemote_signalling]
    split
    · omega
    · rw [List.length_cons]
      omega
  cases step_cases hs with
  | @start id => exact hscheduled (s.setExecute id .onScheduleComplete) (.operation id)
  | @requestStop run =>
    exact hscheduled { s with frames := s.frames.map (·.requestStop run) } (.stopOperation run)
  | @signal op hop hq =>
    have hpos := List.length_pos_of_mem hop
    simp only [Action.signals, Action.enqueues, List.length_erase_of_mem hop]
    omega
  | _ => exact Nat.le_of_eq (Nat.add_comm _ _)

theorem total_effort (as : List Action) :
    total Action.effort as = total Action.given as + 10 * (total Action.enqueues as
      + ((startedIds as).length + total Action.runs as))
      + ((startedIds as).length + total Action.enqueues as) := by
  rw [← total_started, ← total_add, ← total_add, ← total_mul, ← total_add, ← total_add,
    ← total_add]
  exact congrArg (total · as) (funext Action.effort_eq)

theorem total_steps (as : List Action) :
    total Action.steps as = total Action.cost as + (total Action.alarms as
      + (total Action.tags as + (total Action.shutdowns as
      + (total Action.finishes as + total Action.signals as)))) := by
  rw [← total_add, ← total_add, ← total_add, ← total_add, ← total_add]
  rfl

theorem total_credit (as : List Action) :
    total Action.credit as = total Action.given as
      + 9 * (total Action.alarms as + (total Action.tags as + total Action.shutdowns as)) := by
  rw [← total_add, ← total_add, ← total_mul, ← total_add]
  exact congrArg (total · as) (funext Action.credit_eq)

/-- **It does not go on forever**: steps that serve are paid for by what was asked
before. -/
theorem length_le_of_serving {as bs : List Action} {s : State} {h : List Observation}
    (hserving : ∀ a ∈ bs, a.serving = true)
    (hrun : contextMachine.exec (as ++ bs) = some (s, h)) :
    bs.length ≤ total Action.effort as := by
  obtain ⟨-, hsteps⟩ := toDo_pays.execFrom_le trivial hrun
  obtain ⟨-, halarms⟩ := alarms_pay.execFrom_le trivial hrun
  obtain ⟨-, hexits⟩ := shutdowns_pay.execFrom_le trivial hrun
  obtain ⟨-, hsets⟩ := signals_pay.execFrom_le trivial hrun
  have htags := total_tags_le hrun
  have hfinishes := total_finishes_le hrun
  have hinit : contextMachine.init.toDo = 0 ∧ contextMachine.init.wakeUps = 0 ∧
      contextMachine.init.inLoop = 0 ∧ contextMachine.init.signalling.length = 0 :=
    ⟨rfl, rfl, rfl, rfl⟩
  have heffort : total Action.effort (as ++ bs) = total Action.effort as := by
    rw [total_append, total_eq_zero fun a ha => Action.effort_of_serving (hserving a ha),
      Nat.add_zero]
  have hlength : bs.length ≤ total Action.steps bs :=
    length_le_total fun a ha => Action.one_le_steps (hserving a ha)
  have hall := total_append Action.steps as bs
  rw [total_steps (as ++ bs)] at hall
  rw [total_effort (as ++ bs)] at heffort
  rw [total_credit] at hsteps
  omega

/-! ### Without `ShutDown` -/

/-- A step that serves can be made. -/
def CanServe (s : State) : Prop := ∃ a, a.serving = true ∧ (s.step a).isSome = true

theorem serving_loopThread (s : State) : s.loopThread.serving = true := by
  unfold loopThread
  split <;> rfl

/-- Every operation that was started has completed and every stop that was
requested was seen, but for what the calls around the innermost one hold. -/
structure AllDone (s : State) : Prop where
  operations : ∀ id, (s.ops id).started = true → (s.ops id).finished = true ∨
    .operation id ∈ s.batches ∨ id ∈ s.receiving.map Prod.fst
  stops : ∀ f ∈ s.frames, f.stopRequested = true → f.shouldStop = true ∨
    .stopOperation f.run ∈ s.batches

/-- The loop waits in `Next` for an event nobody is to make. -/
structure Idle (s : State) : Prop where
  waiting : s.pc? = some .callNext
  wakeUps : s.wakeUps = 0
  tags : s.context.completionQueue.tags = []
  events : s.context.completionQueue.events = []

/-- Where no step that serves can be made and a call is active, it is idle. -/
theorem idle_of_rest {as : List Action} (hno : .shutDown ∉ as) {s : State}
    {h : List Observation} (hrun : contextMachine.exec as = some (s, h))
    (hne : enqueues h ≠ []) (hrest : ¬ CanServe s) {f : RunFrame} {fs : List RunFrame}
    (hf : s.frames = f :: fs) : Idle s := by
  have hnone : ∀ a, a.serving = true → s.step a = none := by
    intro a ha
    rcases hs : s.step a with - | p
    · rfl
    · exact absurd ⟨a, ha, by rw [hs]; rfl⟩ hrest
  have hpc : f.pc = .callNext := by
    rcases waits_of_rest hno hrun hne (hnone _ (serving_loopThread s)) f fs hf with hpc | hwait
    · exact hpc
    · -- the thread that requested the stop can go on
      exact absurd ⟨_, rfl, hwait.2.2⟩ hrest
  have hdrained : s.context.completionQueue.drained = false := by
    rw [CompletionQueue.drained, isShutdown_of_mem hrun hno]
    rfl
  have hset : s.signalling = [] := by
    rcases hsig : s.signalling with - | ⟨op, ops⟩
    · rfl
    · have hstep := hnone (.signal op) rfl
      simp [step, hsig, GrpcContext.signalRemoteQueue, CompletionQueue.set, hdrained] at hstep
  have halarms : s.context.completionQueue.alarms = 0 := by
    have hstep := hnone (.next (.alarm true)) rfl
    simpa [step, hf, hpc, runImplNext, CompletionQueue.next] using hstep
  refine ⟨by rw [pc?_of_frames hf, hpc], ?_, ?_, ?_⟩
  · rw [State.wakeUps, hset, halarms]
    rfl
  · rcases htags : s.context.completionQueue.tags with - | ⟨id, rest⟩
    · rfl
    · have hstep := hnone (.finishRpc id true) rfl
      simp [step, CompletionQueue.finish, htags] at hstep
  · rcases hevents : s.context.completionQueue.events with - | ⟨⟨id, ok⟩, rest⟩
    · rfl
    · have hstep := hnone (.next (.tag id ok)) rfl
      simp [step, hf, hpc, runImplNext, CompletionQueue.next, hevents] at hstep

/-- An operation in `local_queue_` is neither done nor held by a call. -/
theorem not_done_of_mem {s : State} {id : ℕ} (hpl : ∃ p, Placed s id p)
    (hl : .operation id ∈ s.context.localQueue) :
    (s.ops id).started = true ∧ (s.ops id).finished = false ∧ .operation id ∉ s.batches ∧
      id ∉ s.receiving.map Prod.fst := by
  obtain ⟨p, hp⟩ := hpl
  have hcount := List.count_pos_iff.mpr hl
  have hplace : p.place = some .localQueue := by
    apply hp.place_eq
    show 0 < s.inLocal (.operation id)
    unfold inLocal
    omega
  have hlocal : s.inLocal (.operation id) = 1 := by
    have hone := hp.places .localQueue
    rwa [if_pos hplace] at hone
  have hreceiver : (s.receiving.map Prod.fst).count id = 0 := by
    have hzero := hp.places .receiver
    rwa [hplace, if_neg (by decide)] at hzero
  have hfinished : (s.ops id).finished.toNat = 0 := by
    have hzero := hp.places .finished
    rwa [hplace, if_neg (by decide)] at hzero
  refine ⟨?_, by simpa using hfinished, ?_, List.count_eq_zero.mp hreceiver⟩
  · rw [hp.started]
    cases p <;> simp [Phase.place, Phase.execute] at hplace ⊢
  · apply List.count_eq_zero.mp
    unfold inLocal at hlocal
    omega

/-- A stop operation in `local_queue_` was requested and neither seen nor is it
held by a call. -/
theorem not_seen_of_mem {s : State} (hstops : StopOk s) {run : ℕ}
    (hl : .stopOperation run ∈ s.context.localQueue) :
    ∃ f ∈ s.frames, f.run = run ∧ f.stopRequested = true ∧ f.shouldStop = false ∧
      .stopOperation run ∉ s.batches := by
  have hcount := List.count_pos_iff.mpr hl
  have hlinked : s.linked run = s.inRemote (.stopOperation run)
      + (s.context.localQueue.count (.stopOperation run)
        + s.batches.count (.stopOperation run)) := rfl
  have hactive : ∃ f ∈ s.frames, f.run = run := by
    by_contra hnone
    have hdead := hstops.dead run fun f hf hrun => hnone ⟨f, hf, hrun⟩
    omega
  obtain ⟨f, hf, hrun⟩ := hactive
  have hlive := hstops.live f hf
  rw [hrun] at hlive
  have hle := Bool.toNat_le (f.stopRequested && !f.shouldStop)
  have htrue : (f.stopRequested && !f.shouldStop) = true := by
    by_contra hne
    rw [Bool.not_eq_true] at hne
    rw [hne, Bool.toNat_false] at hlive
    omega
  rw [Bool.and_eq_true, Bool.not_eq_true'] at htrue
  refine ⟨f, hf, hrun, htrue.1, htrue.2, ?_⟩
  apply List.count_eq_zero.mp
  omega

/-- With both queues empty, an operation of an idle loop is done or held. -/
theorem done_of_idle {s : State} {id : ℕ} (hpl : ∃ p, Placed s id p) (hidle : Idle s)
    (hl : s.context.localQueue = []) (hr : s.context.remoteQueue.items = [])
    (hstarted : (s.ops id).started = true) :
    (s.ops id).finished = true ∨ .operation id ∈ s.batches ∨
      id ∈ s.receiving.map Prod.fst := by
  obtain ⟨p, hp⟩ := hpl
  have hremote : s.inRemote (.operation id) = 0 := by
    rw [inRemote, hr]
    rfl
  have hgrpc : s.atGrpc id = 0 := by
    have hhand : s.tagInHand = none := by
      rw [tagInHand, hidle.waiting]
      rfl
    rw [atGrpc, hidle.tags, hidle.events, hhand]
    rfl
  have hlocal : s.inLocal (.operation id) = s.batches.count (.operation id) := by
    rw [inLocal, hl, List.count_nil, Nat.zero_add]
  rw [hp.started] at hstarted
  cases p with
  | idle => cases hstarted
  | travelling =>
    have hone : s.inRemote (.operation id) = 1 := hp.places .remoteQueue
    omega
  | submitted | returned =>
    have hone : s.atGrpc id = 1 := hp.places .grpc
    omega
  | scheduled | completed =>
    have hone : s.inLocal (.operation id) = 1 := hp.places .localQueue
    refine Or.inr (Or.inl (List.count_pos_iff.mp ?_))
    omega
  | delivering r =>
    have hone : (s.receiving.map Prod.fst).count id = 1 := hp.places .receiver
    refine Or.inr (Or.inr (List.count_pos_iff.mp ?_))
    omega
  | finished =>
    have hone : (s.ops id).finished.toNat = 1 := hp.places .finished
    exact Or.inl (by simpa using hone)

/-- With both queues empty, a stop that was requested was seen or is held. -/
theorem seen_of_empty {s : State} (hstops : StopOk s) (hl : s.context.localQueue = [])
    (hr : s.context.remoteQueue.items = []) {f : RunFrame} (hf : f ∈ s.frames)
    (hreq : f.stopRequested = true) :
    f.shouldStop = true ∨ .stopOperation f.run ∈ s.batches := by
  have hlive := hstops.live f hf
  rw [linked, inRemote, inLocal, hl, hr, List.count_nil, Nat.zero_add, Nat.zero_add, hreq,
    Bool.true_and] at hlive
  cases hstop : f.shouldStop with
  | true => exact Or.inl rfl
  | false =>
    rw [hstop] at hlive
    exact Or.inr (List.count_pos_iff.mp (hlive ▸ Nat.one_pos))

/-- Where the loop is idle, all is done exactly if `local_queue_` is empty. -/
theorem allDone_iff {as : List Action} (hno : .shutDown ∉ as) {s : State}
    {h : List Observation} (hrun : contextMachine.exec as = some (s, h)) (hidle : Idle s) :
    AllDone s ↔ s.context.localQueue = [] := by
  have hplaced : ∀ id, ∃ p, Placed s id p := by
    intro id
    obtain ⟨p, -, hp⟩ := placed_of_exec hrun id
    exact ⟨p, hp⟩
  have hstops := stopOk_of_not_shutDown hno hrun
  constructor
  · intro hdone
    apply List.eq_nil_iff_forall_not_mem.mpr
    intro op hop
    cases op with
    | operation id =>
      obtain ⟨hstarted, hfinished, hbatch, hreceiving⟩ := not_done_of_mem (hplaced id) hop
      rcases hdone.operations id hstarted with hdone | hheld | hheld
      · exact absurd (hfinished.symm.trans hdone) Bool.false_ne_true
      · exact hbatch hheld
      · exact hreceiving hheld
    | stopOperation run =>
      obtain ⟨f, hf, rfl, hreq, hstop, hbatch⟩ := not_seen_of_mem hstops hop
      rcases hdone.stops f hf hreq with hseen | hheld
      · exact absurd (hstop.symm.trans hseen) Bool.false_ne_true
      · exact hbatch hheld
  · intro hl
    have hr : s.context.remoteQueue.items = [] := by
      obtain ⟨-, hL, hH⟩ := handshake_of_exec hrun
      exact hH.remote_empty hL hidle.waiting hidle.wakeUps hl
    exact ⟨fun id => done_of_idle (hplaced id) hidle hl hr,
      fun f hf => seen_of_empty hstops hl hr hf⟩

/-- **All is done in the end, or something is left in `local_queue_`**: without
`ShutDown`, once something was scheduled from outside, the loop thread, gRPC and
the threads that owe a `Set` can make so many steps only, in whatever order, and
where none can make one, every `Run` call has returned or the loop waits in
`Next`, with everything done exactly if `local_queue_` is empty. -/
theorem comes_to_rest {as bs : List Action} (hno : .shutDown ∉ as) {s s' : State}
    {h e : List Observation} (hrun : contextMachine.exec as = some (s, h))
    (hne : enqueues h ≠ []) (hserving : ∀ a ∈ bs, a.serving = true)
    (hrest : contextMachine.execFrom s bs = some (s', e)) :
    bs.length ≤ total Action.effort as ∧
      (CanServe s' ∨ s'.frames = [] ∨
        s'.pc? = some .callNext ∧ (AllDone s' ↔ s'.context.localQueue = [])) := by
  have hrun' : contextMachine.exec (as ++ bs) = some (s', h ++ e) :=
    Machine.execFrom_append.mpr ⟨s, h, e, hrun, hrest, rfl⟩
  have hno' : .shutDown ∉ as ++ bs := by
    intro hm
    rcases List.mem_append.mp hm with hm | hm
    · exact hno hm
    · exact absurd (hserving _ hm) Bool.false_ne_true
  have hne' : enqueues (h ++ e) ≠ [] := by
    rw [enqueues_append]
    exact List.append_ne_nil_of_left_ne_nil hne _
  refine ⟨length_le_of_serving hserving hrun', ?_⟩
  rw [or_iff_not_imp_left]
  intro hstuck
  rcases hf : s'.frames with - | ⟨f, fs⟩
  · exact Or.inl rfl
  · have hidle := idle_of_rest hno' hrun' hne' hstuck hf
    exact Or.inr ⟨hidle.waiting, allDone_iff hno' hrun' hidle⟩

/-- One operation is delivered, and the loop waits for the next. -/
def delivered : List Action := List.flatten
  [[.finishRpc 0 true, .next (.tag 0 true)], List.replicate 3 .loop, [.receiverReturns],
    List.replicate 3 .loop]

theorem comes_to_rest_delivered :
    ∃ s h s' e, contextMachine.exec firstPass = some (s, h) ∧
      contextMachine.execFrom s delivered = some (s', e) ∧
      delivered.length ≤ total Action.effort firstPass ∧
      (CanServe s' ∨ s'.frames = [] ∨
        s'.pc? = some .callNext ∧ (AllDone s' ↔ s'.context.localQueue = [])) := by
  obtain ⟨s', h', hall⟩ := contextMachine.exec_of_isSome (firstPass ++ delivered)
    (by decide +kernel)
  obtain ⟨s, h, e, hrun, hrest, -⟩ := Machine.execFrom_append.mp hall
  have hne : (contextMachine.exec firstPass).map (fun p => enqueues p.2)
      = some [.operation 0] := rfl
  rw [show contextMachine.exec firstPass = some (s, h) from hrun, Option.map_some,
    Option.some.injEq] at hne
  exact ⟨s, h, s', e, hrun, hrest,
    comes_to_rest (by decide) hrun (by simp [hne]) (by decide) hrest⟩

/-! ### After `ShutDown` -/

/-- The loop is about to do what its libraries do not define. -/
def Faults (s : State) (f : RunFrame) : Prop :=
  match f.pc with
  -- mark a queue inactive that is
  | .dequeueRemote => s.context.remoteQueue = .inactive
  -- execute the stop operation of a call that has returned
  | .draining (.stopOperation run :: _) => ∀ g ∈ s.frames, g.run ≠ run
  -- start an RPC on a completion queue that has drained
  | .draining (.operation id :: _) => (s.ops id).execute = some .onScheduleComplete ∧
      s.context.completionQueue.drained = true
  | _ => False

/-- In `Next`, after `ShutDown`: gRPC has an event, or finishes an operation, or
`Next` returns false. -/
theorem canServe_of_callNext {s : State} {f : RunFrame} {fs : List RunFrame}
    (hf : s.frames = f :: fs) (hpc : f.pc = .callNext)
    (hshut : s.context.completionQueue.isShutdown = true) : CanServe s := by
  by_cases halarms : 0 < s.context.completionQueue.alarms
  · refine ⟨.next (.alarm true), rfl, ?_⟩
    simp [step, hf, hpc, runImplNext, CompletionQueue.next, halarms]
  rcases hevents : s.context.completionQueue.events with - | ⟨⟨id, ok⟩, rest⟩
  · rcases htags : s.context.completionQueue.tags with - | ⟨id, rest⟩
    · refine ⟨.next .shutdown, rfl, ?_⟩
      have hdrained : s.context.completionQueue.drained = true :=
        CompletionQueue.drained_iff.mpr ⟨hshut, Nat.eq_zero_of_not_pos halarms, htags, hevents⟩
      simp [step, hf, hpc, runImplNext, CompletionQueue.next, hdrained]
    · refine ⟨.finishRpc id true, rfl, ?_⟩
      simp [step, CompletionQueue.finish, htags]
  · refine ⟨.next (.tag id ok), rfl, ?_⟩
    simp [step, hf, hpc, runImplNext, CompletionQueue.next, hevents]

/-- **As long as a call is active**, the loop thread or gRPC can go on, if the
loop does not fault. -/
theorem canServe_of_active {s : State} {f : RunFrame} {fs : List RunFrame}
    (hpl : ∀ id, ∃ p, Placed s id p) (hshut : s.context.completionQueue.isShutdown = true)
    (hsig : s.signalling = []) (hf : s.frames = f :: fs) : CanServe s ∨ Faults s f := by
  rcases hstep : s.step s.loopThread with - | p
  · -- the loop thread rests
    obtain ⟨hr, hrests⟩ := rests_of_loopThread hpl hstep
    have hrest := hrests f fs hf
    unfold Rests at hrest
    cases hpc : f.pc with
    | callNext => exact Or.inl (canServe_of_callNext hf hpc hshut)
    | executing id r rest =>
      have hin : s.inReceiver = true :=
        inReceiver_iff.mpr ⟨id, r, rest, by rw [pc?_of_frames hf, hpc]⟩
      exact absurd (hr.symm.trans hin) Bool.false_ne_true
    | exited byShutdown =>
      -- no callback is running any more
      rw [hpc, hsig] at hrest
      exact absurd hrest List.not_mem_nil
    | draining pending =>
      right
      unfold Faults
      rw [hpc] at hrest ⊢
      cases pending with
      | nil => exact hrest
      | cons item rest => cases item <;> exact hrest
    | dequeueRemote | registered | loopTop | checkStop | checkRemote | assignSubmitted submitted
    | gotEvent =>
      right
      unfold Faults
      rw [hpc] at hrest ⊢
      exact hrest
  · exact Or.inl ⟨s.loopThread, serving_loopThread s, by rw [hstep]; rfl⟩

/-- What serves owes no `Set` and does not take `ShutDown` back. -/
theorem shutDown_kept {s s' : State} {a : Action} {e : List Observation}
    (hserving : a.serving = true)
    (hkept : s.context.completionQueue.isShutdown = true ∧ s.signalling = [])
    (hs : Step s a s' e) :
    s'.context.completionQueue.isShutdown = true ∧ s'.signalling = [] := by
  cases hs with
  | run | setValueThrows | start | startOnLoop | requestStop | requestStopOnLoop | shutDown
  | destroy => cases hserving
  | signal hop =>
    rw [hkept.2] at hop
    exact absurd hop List.not_mem_nil
  | _ => exact hkept

/-- **`ShutDown` ends the `Run` calls**: if every `ScheduleRemote` call returned
before it and nothing is begun after it, then the loop thread and gRPC can make
so many steps only, in whatever order, and whenever neither can make one, every
`Run` call has returned or the innermost is about to do what its libraries do not
define. -/
theorem shutDown_ends_runs {as bs : List Action} (hpre : SchedulesBeforeShutDown as)
    {s s' : State} {h e : List Observation} (hrun : contextMachine.exec as = some (s, h))
    (hshut : s.context.completionQueue.isShutdown = true)
    (hserving : ∀ a ∈ bs, a.serving = true)
    (hrest : contextMachine.execFrom s bs = some (s', e)) :
    bs.length ≤ total Action.effort as ∧
      (s'.frames = [] ∨ CanServe s' ∨ ∃ f fs, s'.frames = f :: fs ∧ Faults s' f) := by
  have hrun' : contextMachine.exec (as ++ bs) = some (s', h ++ e) :=
    Machine.execFrom_append.mpr ⟨s, h, e, hrun, hrest, rfl⟩
  refine ⟨length_le_of_serving hserving hrun', ?_⟩
  have hkept : s'.context.completionQueue.isShutdown = true ∧ s'.signalling = [] := by
    have hsig := signalling_of_isShutdown hpre (Machine.Visits.last hrun) hshut
    clear hrun'
    -- by induction on the steps made since, from the last one
    induction bs using List.reverseRecOn generalizing s' e with
    | nil =>
      cases hrest
      exact ⟨hshut, hsig⟩
    | append_singleton bs a ih =>
      obtain ⟨s₁, h₁, e₁, hl, hs, -⟩ := Machine.execFrom_concat.mp hrest
      have hbefore := ih (fun b hb => hserving b (List.mem_append_left _ hb)) hl
      exact shutDown_kept (hserving a (List.mem_append_right _ (List.mem_singleton_self a)))
        hbefore (step_cases hs)
  have hpl : ∀ id, ∃ p, Placed s' id p := by
    intro id
    obtain ⟨p, -, hp⟩ := placed_of_exec hrun' id
    exact ⟨p, hp⟩
  rcases hf : s'.frames with - | ⟨f, fs⟩
  · exact Or.inl rfl
  · right
    rcases canServe_of_active hpl hkept.1 hkept.2 hf with hserve | hfaults
    · exact Or.inl hserve
    · exact Or.inr ⟨f, fs, rfl, hfaults⟩

/-- The operation is delivered after `ShutDown`, and `Run` returns. -/
def runReturns : List Action := delivered ++ [.next .shutdown, .loop]

theorem shutDown_ends_runs_runReturns :
    ∃ s h s' e, contextMachine.exec (firstPass ++ [.shutDown]) = some (s, h) ∧
      contextMachine.execFrom s runReturns = some (s', e) ∧
      runReturns.length ≤ total Action.effort (firstPass ++ [.shutDown]) ∧
      (s'.frames = [] ∨ CanServe s' ∨ ∃ f fs, s'.frames = f :: fs ∧ Faults s' f) := by
  obtain ⟨s', h', hall⟩ := contextMachine.exec_of_isSome
    ((firstPass ++ [.shutDown]) ++ runReturns) (by decide +kernel)
  obtain ⟨s, h, e, hrun, hrest, -⟩ := Machine.execFrom_append.mp hall
  obtain ⟨s₁, h₁, hrun₁, hshut⟩ := contextMachine.exec_of_test (firstPass ++ [.shutDown])
    (·.context.completionQueue.isShutdown) (by decide +kernel)
  obtain ⟨rfl, rfl⟩ := Prod.mk.inj (Option.some.inj (hrun₁.symm.trans hrun))
  exact ⟨s₁, h₁, s', e, hrun, hrest, shutDown_ends_runs
    (fun s h a ht => Machine.check_takes (P := schedulesInTime) (by decide +kernel) ht)
    hrun hshut (by decide) hrest⟩

end State

end Agrpc
