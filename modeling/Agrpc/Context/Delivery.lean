/-
Agrpc/Context/Delivery.lean

Each receiver gets its own RPC's result.

`OnRequestComplete` does not find the result in the operation: it reads
`event_.ok` of the context, which every `Next` overwrites.  What makes this
right is that at most one completion is undelivered at any time and that it is
executed in the pass in which it arrived: from the moment it is scheduled until
it is executed the loop is at the top of a pass or draining the batch that holds
it.  It is the last of that batch, so its receiver may even call `Run` again:
no call around another one has work left in a batch (`batches_eq`).
-/
import Agrpc.Context.Places

namespace Agrpc

open Interleaving

/-- `Run` is only called on a context no loop of which is active. -/
def NoReentry (as : List Action) : Prop :=
  ∀ s h, contextMachine.Takes as s h .run → s.frames = []

/-- The condition, computed. -/
def runsOnIdle (s : State) (a : Action) : Bool := a != .run || s.frames.isEmpty

theorem noReentry_of_check {as : List Action}
    (hc : contextMachine.checkFrom runsOnIdle contextMachine.init as = true) : NoReentry as := by
  intro s h ht
  have := Machine.check_takes hc ht
  simpa [runsOnIdle] using this

namespace State

/-- The completions that are linked and not executed yet. -/
def undelivered (s : State) : List ℕ :=
  (s.context.localQueue ++ s.batches).filterMap fun
    | .operation id => if (s.ops id).execute = some .onRequestComplete then some id else none
    | .stopOperation _ => none

/-- Only the dispatch of its tag makes an operation `completed`. -/
theorem completed_of_run {id : ℕ} {e : List Observation} {p : Phase}
    (hno : .arrived .completion (.operation id) ∉ e) (hc : p.run id e = some .completed) :
    p = .completed := by
  induction e generalizing p with
  | nil => simpa using hc
  | cons o e ih =>
    rw [Phase.run_cons] at hc
    obtain ⟨q, hq, hlast⟩ := Option.bind_eq_some_iff.mp hc
    obtain rfl : q = .completed := ih (fun hm => hno (List.mem_cons_of_mem _ hm)) hlast
    rcases Phase.next_cases hq with ⟨-, hstay⟩ | he
    · exact hstay.symm
    · cases he with
      | arrived => exact absurd List.mem_cons_self hno
      | executedAgain => rfl

theorem completed_of_append {id : ℕ} {h e : List Observation}
    (hno : .arrived .completion (.operation id) ∉ e)
    (hc : Phase.idle.run id (h ++ e) = some .completed) :
    Phase.idle.run id h = some .completed := by
  rw [Phase.run_append] at hc
  obtain ⟨p, hp, hlast⟩ := Option.bind_eq_some_iff.mp hc
  rw [hp, completed_of_run hno hlast]

/-- An operation that is executed as a completion is `completed`. -/
theorem completed_of_draining {s : State} {h : List Observation} {id : ℕ}
    (hpl : ∃ p, Phase.idle.run id h = some p ∧ Placed s id p) {f : RunFrame}
    {fs : List RunFrame} {rest : List OperationBase} (hf : s.frames = f :: fs)
    (hpc : f.pc = .draining (.operation id :: rest))
    (hx : (s.ops id).execute = some .onRequestComplete) :
    Phase.idle.run id h = some .completed := by
  obtain ⟨p, hp, hpl⟩ := hpl
  rcases hpl.of_draining hf hpc with rfl | rfl
  · exact absurd (hpl.execute.symm.trans hx) (by simp [Phase.execute])
  · exact hp

/-- Operation `id` is the last that the loop will execute: at the top of a pass it
is the last in `local_queue_`, then in the batch. -/
def aboutToDeliver (s : State) (id : ℕ) : Prop :=
  s.pc? = some .loopTop ∧ s.context.localQueue.getLast? = some (.operation id) ∨
    ∃ pending, s.pc? = some (.draining pending) ∧ pending.getLast? = some (.operation id)

/-- A completion is the last in its batch. -/
theorem rest_eq_nil {s : State} {id : ℕ} {p : Phase} (hpl : Placed s id p) {f : RunFrame}
    {fs : List RunFrame} {rest : List OperationBase} (hf : s.frames = f :: fs)
    (hpc : f.pc = .draining (.operation id :: rest)) (hat : s.aboutToDeliver id) : rest = [] := by
  have hlast : (OperationBase.operation id :: rest).getLast? = some (.operation id) := by
    rcases hat with ⟨hpc', -⟩ | ⟨pending, hpc', hlast⟩
    · rw [pc?_of_frames hf, hpc] at hpc'
      simp at hpc'
    · rw [pc?_of_frames hf, hpc, Option.some.injEq, LoopPc.draining.injEq] at hpc'
      rw [hpc']
      exact hlast
  rcases List.eq_nil_or_concat' rest with rfl | ⟨init, op, rfl⟩
  · rfl
  · -- else it would be in the batch twice
    exfalso
    rw [← List.cons_append, List.getLast?_concat, Option.some.injEq] at hlast
    have htwice : 2 ≤ s.timesAt id .localQueue := by
      simp only [timesAt, inLocal, batches, hf, hpc, LoopPc.batch, List.flatMap_cons, hlast,
        List.cons_append, List.count_cons_self, List.count_append]
      omega
    have hone : s.timesAt id .localQueue ≤ 1 := by
      rw [hpl.places]
      split <;> omega
    omega

/-- Every receiver that runs, or waits for a `Run` call it made, was called by
the last operation of its batch. -/
def ReceiversLast (s : State) : Prop :=
  ∀ f ∈ s.frames, ∀ id r rest, f.pc = .executing id r rest → rest = []

theorem ReceiversLast.goto {s s' : State} (h : ReceiversLast s) {f : RunFrame}
    {fs : List RunFrame} {pc : LoopPc} (hf : s.frames = f :: fs)
    (hf' : s'.frames = f.goto pc :: fs)
    (hpc : ∀ id r rest, pc = .executing id r rest → rest = []) : ReceiversLast s' := by
  intro g hg
  rw [hf', List.mem_cons] at hg
  rcases hg with rfl | hg
  · exact hpc
  · exact h g (hf ▸ List.mem_cons_of_mem f hg)

theorem ReceiversLast.map {s s' : State} (h : ReceiversLast s) {g : RunFrame → RunFrame}
    (hpc : ∀ f, (g f).pc = f.pc) (hf : s'.frames = s.frames.map g) : ReceiversLast s' := by
  intro f hm
  rw [hf, List.mem_map] at hm
  obtain ⟨f₀, hm, rfl⟩ := hm
  rw [hpc]
  exact h f₀ hm

/-- What holds of `event_` between a `Next` and the delivery of its result. -/
structure EventKept (s : State) (h : List Observation) : Prop where
  receiversLast : ReceiversLast s
  noted : ∀ id, s.context.event.tag = some id →
    .nextReturned (some id) s.context.event.ok ∈ h
  kept : ∀ id, Phase.idle.run id h = some .completed →
    s.context.event.tag = some id ∧ s.aboutToDeliver id
  values : ∀ id ok, .setValue id ok ∈ h → .nextReturned (some id) ok ∈ h

theorem eventKept_init : EventKept {} [] :=
  ⟨by simp [ReceiversLast], by simp, fun id hc => by simp at hc, by simp⟩

/-- A step that leaves `event_` alone, dispatches no tag and delivers nothing. -/
theorem EventKept.congr {s s' : State} {h e : List Observation} (hk : EventKept s h)
    (hlast : ReceiversLast s') (hev : s'.context.event = s.context.event)
    (hno : ∀ id, .arrived .completion (.operation id) ∉ e)
    (hval : ∀ id ok, .setValue id ok ∉ e)
    (hplace : ∀ id, Phase.idle.run id (h ++ e) = some .completed →
      s.aboutToDeliver id → s'.aboutToDeliver id) : EventKept s' (h ++ e) where
  receiversLast := hlast
  noted id ht := by
    rw [hev] at ht ⊢
    exact List.mem_append_left _ (hk.noted id ht)
  kept id hc := by
    obtain ⟨ht, hat⟩ := hk.kept id (completed_of_append (hno id) hc)
    exact ⟨by rw [hev]; exact ht, hplace id hc hat⟩
  values id ok hm := by
    rcases List.mem_append.mp hm with hm | hm
    · exact List.mem_append_left _ (hk.values id ok hm)
    · exact absurd hm (hval id ok)

/-- A step of another party, which may put a stop operation into `local_queue_`
while a receiver runs or a `Run` call registers its callback. -/
theorem EventKept.other {s s' : State} {h e : List Observation} (hk : EventKept s h)
    (hlast : ReceiversLast s') (hev : s'.context.event = s.context.event)
    (hpc : s'.pc? = s.pc?)
    (hq : s'.pc? = some .loopTop → s'.context.localQueue = s.context.localQueue)
    (hno : ∀ id, .arrived .completion (.operation id) ∉ e)
    (hval : ∀ id ok, .setValue id ok ∉ e) : EventKept s' (h ++ e) := by
  refine hk.congr hlast hev hno hval fun id _ hat => ?_
  rcases hat with ⟨htop, hlast⟩ | ⟨pending, hdrain, hlast⟩
  · have htop' := hpc.trans htop
    exact Or.inl ⟨htop', by rw [hq htop']; exact hlast⟩
  · exact Or.inr ⟨pending, hpc.trans hdrain, hlast⟩

/-- Nothing arrives in `local_queue_` at the top of a pass. -/
theorem not_onLoop_of_loopTop {s : State} (hpc : s.pc? = some .loopTop) (run : ℕ) :
    s.inReceiver = false ∧ s.inNestedRun run = false := by
  refine ⟨by simp [inReceiver, hpc], ?_⟩
  rcases hf : s.frames with - | ⟨f, - | ⟨g, fs⟩⟩
  · simp [inNestedRun, hf]
  · simp [inNestedRun, hf]
  · rw [pc?_of_frames hf, Option.some.injEq] at hpc
    simp [inNestedRun, hf, hpc]

theorem EventKept.step {s s' : State} {a : Action} {h e : List Observation}
    (hpl : ∀ id, ∃ p, Phase.idle.run id h = some p ∧ Placed s id p)
    (hk : EventKept s h) (hs : Step s a s' e) : EventKept s' (h ++ e) := by
  have hgoto : ∀ (f : RunFrame) (fs : List RunFrame) (pc : LoopPc), s.frames = f :: fs →
      s'.frames = f.goto pc :: fs → (∀ id r rest, pc = .executing id r rest → rest = []) →
      ReceiversLast s' := fun f fs pc => hk.receiversLast.goto
  cases hs with
  | run hr =>
    -- `Run` is called where no completion is undelivered
    refine hk.congr ?_ rfl (by simp) (by simp) fun id _ hat => ?_
    · intro f hm
      rcases List.mem_cons.mp hm with rfl | hm
      · simp
      · exact hk.receiversLast f hm
    · rcases hr with hr | hr
      · simp [aboutToDeliver, pc?, hr] at hat
      · obtain ⟨k, r, rest, hpc⟩ := inReceiver_iff.mp hr
        simp [aboutToDeliver, hpc] at hat
  | @leave f fs b hf hpc =>
    refine hk.congr ?_ rfl (by simp) (by simp) fun id _ hat => ?_
    · exact fun g hg => hk.receiversLast g (hf ▸ List.mem_cons_of_mem f hg)
    · simp [aboutToDeliver, pc?, hf, hpc] at hat
  -- the loop is at no point at which a completion is undelivered
  | enter hf hpc | stopSeen hf hpc | stopNotSeen hf hpc | readSubmitted hf hpc
  | readNotSubmitted hf hpc | markInactive hf hpc | assign hf hpc | nextShutdown hf hpc
  | dispatchAlarm hf hpc | dequeueAll hf hpc | batchDone hf hpc | receiverReturns hf hpc =>
    refine hk.congr (hgoto _ _ _ hf rfl (by simp)) rfl (by simp) (by simp) fun id _ hat => ?_
    simp [aboutToDeliver, pc?, hf, hpc] at hat
  | @setValueThrows f fs k ok rest hf hpc =>
    have hrest : rest = [] := hk.receiversLast f (hf ▸ List.mem_cons_self) _ _ _ hpc
    refine hk.congr (hgoto _ _ _ hf rfl (by simp [hrest])) rfl (by simp) (by simp)
      fun id _ hat => ?_
    simp [aboutToDeliver, pc?, hf, hpc] at hat
  | @nothingPending f fs hf hpc hl =>
    refine hk.congr (hgoto _ _ _ hf rfl (by simp)) rfl (by simp) (by simp) fun id _ hat => ?_
    simp [aboutToDeliver, pc?, hf, hpc, hl] at hat
  | @takeBatch f fs hf hpc hl =>
    refine hk.congr (hgoto _ _ _ hf rfl (by simp)) rfl (by simp) (by simp) fun id _ hat => ?_
    have hlast : s.context.localQueue.getLast? = some (.operation id) := by
      simpa [aboutToDeliver, pc?, hf, hpc] using hat
    exact Or.inr ⟨_, rfl, hlast⟩
  | @executeStop f fs run rest hf hpc hx =>
    have hlast : ReceiversLast { s with frames := f.goto (.draining rest) :: fs } :=
      hk.receiversLast.goto hf rfl (by simp)
    refine hk.congr (hlast.map (fun f => f.seeStop_pc run) rfl) rfl (by simp) (by simp)
      fun id _ hat => ?_
    have hlast : (OperationBase.stopOperation run :: rest).getLast? = some (.operation id) := by
      simpa [aboutToDeliver, pc?, hf, hpc] using hat
    refine Or.inr ⟨rest, by simp [pc?], ?_⟩
    rcases rest with - | ⟨op, rest⟩
    · simp at hlast
    · rwa [List.getLast?_cons_cons] at hlast
  | @executeSchedule f fs k rest hf hpc hd hx hq =>
    refine hk.congr (hgoto _ _ _ hf rfl (by simp)) rfl (by simp) (by simp) fun id hc hat => ?_
    have hlast : (OperationBase.operation k :: rest).getLast? = some (.operation id) := by
      simpa [aboutToDeliver, pc?, hf, hpc] using hat
    refine Or.inr ⟨rest, rfl, ?_⟩
    rcases rest with - | ⟨op, rest⟩
    · -- the operation itself has just been handed to gRPC
      obtain rfl : k = id := by simpa using hlast
      obtain ⟨p, hp, hpl⟩ := hpl k
      have hcomp := completed_of_append (by simp) hc
      obtain rfl : p = .completed := Option.some.inj (hp.symm.trans hcomp)
      exact absurd (hpl.execute.symm.trans hx) (by simp [Phase.execute])
    · rwa [List.getLast?_cons_cons] at hlast
  | @executeRequest f fs k rest hf hpc hd hx =>
    have hck := completed_of_draining (hpl k) hf hpc hx
    obtain ⟨htag, hat⟩ := hk.kept k hck
    obtain ⟨p, -, hpk⟩ := hpl k
    have hrest := rest_eq_nil hpk hf hpc hat
    refine ⟨hgoto _ _ _ hf rfl (by simp [hrest]), fun id ht => ?_, fun id hc => ?_,
      fun id ok hm => ?_⟩
    · exact List.mem_append_left _ (hk.noted id ht)
    · -- the one undelivered completion is the one that is executed
      obtain ⟨ht, -⟩ := hk.kept id (completed_of_append (by simp) hc)
      obtain rfl : id = k := Option.some.inj (ht.symm.trans htag)
      rw [Phase.run_append, hck] at hc
      simp [Phase.next, Observation.concerns, Phase.follow] at hc
    · rcases List.mem_append.mp hm with hm | hm
      · exact List.mem_append_left _ (hk.values id ok hm)
      · obtain ⟨rfl, rfl⟩ : id = k ∧ ok = s.context.event.ok := by simpa using hm
        exact List.mem_append_left _ (hk.noted id htag)
  | @nextAlarm f fs ok hf hpc ha =>
    refine ⟨hgoto _ _ _ hf rfl (by simp), fun id ht => by simp at ht, fun id hc => ?_,
      fun id ok hm => ?_⟩
    · obtain ⟨-, hat⟩ := hk.kept id (completed_of_append (by simp) hc)
      simp [aboutToDeliver, pc?, hf, hpc] at hat
    · exact List.mem_append_left _ (hk.values id ok (by simpa using hm))
  | @nextTag f fs k ok hf hpc he =>
    refine ⟨hgoto _ _ _ hf rfl (by simp), fun id ht => ?_, fun id hc => ?_, fun id ok hm => ?_⟩
    · obtain rfl : k = id := by simpa using ht
      simp
    · obtain ⟨-, hat⟩ := hk.kept id (completed_of_append (by simp) hc)
      simp [aboutToDeliver, pc?, hf, hpc] at hat
    · exact List.mem_append_left _ (hk.values id ok (by simpa using hm))
  | @dispatchTag f fs k hf hpc ht =>
    refine ⟨hgoto _ _ _ hf rfl (by simp), fun id ht => ?_, fun id hc => ?_, fun id ok hm => ?_⟩
    · exact List.mem_append_left _ (hk.noted id ht)
    · by_cases hid : k = id
      · subst hid
        exact ⟨ht, Or.inl ⟨rfl, List.getLast?_concat⟩⟩
      · have hne : id ≠ k := fun heq => hid heq.symm
        obtain ⟨-, hat⟩ := hk.kept id (completed_of_append (by simpa using hne) hc)
        simp [aboutToDeliver, pc?, hf, hpc] at hat
    · exact List.mem_append_left _ (hk.values id ok (by simpa using hm))
  | @requestStop run =>
    have hsame : (s.stopRemote run).pc? = s.pc? := pc?_map (fun f => f.requestStop_pc _) rfl
    exact hk.other (hk.receiversLast.map (fun f => f.requestStop_pc run) rfl) rfl hsame
      (fun _ => rfl) (by simp) (by simp)
  | @requestStopOnLoop run hst hr =>
    have hsame : (s.stopLocal run).pc? = s.pc? := pc?_map (fun f => f.requestStop_pc _) rfl
    refine hk.other (hk.receiversLast.map (fun f => f.requestStop_pc run) rfl) rfl hsame
      (fun htop => ?_) (by simp) (by simp)
    obtain ⟨h₁, h₂⟩ := not_onLoop_of_loopTop (hsame ▸ htop) run
    simp [h₁, h₂] at hr
  | start | startOnLoop | signal | finishRpc | shutDown | destroy =>
    exact hk.other hk.receiversLast rfl rfl (fun _ => rfl) (by simp) (by simp)

/-! ### Whole runs -/

/-- The invariant of every run, `Run` calls from receivers included. -/
theorem eventKept_of_exec {as : List Action} {s : State} {h : List Observation}
    (hrun : contextMachine.exec as = some (s, h)) : EventKept s h := by
  refine (Machine.exec_induction
    (I := fun s h => (FramesOk s ∧ ∀ id, ∃ p, Phase.idle.run id h = some p ∧ Placed s id p) ∧
      EventKept s h)
    ⟨⟨framesOk_init, fun id => ⟨.idle, rfl, placed_init id⟩⟩, eventKept_init⟩ ?_ hrun).2
  rintro s h a s' e ⟨⟨hF, hpl⟩, hk⟩ hs
  have hst := step_cases hs
  refine ⟨⟨hF.step hst, fun id => ?_⟩, hk.step hpl hst⟩
  obtain ⟨p, hp, hplaced⟩ := hpl id
  obtain ⟨p', hp', hplaced'⟩ := hplaced.step hF hst
  refine ⟨p', ?_, hplaced'⟩
  rw [Phase.run_append, hp]
  exact hp'

/-- The batch of the innermost call is the only one there is: the calls around it
wait for receivers, which were the last of their batches. -/
theorem batches_eq {as : List Action} {s : State} {h : List Observation}
    (hrun : contextMachine.exec as = some (s, h)) {f : RunFrame} {fs : List RunFrame}
    (hf : s.frames = f :: fs) : s.batches = f.pc.batch := by
  have hF := framesOk_of_exec hrun
  have hlast := (eventKept_of_exec hrun).receiversLast
  rw [batches, hf, List.flatMap_cons]
  apply List.append_right_eq_self.mpr
  rw [List.flatMap_eq_nil_iff]
  intro g hg
  obtain ⟨id, r, rest, hpc⟩ := hF.suspended g (by rw [hf]; exact hg)
  rw [hpc, LoopPc.batch]
  exact hlast g (hf ▸ List.mem_cons_of_mem f hg) id r rest hpc

/-- If `Run` is not called from a receiver, one call is active at a time. -/
theorem frames_single_of_visits {as : List Action} (hno : NoReentry as) {s : State}
    {h : List Observation} (hv : contextMachine.Visits as s h) : s.frames.tail = [] := by
  refine Machine.visits_induction (I := fun s _ => s.frames.tail = [])
    (P := fun s _ a => a = .run → s.frames = []) rfl ?_ ?_ hv
  · intro s h a s' e htail hP hs
    by_cases ha : a = .run
    · subst ha
      have hst : Step s .run s' e := step_cases hs
      cases hst with
      | run => exact hP rfl
    · apply List.eq_nil_iff_forall_not_mem.mpr
      intro g hg
      obtain ⟨g₀, hg₀, -⟩ := tail_of_step (step_cases hs) ha hg
      rw [htail] at hg₀
      exact absurd hg₀ List.not_mem_nil
  · intro s h a ht ha
    subst ha
    exact hno s h ht

theorem mem_undelivered {s : State} {id : ℕ} (hm : id ∈ s.undelivered) :
    .operation id ∈ s.context.localQueue ++ s.batches ∧
      (s.ops id).execute = some .onRequestComplete := by
  obtain ⟨op, hop, heq⟩ := List.mem_filterMap.mp hm
  cases op with
  | stopOperation run => simp at heq
  | operation k =>
    simp only [Option.ite_none_right_eq_some, Option.some.injEq] at heq
    obtain ⟨hx, rfl⟩ := heq
    exact ⟨hop, hx⟩

/-- A linked completion is that of an operation in phase `completed`. -/
theorem completed_of_undelivered {s : State} {h : List Observation} {id : ℕ}
    (hpl : ∃ p, Phase.idle.run id h = some p ∧ Placed s id p) (hm : id ∈ s.undelivered) :
    Phase.idle.run id h = some .completed := by
  obtain ⟨hmem, hx⟩ := mem_undelivered hm
  obtain ⟨p, hp, hpl⟩ := hpl
  have hplace : p.place = some .localQueue := by
    refine hpl.place_eq ?_
    rw [timesAt, inLocal, ← List.count_append]
    exact List.count_pos_iff.mpr hmem
  have hexec := hpl.execute.symm.trans hx
  cases p <;> simp [Phase.place, Phase.execute] at hplace hexec
  exact hp

theorem count_undelivered_le (s : State) (id : ℕ) :
    s.undelivered.count id ≤ s.timesAt id .localQueue := by
  rw [timesAt, inLocal, ← List.count_append, undelivered]
  generalize s.context.localQueue ++ s.batches = ops
  induction ops with
  | nil => simp
  | cons op ops ih =>
    rw [List.filterMap_cons, List.count_cons]
    cases op with
    | stopOperation run => simpa using ih
    | operation k =>
      by_cases hx : (s.ops k).execute = some .onRequestComplete
      · simp only [hx, if_true, List.count_cons, beq_iff_eq, OperationBase.operation.injEq]
        omega
      · simp only [hx, if_false]
        omega

/-- All undelivered completions have the tag in `event_`, so there is at most one. -/
theorem undelivered_length_le {s : State} {h : List Observation} (hk : EventKept s h)
    (hpl : ∀ id, ∃ p, Phase.idle.run id h = some p ∧ Placed s id p) :
    s.undelivered.length ≤ 1 := by
  have htag : ∀ id ∈ s.undelivered, s.context.event.tag = some id := fun id hm =>
    (hk.kept id (completed_of_undelivered (hpl id) hm)).1
  rcases hu : s.undelivered with - | ⟨id, rest⟩
  · exact Nat.zero_le _
  · have hall : ∀ k ∈ s.undelivered, id = k := by
      intro k hm
      have hid := htag id (by simp [hu])
      exact Option.some.inj (hid.symm.trans (htag k hm))
    obtain ⟨p, -, hplaced⟩ := hpl id
    calc (id :: rest).length = s.undelivered.count id := by
          rw [List.count_eq_length.mpr hall, hu]
      _ ≤ s.timesAt id .localQueue := count_undelivered_le s id
      _ ≤ 1 := by
          rw [hplaced.places]
          split <;> omega

/-- **Each receiver gets its own RPC's result.**  In every state of every run,
whether or not `Run` is called again from a receiver: a delivered value is the
one `Next` reported with the operation's own tag, at most one linked completion
is undelivered, and `event_` still holds its result. -/
theorem delivers_own_result {as : List Action} {s : State} {h : List Observation}
    (hrun : contextMachine.exec as = some (s, h)) :
    (∀ id ok, .setValue id ok ∈ h → ∀ ok', .nextReturned (some id) ok' ∈ h ↔ ok' = ok) ∧
      s.undelivered.length ≤ 1 ∧
      ∀ id ∈ s.undelivered, s.context.event.tag = some id ∧
        .nextReturned (some id) s.context.event.ok ∈ h := by
  have hk := eventKept_of_exec hrun
  have hpl := placed_of_exec hrun
  refine ⟨fun id ok hm ok' => ⟨fun hm' => ?_, ?_⟩, ?_, fun id hm => ?_⟩
  · obtain ⟨p, hp, -⟩ := hpl id
    exact Phase.returned_unique hp (hk.values id ok hm) hm'
  · rintro rfl
    exact hk.values id ok' hm
  · exact undelivered_length_le hk hpl
  · obtain ⟨ht, -⟩ := hk.kept id (completed_of_undelivered (hpl id) hm)
    exact ⟨ht, hk.noted id ht⟩

/-- One RPC, started from outside and failed by gRPC, with an alarm in between. -/
theorem delivers_own_result_example :
    ∃ s h, contextMachine.exec
        [.start 0, .signal (.operation 0), .run, .loop, .loop, .loop, .loop, .loop, .loop,
          .next (.alarm true), .loop, .loop, .loop, .loop, .loop, .loop, .loop, .loop,
          .finishRpc 0 false, .next (.tag 0 false), .loop, .loop, .loop] = some (s, h) ∧
      (∀ id ok, .setValue id ok ∈ h → ∀ ok', .nextReturned (some id) ok' ∈ h ↔ ok' = ok) ∧
      s.undelivered.length ≤ 1 ∧
      ∀ id ∈ s.undelivered, s.context.event.tag = some id ∧
        .nextReturned (some id) s.context.event.ok ∈ h := by
  obtain ⟨s, h, hrun⟩ := contextMachine.exec_of_isSome
    [.start 0, .signal (.operation 0), .run, .loop, .loop, .loop, .loop, .loop, .loop,
      .next (.alarm true), .loop, .loop, .loop, .loop, .loop, .loop, .loop, .loop,
      .finishRpc 0 false, .next (.tag 0 false), .loop, .loop, .loop] rfl
  exact ⟨s, h, hrun, delivers_own_result hrun⟩

end State

end Agrpc
