/-
Agrpc/System/Holding.lean

Which context an operation can be found in.  Given what may come into context
`c` (`P c`), nothing else is ever found in its members, in the batches of its
`Run` calls, in the `ScheduleRemote` calls on it, or in what is observed of it:
no operation wanders from one context to another.

With `P` naming the owner of an operation and the `Run` call of a stop
operation this says that every context of the system minds its own business
(`holding_of_visits`), which is what makes it a machine of its own.
-/
import Agrpc.Context.LifeCycle
import Agrpc.System.OwnContext
import Agrpc.System.RunCalls

namespace Agrpc

open Interleaving

/-- What a `Run` call has taken from `local_queue_` and not finished: the
operation whose receiver it runs, and the rest of its batch. -/
def LoopPc.inHand : LoopPc → List OperationBase
  | draining pending => pending
  | executing id _ pending => .operation id :: pending
  | _ => []

/-! ### The loop takes nothing in hand that the context did not hold -/

namespace OnlyHolds

variable {P : OperationBase → Prop} {x y : GrpcContext} {pc : LoopPc} {e : List Observation}

/-- The observations of a step are about operations that satisfy `P`. -/
def Tells (P : OperationBase → Prop) (e : List Observation) : Prop :=
  ∀ o ∈ e, ∀ id, o.concerns id = true → P (.operation id)

theorem tells_nil : Tells P [] := fun _ ho => absurd ho List.not_mem_nil

theorem tells_singleton {o : Observation}
    (h : ∀ id, o.concerns id = true → P (.operation id)) : Tells P [o] := by
  intro o' ho'
  rw [List.mem_singleton.mp ho']
  exact h

/-- Between two program points. -/
theorem goes_runImplStep (h : OnlyHolds P x) {stop : Bool} {pc₀ : LoopPc}
    (hs : Agrpc.runImplStep x stop pc₀ = some (y, pc, e)) :
    (∀ op ∈ pc.inHand, P op) ∧ Tells P e := by
  have hnone : ∀ op ∈ ([] : List OperationBase), P op :=
    fun op hop => absurd hop List.not_mem_nil
  have hpass : Tells P [.passBegan] := tells_singleton fun id hc => Bool.noConfusion hc
  cases pc₀ with
  | registered | executing | callNext | exited => cases hs
  | loopTop =>
    simp only [Agrpc.runImplStep] at hs
    split at hs
    · obtain ⟨-, rfl, rfl⟩ := by simpa using hs
      exact ⟨hnone, hpass⟩
    · obtain ⟨-, rfl, rfl⟩ := by simpa using hs
      exact ⟨h.localQueue, hpass⟩
  | draining pending =>
    cases pending with
    | nil =>
      obtain ⟨-, rfl, rfl⟩ := by simpa [Agrpc.runImplStep] using hs
      exact ⟨hnone, tells_nil⟩
    | cons item rest => cases hs
  | checkStop =>
    obtain ⟨-, rfl, rfl⟩ := by simpa [Agrpc.runImplStep] using hs
    refine ⟨?_, tells_nil⟩
    cases stop <;> exact hnone
  | checkRemote =>
    obtain ⟨-, rfl, rfl⟩ := by simpa [Agrpc.runImplStep] using hs
    refine ⟨?_, tells_nil⟩
    split <;> exact hnone
  | dequeueRemote =>
    obtain ⟨⟨submitted, z, items⟩, hz, heq⟩ := Option.map_eq_some_iff.mp hs
    obtain ⟨-, rfl, rfl⟩ := by simpa using heq
    refine ⟨hnone, ?_⟩
    -- the items that arrive were in `remote_queue_`
    have hitems : items = x.remoteQueue.items := by
      obtain ⟨⟨queued, q⟩, hq, heq'⟩ := Option.map_eq_some_iff.mp hz
      obtain ⟨-, hqueued, -⟩ := AtomicQueue.tryMarkInactiveOrDequeueAll_cases hq
      rw [hqueued]
      simp only at heq'
      split at heq' <;> cases heq' <;> rfl
    intro o ho id hc
    obtain ⟨op, hop, rfl⟩ := List.mem_map.mp ho
    obtain rfl : op = .operation id := by simpa [Observation.concerns] using hc
    exact h.remoteQueue _ (hitems ▸ hop)
  | assignSubmitted submitted =>
    obtain ⟨-, rfl, rfl⟩ := by simpa [Agrpc.runImplStep] using hs
    exact ⟨hnone, tells_nil⟩
  | gotEvent =>
    obtain ⟨-, rfl, rfl⟩ := by simpa [Agrpc.runImplStep] using hs
    refine ⟨hnone, ?_⟩
    unfold GrpcContext.dispatchEvent
    split
    · exact tells_nil
    next k hk =>
      apply tells_singleton
      intro id hc
      obtain rfl : k = id := by simpa [Observation.concerns] using hc
      exact h.event k hk

/-- At the `Next` call. -/
theorem goes_runImplNext (h : OnlyHolds P x) {r : NextResult}
    (hs : Agrpc.runImplNext x r = some (y, pc, e)) : pc.inHand = [] ∧ Tells P e := by
  obtain ⟨cq, hcq, heq⟩ := Option.map_eq_some_iff.mp hs
  cases r with
  | alarm ok =>
    obtain ⟨-, rfl, rfl⟩ := by simpa using heq
    exact ⟨rfl, tells_singleton fun id hc => by simp [Observation.concerns] at hc⟩
  | tag k ok =>
    simp only [CompletionQueue.next, Option.ite_none_right_eq_some] at hcq
    obtain ⟨-, rfl, rfl⟩ := by simpa using heq
    refine ⟨rfl, tells_singleton fun id hc => ?_⟩
    obtain rfl : k = id := by simpa [Observation.concerns] using hc
    exact h.events (k, ok) hcq.1
  | shutdown =>
    obtain ⟨-, rfl, rfl⟩ := by simpa using heq
    exact ⟨rfl, tells_nil⟩

end OnlyHolds

/-! ### The whole system -/

/-- Whatever is found in the hands of context `c` satisfies `P c`. -/
structure Holding (P : ℕ → OperationBase → Prop) (s : System) : Prop where
  contexts : ∀ c, OnlyHolds (P c) (s.contexts c)
  inHand : ∀ t, ∀ a ∈ s.callStacks t, ∀ op ∈ a.frame.pc.inHand, P a.context op
  signalling : ∀ t c op, s.signalling t = some (c, op) → P c op

/-- What is observed of context `c` is about operations that satisfy `P c`. -/
def TellsOwn (P : ℕ → OperationBase → Prop) (e : List SystemObservation) : Prop :=
  ∀ c o, .at c o ∈ e → ∀ id, o.concerns id = true → P c (.operation id)

theorem tellsOwn_nil {P : ℕ → OperationBase → Prop} : TellsOwn P [] :=
  fun _ _ hm => absurd hm List.not_mem_nil

/-- One more observation, of context `c`. -/
theorem TellsOwn.cons {P : ℕ → OperationBase → Prop} {c : ℕ} {o : Observation}
    {e : List SystemObservation} (ho : ∀ id, o.concerns id = true → P c (.operation id))
    (he : TellsOwn P e) : TellsOwn P (.at c o :: e) := by
  intro d o' hm
  rcases List.mem_cons.mp hm with heq | hm
  · obtain ⟨rfl, rfl⟩ := SystemObservation.at.inj heq
    exact ho
  · exact he d o' hm

/-- One more observation, about the operation `id`. -/
theorem TellsOwn.about {P : ℕ → OperationBase → Prop} {c id : ℕ} {o : Observation}
    {e : List SystemObservation} (ho : ∀ k, o.concerns k = true → id = k)
    (hid : P c (.operation id)) (he : TellsOwn P e) : TellsOwn P (.at c o :: e) := by
  apply he.cons
  intro k hk
  rw [← ho k hk]
  exact hid

/-- One more observation, of the check. -/
theorem TellsOwn.checked {P : ℕ → OperationBase → Prop} {t id : ℕ} {holds : Bool}
    {e : List SystemObservation} (he : TellsOwn P e) : TellsOwn P (.checked t id holds :: e) := by
  intro d o hm
  rcases List.mem_cons.mp hm with heq | hm
  · cases heq
  · exact he d o hm

theorem TellsOwn.append {P : ℕ → OperationBase → Prop} {h e : List SystemObservation}
    (hh : TellsOwn P h) (he : TellsOwn P e) : TellsOwn P (h ++ e) := by
  intro c o hm
  rcases List.mem_append.mp hm with hm | hm
  · exact hh c o hm
  · exact he c o hm

theorem OnlyHolds.Tells.own {P : ℕ → OperationBase → Prop} {c : ℕ} {e : List Observation}
    (h : OnlyHolds.Tells (P c) e) : TellsOwn P (e.map (.at c)) := by
  intro d o hm
  obtain ⟨o', ho', heq⟩ := List.mem_map.mp hm
  obtain ⟨rfl, rfl⟩ := SystemObservation.at.inj heq
  exact h o' ho'

namespace Holding

variable {P : ℕ → OperationBase → Prop} {s s' : System} {t : ℕ} {a : Activation}
  {outer : List Activation}

theorem init (P : ℕ → OperationBase → Prop) : Holding P {} := by
  refine ⟨fun c => OnlyHolds.init, ?_, ?_⟩
  · intro t a ha
    exact absurd ha List.not_mem_nil
  · intro t c op h
    cases h

theorem contexts_update (h : Holding P s) {c : ℕ} {x : GrpcContext} (hx : OnlyHolds (P c) x)
    (d : ℕ) : OnlyHolds (P d) (Function.update s.contexts c x d) := by
  by_cases hd : d = c
  · rw [hd, Function.update_self]
    exact hx
  · rw [Function.update_of_ne hd]
    exact h.contexts d

theorem inHand_update (h : Holding P s) {stack : List Activation}
    (hst : ∀ b ∈ stack, ∀ op ∈ b.frame.pc.inHand, P b.context op) :
    ∀ u, ∀ b ∈ Function.update s.callStacks t stack u,
      ∀ op ∈ b.frame.pc.inHand, P b.context op := by
  intro u b hb
  by_cases hu : u = t
  · rw [hu, Function.update_self] at hb
    exact hst b hb
  · rw [Function.update_of_ne hu] at hb
    exact h.inHand u b hb

theorem inHand_outer (h : Holding P s) (hs : s.callStacks t = a :: outer) :
    ∀ b ∈ outer, ∀ op ∈ b.frame.pc.inHand, P b.context op := by
  intro b hb
  apply h.inHand t b
  rw [hs]
  exact List.mem_cons_of_mem a hb

/-- What is in hand after a step of thread `t` in its innermost call. -/
theorem inHand_goto (h : Holding P s) (hs : s.callStacks t = a :: outer) {pc : LoopPc}
    (hpc : ∀ op ∈ pc.inHand, P a.context op) :
    ∀ u, ∀ b ∈ Function.update s.callStacks t (a.goto pc :: outer) u,
      ∀ op ∈ b.frame.pc.inHand, P b.context op :=
  h.inHand_update (List.forall_mem_cons.mpr ⟨hpc, h.inHand_outer hs⟩)

/-- What the innermost call of thread `t` has in hand. -/
theorem inHand_top (h : Holding P s) (hs : s.callStacks t = a :: outer) :
    ∀ op ∈ a.frame.pc.inHand, P a.context op := by
  apply h.inHand t a
  rw [hs]
  exact List.mem_cons_self

/-- The batch of the innermost call. -/
theorem inHand_draining (h : Holding P s) (hs : s.callStacks t = a :: outer) {op : OperationBase}
    {rest : List OperationBase} (hpc : a.frame.pc = .draining (op :: rest)) :
    P a.context op ∧ ∀ op ∈ rest, P a.context op := by
  have htop := h.inHand_top hs
  rw [hpc] at htop
  exact List.forall_mem_cons.mp htop

/-- The operation whose receiver the innermost call runs, and its batch. -/
theorem inHand_executing (h : Holding P s) (hs : s.callStacks t = a :: outer) {id : ℕ}
    {result : Result} {rest : List OperationBase}
    (hpc : a.frame.pc = .executing id result rest) :
    P a.context (.operation id) ∧ ∀ op ∈ rest, P a.context op := by
  have htop := h.inHand_top hs
  rw [hpc] at htop
  exact List.forall_mem_cons.mp htop

/-- The flags of the frames do not matter. -/
theorem inHand_map (h : Holding P s) {f : Activation → Activation}
    (hpc : ∀ a, (f a).frame.pc = a.frame.pc) (hctx : ∀ a, (f a).context = a.context) :
    ∀ u, ∀ b ∈ (s.callStacks u).map f, ∀ op ∈ b.frame.pc.inHand, P b.context op := by
  intro u b hb
  obtain ⟨a, ha, rfl⟩ := List.mem_map.mp hb
  rw [hpc, hctx]
  exact h.inHand u a ha

/-- `ScheduleRemote` is called with an operation of the context. -/
theorem scheduleRemote (h : Holding P s) {c : ℕ} {op : OperationBase} (hop : P c op) :
    Holding P (s.scheduleRemote t c op) := by
  refine ⟨h.contexts_update ((h.contexts c).enqueueRemote hop), h.inHand, ?_⟩
  intro u d op' hsig
  have hsig' : (if ((s.contexts c).enqueueRemote op).1
      then Function.update s.signalling t (some (c, op)) else s.signalling) u
        = some (d, op') := hsig
  split at hsig'
  · by_cases hu : u = t
    · rw [hu, Function.update_self] at hsig'
      obtain ⟨rfl, rfl⟩ := Prod.mk.inj (Option.some.inj hsig')
      exact hop
    · rw [Function.update_of_ne hu] at hsig'
      exact h.signalling u d op' hsig'
  · exact h.signalling u d op' hsig'

/-- The innermost call of thread `t` goes on in `RunImpl`. -/
theorem goOn (h : Holding P s) (hs : s.callStacks t = a :: outer) {x : GrpcContext} {pc : LoopPc}
    {e : List Observation} (hx : OnlyHolds (P a.context) x)
    (hpc : ∀ op ∈ pc.inHand, P a.context op) (he : OnlyHolds.Tells (P a.context) e) :
    Holding P (s.goOn t a outer x pc e).1 ∧ TellsOwn P (s.goOn t a outer x pc e).2 := by
  have hown := he.own
  cases pc with
  | exited b =>
    refine ⟨⟨h.contexts_update hx, h.inHand_goto hs hpc, h.signalling⟩, hown.append ?_⟩
    intro c o hm
    cases List.mem_singleton.mp hm
  | _ => exact ⟨⟨h.contexts_update hx, h.inHand_goto hs hpc, h.signalling⟩, hown⟩

/-- **The step lemma for what the contexts hold.** -/
theorem step {owner : ℕ → ℕ} {act : SystemAction} {e : List SystemObservation}
    (hop : ∀ id, P (owner id) (.operation id))
    (hstop : ∀ run call, s.calls run = some call → P call.context (.stopOperation run))
    (h : Holding P s) (hmove : SystemMove owner s act s' e) : Holding P s' ∧ TellsOwn P e := by
  have hnone : ∀ c, ∀ op ∈ ([] : List OperationBase), P c op :=
    fun c op hm => absurd hm List.not_mem_nil
  cases hmove with
  | @run t c hu =>
    exact ⟨⟨h.contexts, h.inHand_update (List.forall_mem_cons.mpr ⟨hnone c, h.inHand t⟩),
      h.signalling⟩, tellsOwn_nil⟩
  | @enter t a outer hs hpc =>
    refine ⟨⟨h.contexts, h.inHand_update (List.forall_mem_cons.mpr ⟨hnone a.context,
      h.inHand_outer hs⟩), h.signalling⟩, ?_⟩
    intro c o hm
    cases List.mem_singleton.mp hm
  | @loop t a outer x pc e hs hx =>
    obtain ⟨hhold, -⟩ := (h.contexts a.context).runImplStep hx
    obtain ⟨hpc, he⟩ := (h.contexts a.context).goes_runImplStep hx
    exact h.goOn hs hhold hpc he
  | @next t r a outer x pc e hs hpc hx =>
    obtain ⟨hhold, -⟩ := (h.contexts a.context).runImplNext hx
    obtain ⟨hhand, he⟩ := (h.contexts a.context).goes_runImplNext hx
    refine h.goOn hs hhold ?_ he
    rw [hhand]
    exact hnone a.context
  | @leave t a outer b hs hpc hcall =>
    exact ⟨⟨h.contexts, h.inHand_update (h.inHand_outer hs), h.signalling⟩, tellsOwn_nil⟩
  | @executeStop t a outer run rest hs hpc hcall =>
    obtain ⟨-, hrest⟩ := h.inHand_draining hs hpc
    have hmid : Holding P (s.setStack t (a.goto (.draining rest) :: outer)) :=
      ⟨h.contexts, h.inHand_goto hs hrest, h.signalling⟩
    refine ⟨⟨h.contexts, hmid.inHand_map (Activation.seeStop_pc run)
      (Activation.seeStop_context run), h.signalling⟩, ?_⟩
    exact tellsOwn_nil.cons fun id hc => by simp [Observation.concerns] at hc
  | @executeSchedule t a outer id rest x hs hpc hfn hc hx =>
    obtain ⟨hid, hrest⟩ := h.inHand_draining hs hpc
    refine ⟨⟨h.contexts_update ((h.contexts (owner id)).invokeRpc (hop id) hx),
      h.inHand_goto hs hrest, h.signalling⟩, ?_⟩
    have hrpc : TellsOwn P [.at (owner id) (.rpcInvoked id)] :=
      tellsOwn_nil.about (by simp [Observation.concerns]) (hop id)
    exact hrpc.checked.about (by simp [Observation.concerns]) hid
  | @executeScheduleFails t a outer id rest hs hpc hc =>
    obtain ⟨hid, hrest⟩ := h.inHand_draining hs hpc
    exact ⟨⟨h.contexts, h.inHand_goto hs hrest, h.signalling⟩,
      tellsOwn_nil.checked.about (by simp [Observation.concerns]) hid⟩
  | @executeRequest t a outer id rest hs hpc hfn =>
    obtain ⟨hid, hrest⟩ := h.inHand_draining hs hpc
    refine ⟨⟨h.contexts, h.inHand_goto hs (List.forall_mem_cons.mpr ⟨hid, hrest⟩),
      h.signalling⟩, ?_⟩
    have hset : TellsOwn P [.at a.context (.setValue id (s.contexts (owner id)).event.ok)] :=
      tellsOwn_nil.about (by simp [Observation.concerns]) hid
    exact hset.about (by simp [Observation.concerns]) hid
  | @setValueThrows t a outer id ok rest hs hpc =>
    obtain ⟨hid, hrest⟩ := h.inHand_executing hs hpc
    exact ⟨⟨h.contexts, h.inHand_goto hs (List.forall_mem_cons.mpr ⟨hid, hrest⟩), h.signalling⟩,
      tellsOwn_nil.about (by simp [Observation.concerns]) hid⟩
  | @receiverReturns t a outer id result rest hs hpc =>
    obtain ⟨hid, hrest⟩ := h.inHand_executing hs hpc
    exact ⟨⟨h.contexts, h.inHand_goto hs hrest, h.signalling⟩,
      tellsOwn_nil.about (by simp [Observation.concerns]) hid⟩
  | @startRemote t id hst hu hc =>
    have hmid : Holding P (s.setExecute id .onScheduleComplete) :=
      ⟨h.contexts, h.inHand, h.signalling⟩
    exact ⟨hmid.scheduleRemote (hop id),
      tellsOwn_nil.about (by simp [Observation.concerns]) (hop id)⟩
  | @startDirect t id x hst hu hc hx =>
    have hrpc : TellsOwn P [.at (owner id) (.rpcInvoked id)] :=
      tellsOwn_nil.about (by simp [Observation.concerns]) (hop id)
    exact ⟨⟨h.contexts_update ((h.contexts (owner id)).invokeRpc (hop id) hx), h.inHand,
      h.signalling⟩, hrpc.checked⟩
  | @requestStopLocal t run call hcall =>
    exact ⟨⟨h.contexts_update ((h.contexts call.context).scheduleLocal (hstop run call hcall)),
      h.inHand_map (Activation.requestStop_pc run) (Activation.requestStop_context run),
      h.signalling⟩, tellsOwn_nil.cons fun k hk => by simp [Observation.concerns] at hk⟩
  | @requestStopRemote t run call hcall =>
    have hmid : Holding P (s.scheduleRemote t call.context (.stopOperation run)) :=
      h.scheduleRemote (hstop run call hcall)
    exact ⟨⟨hmid.contexts,
      h.inHand_map (Activation.requestStop_pc run) (Activation.requestStop_context run),
      hmid.signalling⟩, tellsOwn_nil.cons fun k hk => by simp [Observation.concerns] at hk⟩
  | @signal t c op x hsig hx =>
    refine ⟨⟨h.contexts_update ((h.contexts c).signalRemoteQueue hx), h.inHand, ?_⟩, tellsOwn_nil⟩
    intro u d op' hsig'
    have hsig' : Function.update s.signalling t none u = some (d, op') := hsig'
    by_cases hu : u = t
    · rw [hu, Function.update_self] at hsig'
      cases hsig'
    · rw [Function.update_of_ne hu] at hsig'
      exact h.signalling u d op' hsig'
  | @finishRpc c id ok cq hq =>
    exact ⟨⟨h.contexts_update ((h.contexts c).finish hq), h.inHand, h.signalling⟩, tellsOwn_nil⟩
  | @shutDown c =>
    exact ⟨⟨h.contexts_update (h.contexts c).shutdown, h.inHand, h.signalling⟩, tellsOwn_nil⟩

end Holding

/-! ### Whole runs -/

/-- An operation belongs to its owner, and the stop operation of a `Run` call
to the context of the call; `T` are the contexts of the calls. -/
def BelongsTo (owner : ℕ → ℕ) (T : List ℕ) (c : ℕ) : OperationBase → Prop
  | .stopOperation run => T[run]? = some c
  | .operation id => owner id = c

/-- **No operation is ever found at another context**, nor observed there. -/
theorem System.holding_of_visits {owner : ℕ → ℕ} {as : List SystemAction} {s : System}
    {h : List SystemObservation} (hv : (systemMachine owner).Visits as s h) :
    Holding (BelongsTo owner (runContexts as)) s ∧
      TellsOwn (BelongsTo owner (runContexts as)) h := by
  refine Machine.visits_induction (M := systemMachine owner)
    (I := fun s h => Holding (BelongsTo owner (runContexts as)) s ∧
      TellsOwn (BelongsTo owner (runContexts as)) h)
    (P := fun s h _ => (systemMachine owner).Visits as s h) ⟨.init _, tellsOwn_nil⟩ ?_
    (fun _ _ _ ht => ht.visits) hv
  rintro s h a s' e ⟨hH, hT⟩ hv hs
  have hs' : (if s.aborted then none else s.step owner a) = some (s', e) := hs
  have hmove := system_move_cases (Option.ite_none_left_eq_some.mp hs').2
  obtain ⟨hH', he⟩ := hH.step (fun id => rfl)
    (fun r call hcall => (calls_of_visits hv r call hcall).1) hmove
  exact ⟨hH', hT.append he⟩

end Agrpc
