/-
Agrpc/System/Transfer.lean

What holds of every context of the system because it holds of `contextMachine`.

The results are about any number of contexts and threads and are stated in
terms of the system alone: `ofContext c h` is what was observed of context `c`,
`observations h` what was observed of any.

* `System.lives_once` — every operation lives once, at its own context;
* `System.oneWakeUp` — `work_alarm_` is never set twice;
* `System.delivers_rpc_result` — every receiver gets the result of its own RPC,
  also where contexts are run from inside each other's operations;
* `System.executes_in_order` — the order of executions, where `Run` is not
  called again on a context that is in `Run`.
-/
import Agrpc.Context.Executor
import Agrpc.Context.WakeUp
import Agrpc.System.Projection
import Mathlib.Algebra.BigOperators.Group.Finset.Basic

namespace Agrpc

open Interleaving

/-! ### Histories -/

/-- What was observed of context `c`. -/
def ofContext (c : ℕ) (h : List SystemObservation) : List Observation :=
  h.filterMap fun
    | .at d o => if d = c then some o else none
    | _ => none

/-- What was observed of any context. -/
def observations (h : List SystemObservation) : List Observation :=
  h.filterMap fun
    | .at _ o => some o
    | _ => none

theorem historyOf_eq_map (T : List ℕ) (c : ℕ) (h : List SystemObservation) :
    historyOf T c h = (ofContext c h).map (Observation.rename (runNumber T c)) := by
  unfold historyOf ofContext
  rw [List.map_filterMap]
  congr 1
  funext o
  cases o with
  | «at» d o =>
    by_cases hd : d = c
    · simp [observeOn, hd]
    · simp [observeOn, hd]
  | _ => rfl

theorem mem_ofContext {c : ℕ} {o : Observation} {h : List SystemObservation} :
    o ∈ ofContext c h ↔ .at c o ∈ h := by
  unfold ofContext
  rw [List.mem_filterMap]
  constructor
  · rintro ⟨so, hm, heq⟩
    cases so with
    | «at» d o' =>
      by_cases hd : d = c
      · simp only [hd, if_true, Option.some.injEq] at heq
        rw [← hd, ← heq]
        exact hm
      · simp [hd] at heq
    | _ => cases heq
  · intro hm
    exact ⟨_, hm, by simp⟩

/-! ### Readings of a renamed history -/

section Renamed

variable (ρ : ℕ → ℕ) (id : ℕ) (h : List Observation)

theorem concerns_rename (o : Observation) : (o.rename ρ).concerns id = o.concerns id := by
  cases o with
  | enqueued op | arrived route op | executed op => cases op <;> rfl
  | _ => rfl

theorem follow_rename (p : Phase) (o : Observation) : p.follow (o.rename ρ) = p.follow o := by
  cases p with
  | delivering r => cases r <;> cases o <;> rfl
  | travelling | returned =>
    cases o with
    | arrived route op => cases route <;> rfl
    | _ => rfl
  | _ => cases o <;> rfl

theorem next_rename (p : Phase) (o : Observation) : p.next id (o.rename ρ) = p.next id o := by
  unfold Phase.next
  rw [concerns_rename, follow_rename]

theorem run_rename (p : Phase) : p.run id (h.map (Observation.rename ρ)) = p.run id h := by
  induction h generalizing p with
  | nil => rfl
  | cons o h ih =>
    rw [List.map_cons, Phase.run_cons, Phase.run_cons, next_rename]
    congr 1
    funext q
    exact ih q

theorem enqueues_rename :
    enqueues (h.map (Observation.rename ρ)) = (enqueues h).map (OperationBase.rename ρ) := by
  unfold enqueues
  rw [List.filterMap_map, List.map_filterMap]
  congr 1
  funext o
  cases o <;> rfl

theorem executions_rename :
    executions (h.map (Observation.rename ρ)) = (executions h).map (OperationBase.rename ρ) := by
  unfold executions
  rw [List.filterMap_map, List.map_filterMap]
  congr 1
  funext o
  cases o <;> rfl

theorem arrivals_rename :
    arrivals (h.map (Observation.rename ρ))
      = (arrivals h).map fun a => (a.1, a.2.rename ρ) := by
  unfold arrivals
  rw [List.filterMap_map, List.map_filterMap]
  congr 1
  funext o
  cases o <;> rfl

theorem arrivedOps_rename :
    arrivedOps (h.map (Observation.rename ρ)) = (arrivedOps h).map (OperationBase.rename ρ) := by
  unfold arrivedOps
  rw [arrivals_rename, List.map_map, List.map_map]
  rfl

theorem remoteExecutions_rename :
    remoteExecutions (h.map (Observation.rename ρ))
      = (remoteExecutions h).map (OperationBase.rename ρ) := by
  unfold remoteExecutions
  rw [arrivals_rename, executions_rename, List.length_map, ← List.map_take, List.filter_map,
    List.map_map, List.map_map]
  rfl

end Renamed

/-! ### One life, at one context -/

/-- An operation that is observed at context `c` only: the life cycle reads the
observations of `c`, or those of all contexts. -/
theorem run_observations {id c : ℕ} {h : List SystemObservation}
    (hown : ∀ d o, .at d o ∈ h → o.concerns id = true → d = c) (p : Phase) :
    p.run id (observations h) = p.run id (ofContext c h) := by
  induction h generalizing p with
  | nil => rfl
  | cons so h ih =>
    have hrest : ∀ p : Phase, p.run id (observations h) = p.run id (ofContext c h) :=
      ih fun d o hm => hown d o (List.mem_cons_of_mem _ hm)
    cases so with
    | «at» d o =>
      show p.run id (o :: observations h) = _
      by_cases hd : d = c
      · have hof : ofContext c (.at d o :: h) = o :: ofContext c h :=
          List.filterMap_cons_some (if_pos hd)
        rw [hof, Phase.run_cons, Phase.run_cons]
        congr 1
        funext q
        exact hrest q
      · have hof : ofContext c (.at d o :: h) = ofContext c h :=
          List.filterMap_cons_none (if_neg hd)
        have hc : o.concerns id = false := by
          rw [Bool.eq_false_iff]
          exact fun hc => hd (hown d o List.mem_cons_self hc)
        have hstay : p.next id o = some p := by simp [Phase.next, hc]
        rw [hof, Phase.run_cons, hstay]
        exact hrest p
    | _ => exact hrest p

/-- How often `op` is linked in the queues of context `c`. -/
def System.queued (s : System) (c : ℕ) (op : OperationBase) : ℕ :=
  (s.contexts c).remoteQueue.items.count op + (s.contexts c).localQueue.count op

/-- How often `op` is linked in the batches of thread `t`. -/
def System.inBatches (s : System) (t : ℕ) (op : OperationBase) : ℕ :=
  ((s.callStacks t).flatMap fun a => a.frame.pc.batch).count op

/-- What is promised of operation `id`, in a state `s` that the system reaches
with history `h`. -/
structure System.LifeCycle (owner : ℕ → ℕ) (s : System) (h : List SystemObservation) (id : ℕ) :
    Prop where
  /-- it is observed and linked at its own context only -/
  observed : ∀ c o, .at c o ∈ h → o.concerns id = true → c = owner id
  elsewhere : ∀ c, c ≠ owner id → s.queued c (.operation id) = 0
  /-- of the queues of its context and the batches of any threads, it is in one
  at most, and once -/
  linkedOnce : ∀ threads : Finset ℕ, s.queued (owner id) (.operation id)
    + ∑ t ∈ threads, s.inBatches t (.operation id) ≤ 1
  /-- its `rpc_` is invoked once, before the receiver gets its result -/
  rpcOnce : (observations h).countP (·.isRpcInvoked id) ≤ 1
  rpcFirst : ∀ h₁ h₂ ok, observations h = h₁ ++ .setValue id ok :: h₂ → .rpcInvoked id ∈ h₁
  /-- and that is one result: the value of its one `set_value`, or the error of
  the one `set_error` after it -/
  givenOnce : GivenOnce (observations h) id
  completedOnce : (observations h).countP (·.isCompleted id) = (s.ops id).finished.toNat

/-- Counting an operation of a sender in a renamed list. -/
theorem count_rename {ρ : ℕ → ℕ} (hρ : Function.Injective ρ) (id : ℕ) (ops : List OperationBase) :
    (ops.map (OperationBase.rename ρ)).count (.operation id) = ops.count (.operation id) :=
  List.count_map_of_injective ops _ (OperationBase.rename_injective hρ) (.operation id)

theorem items_map {α β : Type*} (f : α → β) (q : AtomicQueue α) :
    (q.map f).items = q.items.map f := by
  cases q <;> rfl

theorem batch_rename (ρ : ℕ → ℕ) (pc : LoopPc) :
    (pc.rename ρ).batch = pc.batch.map (OperationBase.rename ρ) := by
  cases pc <;> rfl

theorem batch_subset_inHand (pc : LoopPc) : pc.batch ⊆ pc.inHand := by
  cases pc with
  | draining pending => exact List.Subset.refl _
  | executing id result pending => exact List.subset_cons_self _ _
  | _ => exact List.nil_subset _

/-- An operation of `c` is in batches of calls on `c` only. -/
theorem count_batches {c : ℕ} {op : OperationBase} {stack : List Activation}
    (hown : ∀ a ∈ stack, op ∈ a.frame.pc.inHand → a.context = c) :
    (stack.flatMap fun a => a.frame.pc.batch).count op
      = ((framesOn c stack).flatMap fun f => f.pc.batch).count op := by
  induction stack with
  | nil => rfl
  | cons a outer ih =>
    have hrest := ih fun b hb => hown b (List.mem_cons_of_mem a hb)
    by_cases ha : a.context = c
    · rw [framesOn_cons_on ha, List.flatMap_cons, List.flatMap_cons, List.count_append,
        List.count_append, hrest]
    · have hnot : op ∉ a.frame.pc.batch :=
        fun hm => ha (hown a List.mem_cons_self (batch_subset_inHand _ hm))
      rw [framesOn_cons_off ha, List.flatMap_cons, List.count_append,
        List.count_eq_zero_of_not_mem hnot, Nat.zero_add, hrest]

namespace System

variable {owner : ℕ → ℕ} {T : List ℕ} {c id : ℕ} {as : List SystemAction} {s : System} {x : State}
  {h : List SystemObservation}

/-- The queues of `c`, as `c` sees them. -/
theorem queued_eq (hR : SeenFrom owner T c s x) (id : ℕ) :
    s.queued c (.operation id)
      = x.inRemote (.operation id) + x.context.localQueue.count (.operation id) := by
  have hremote : x.inRemote (.operation id)
      = (s.contexts c).remoteQueue.items.count (.operation id) := by
    show x.context.remoteQueue.items.count _ = _
    rw [hR.context]
    show ((s.contexts c).remoteQueue.map _).items.count _ = _
    rw [items_map, count_rename runNumber_injective]
  have hlocal : x.context.localQueue.count (.operation id)
      = (s.contexts c).localQueue.count (.operation id) := by
    rw [hR.context]
    exact count_rename runNumber_injective id _
  rw [hremote, hlocal]
  rfl

/-- The batches of any threads, as `c` sees them. -/
theorem inBatches_le (hR : SeenFrom owner T c s x)
    (hown : ∀ t, ∀ a ∈ s.callStacks t, .operation id ∈ a.frame.pc.inHand → a.context = c)
    (threads : Finset ℕ) :
    ∑ t ∈ threads, s.inBatches t (.operation id) ≤ x.batches.count (.operation id) := by
  obtain ⟨t₀, hf, hother⟩ := hR.frames
  have hzero : ∀ t, t ≠ t₀ → s.inBatches t (.operation id) = 0 := by
    intro t ht
    show List.count _ _ = 0
    rw [count_batches (hown t), hother t ht]
    rfl
  have htop : s.inBatches t₀ (.operation id) = x.batches.count (.operation id) := by
    have hb : x.batches
        = ((framesOn c (s.callStacks t₀)).flatMap fun f => f.pc.batch).map
          (OperationBase.rename (runNumber T c)) := by
      show (x.frames.flatMap fun f => f.pc.batch) = _
      rw [hf, List.flatMap_map, List.map_flatMap]
      congr 1
      funext f
      exact batch_rename _ f.pc
    rw [hb, count_rename runNumber_injective]
    exact count_batches (hown t₀)
  by_cases ht : t₀ ∈ threads
  · rw [Finset.sum_eq_single_of_mem t₀ ht fun t _ hne => hzero t hne, htop]
  · rw [Finset.sum_eq_zero fun t hm => hzero t fun heq => ht (heq ▸ hm)]
    exact Nat.zero_le _

/-- **Every operation lives once, at its own context**, whatever contexts there
are and whichever threads run them, if `Run` is called on its own only while no
other thread is in a `Run` call on it: it is observed at no other context and
linked in no other queue, it is never linked twice, its `rpc_` is invoked at
most once and before its receiver is given a result, and it is given one. -/
theorem lives_once (hone : OneRunThread owner (owner id) as)
    (hrun : (systemMachine owner).exec as = some (s, h)) : LifeCycle owner s h id := by
  obtain ⟨bs, x, hbs, hR, -⟩ := Machine.exec_projects (SeenFrom.init owner _ _)
    (fun _ _ _ _ _ _ ht hs => projects_of_takes hone ht hs) hrun
  rw [← historyOf] at hbs
  obtain ⟨p, hp, hpl⟩ := State.placed_of_exec hbs id
  obtain ⟨hH, hT⟩ := holding_of_visits (Machine.Visits.last hrun)
  have hown : ∀ c o, .at c o ∈ h → o.concerns id = true → c = owner id :=
    fun c o hm hc => (hT c o hm id hc).symm
  rw [historyOf_eq_map, run_rename, ← run_observations hown] at hp
  refine ⟨hown, ?_, ?_, ?_, ?_, ?_, ?_⟩
  · intro c hc
    have hremote : .operation id ∉ (s.contexts c).remoteQueue.items :=
      fun hm => hc ((hH.contexts c).remoteQueue _ hm).symm
    have hlocal : .operation id ∉ (s.contexts c).localQueue :=
      fun hm => hc ((hH.contexts c).localQueue _ hm).symm
    show List.count _ _ + List.count _ _ = 0
    rw [List.count_eq_zero_of_not_mem hremote, List.count_eq_zero_of_not_mem hlocal]
  · intro threads
    have hle := inBatches_le hR (fun t a ha hm => (hH.inHand t a ha _ hm).symm) threads
    have hremote : x.inRemote (.operation id) = _ := hpl.places .remoteQueue
    have hlocal : x.context.localQueue.count (.operation id)
        + x.batches.count (.operation id) = _ := hpl.places .localQueue
    rw [queued_eq hR]
    cases p <;> simp [Phase.place] at hremote hlocal <;> omega
  · rw [Phase.rpcInvocations_eq hp]
    exact Bool.toNat_le _
  · intro h₁ h₂ ok hsplit
    exact Phase.rpcInvoked_before_setValue hp hsplit
  · exact Phase.givenOnce_of_run hp
  · have hfinished : (x.ops id).finished.toNat = _ := hpl.places .finished
    rw [Phase.completions_eq hp, ← hR.ops id rfl, hfinished]
    cases p <;> rfl

theorem lives_once_twoLoops :
    ∃ s h, (systemMachine (· % 2)).exec twoLoops = some (s, h) ∧
      LifeCycle (· % 2) s h 1 := by
  obtain ⟨s, h, hrun⟩ := (systemMachine (· % 2)).exec_of_isSome twoLoops (by decide +kernel)
  have hone : OneRunThread (· % 2) (1 % 2) twoLoops := oneRunThread_of_runThreads (by decide)
  exact ⟨s, h, hrun, lives_once hone hrun⟩

/-! ### One wake-up -/

/-- An action that is no `ShutDown` of `c` is none to `c`. -/
theorem shutDown_of_projectAction {act : SystemAction}
    (hact : projectAction owner T c s act = some .shutDown) : act = .shutDown c := by
  cases act with
  | shutDown d =>
    have hd : d = c := by
      by_contra hne
      rw [show projectAction owner T c s (.shutDown d) = none from if_neg hne] at hact
      cases hact
    rw [hd]
  | signal t => grind [projectAction]
  | _ => grind [projectAction]

/-- Without `ShutDown` at most one wake-up is on its way. -/
theorem wakeUps_le_of_handshake {x : State} (h : State.Handshake x)
    (hshut : x.context.completionQueue.isShutdown = false) :
    x.wakeUps + x.alarmInHand.toNat ≤ 1 := by
  rcases h with h | h | h | h
  · exact h.wakeUps_le
  · exact h.wakeUps_le
  · exact h.wakeUps_le
  · obtain ⟨hdown, -⟩ := CompletionQueue.drained_iff.mp h.drained
    rw [hshut] at hdown
    cases hdown

/-- **`work_alarm_` is never set twice**: of all threads at most one is about to
set the alarm of context `c`, and while one is, the alarm is not set, nor is its
event on the way to `remote_queue_read_submitted_`. -/
theorem oneWakeUp (hone : OneRunThread owner c as) (hno : .shutDown c ∉ as)
    (hrun : (systemMachine owner).exec as = some (s, h)) :
    (∀ t u op op', s.signalling t = some (c, op) → s.signalling u = some (c, op') → t = u) ∧
      (s.contexts c).completionQueue.alarms ≤ 1 ∧
      ∀ t op, s.signalling t = some (c, op) →
        (s.contexts c).completionQueue.alarms = 0 ∧
        ∀ u a outer, s.callStacks u = a :: outer → a.context = c → a.frame.pc = .gotEvent →
          (s.contexts c).event.tag ≠ none := by
  obtain ⟨bs, x, hbs, hR, htakes⟩ := Machine.exec_projects (SeenFrom.init owner _ _)
    (fun _ _ _ _ _ _ ht hs => projects_of_takes hone ht hs) hrun
  rw [← historyOf] at hbs
  have hno' : .shutDown ∉ bs := by
    intro hm
    obtain ⟨y, k, ht⟩ := Machine.takes_of_mem hbs hm
    obtain ⟨s₁, h₁, act, ht₁, hact, -⟩ := htakes y k _ ht
    exact hno (shutDown_of_projectAction hact ▸ ht₁.mem)
  have hle := wakeUps_le_of_handshake (State.handshake_of_exec hbs).2.2
    (State.isShutdown_of_mem hbs hno')
  simp only [State.wakeUps] at hle
  have halarms : x.context.completionQueue.alarms = (s.contexts c).completionQueue.alarms := by
    rw [hR.context]
    rfl
  rw [halarms] at hle
  obtain ⟨calls, -, hmem, hperm⟩ := hR.signalling
  have hlen : calls.length ≤ 1 := by
    rw [hperm.length_eq, List.length_map] at hle
    omega
  refine ⟨?_, by omega, ?_⟩
  · intro t u op op' ht hu
    have ht' := (hmem t op).mpr ht
    have hu' := (hmem u op').mpr hu
    rcases calls with - | ⟨p, - | ⟨q, rest⟩⟩
    · exact absurd ht' List.not_mem_nil
    · rw [List.mem_singleton] at ht' hu'
      exact (Prod.mk.inj (ht'.trans hu'.symm)).1
    · simp at hlen
  · intro t op ht
    have hne : x.signalling ≠ [] := by
      rintro heq
      rw [heq] at hperm
      have hnil := List.map_eq_nil_iff.mp hperm.symm.eq_nil
      rw [hnil] at hmem
      exact absurd ((hmem t op).mpr ht) List.not_mem_nil
    have hpos : 0 < x.signalling.length := List.length_pos_iff.mpr hne
    refine ⟨by omega, ?_⟩
    intro u a outer hs ha hpc htag
    have hgot : x.pc? = some .gotEvent := by
      rw [State.pc?_of_frames (hR.frames.top hs ha).1]
      show some (a.frame.pc.rename _) = _
      rw [hpc]
      rfl
    have hin : x.alarmInHand = true := by
      apply State.alarmInHand_iff.mpr
      refine ⟨hgot, ?_⟩
      rw [hR.context]
      exact htag
    rw [hin, Bool.toNat_true] at hle
    omega

theorem oneWakeUp_twoLoops :
    ∃ s h, (systemMachine (· % 2)).exec twoLoops = some (s, h) ∧
      (∀ t u op op', s.signalling t = some (1, op) → s.signalling u = some (1, op') → t = u) ∧
      (s.contexts 1).completionQueue.alarms ≤ 1 ∧
      ∀ t op, s.signalling t = some (1, op) →
        (s.contexts 1).completionQueue.alarms = 0 ∧
        ∀ u a outer, s.callStacks u = a :: outer → a.context = 1 → a.frame.pc = .gotEvent →
          (s.contexts 1).event.tag ≠ none := by
  obtain ⟨s, h, hrun⟩ := (systemMachine (· % 2)).exec_of_isSome twoLoops (by decide +kernel)
  have hone : OneRunThread (· % 2) 1 twoLoops := oneRunThread_of_runThreads (by decide)
  exact ⟨s, h, hrun, oneWakeUp hone (by simp [twoLoops]) hrun⟩

/-! ### Order and results -/

end System

/-- `Run` is called on context `c` only while no thread is in a `Run` call on
it. -/
def RunsOnIdle (owner : ℕ → ℕ) (c : ℕ) (as : List SystemAction) : Prop :=
  ∀ s h t, (systemMachine owner).Takes as s h (.run t c) →
    ∀ u, ∀ a ∈ s.callStacks u, a.context ≠ c

theorem RunsOnIdle.oneRunThread {owner : ℕ → ℕ} {c : ℕ} {as : List SystemAction}
    (h : RunsOnIdle owner c as) : OneRunThread owner c as :=
  fun s hist t ht u _ => h s hist t ht u

/-- `Run` is called on `c` once. -/
theorem runsOnIdle_of_runThreads {owner : ℕ → ℕ} {c : ℕ} {as : List SystemAction}
    (h : (runThreads c as).length ≤ 1) : RunsOnIdle owner c as := by
  rintro s hist t ⟨as', ⟨bs, rfl⟩, hrun, -⟩ u a ha rfl
  obtain ⟨call, hcall, -, hctx⟩ := (System.calls_of_exec hrun).1.active u _ _
    (System.mem_keys ha)
  have hmem := (System.calls_of_visits (Machine.Visits.last hrun) _ call hcall).2
  rw [hctx] at hmem
  -- the call that is active and the one that is made
  have hpos : 0 < (runThreads a.context as').length :=
    List.length_pos_of_mem (mem_runThreads hmem)
  have hnew : runThreads a.context [.run t a.context] = [t] :=
    List.filterMap_cons_some (if_pos rfl)
  have hsplit : runThreads a.context (as' ++ [.run t a.context] ++ bs)
      = runThreads a.context as' ++ [t] ++ runThreads a.context bs := by
    rw [← hnew]
    unfold runThreads
    rw [List.filterMap_append, List.filterMap_append]
  rw [hsplit, List.length_append, List.length_append, List.length_singleton] at h
  omega

namespace System

variable {owner : ℕ → ℕ} {T : List ℕ} {c id : ℕ} {as : List SystemAction} {s : System} {x : State}
  {h : List SystemObservation}

theorem run_of_projectAction {act : SystemAction}
    (hact : projectAction owner T c s act = some .run) : ∃ t, act = .run t c := by
  cases act with
  | run t d =>
    have hd : d = c := by
      by_contra hne
      rw [show projectAction owner T c s (.run t d) = none from if_neg hne] at hact
      cases hact
    exact ⟨t, by rw [hd]⟩
  | _ => grind [projectAction]

/-- Seen from `c`, no `Run` call is made from a receiver of `c`. -/
theorem projects_noReentry (hidle : RunsOnIdle owner c as)
    (hrun : (systemMachine owner).exec as = some (s, h)) :
    ∃ bs x, contextMachine.exec bs = some (x, historyOf (runContexts as) c h) ∧
      SeenFrom owner (runContexts as) c s x ∧ NoReentry bs := by
  obtain ⟨bs, x, hbs, hR, htakes⟩ := Machine.exec_projects (SeenFrom.init owner _ _)
    (fun _ _ _ _ _ _ ht hs => projects_of_takes hidle.oneRunThread ht hs) hrun
  rw [← historyOf] at hbs
  refine ⟨bs, x, hbs, hR, ?_⟩
  intro y k ht
  obtain ⟨s₁, h₁, act, ht₁, hact, hR₁⟩ := htakes y k _ ht
  obtain ⟨t, rfl⟩ := run_of_projectAction hact
  obtain ⟨t₀, hf, -⟩ := hR₁.frames
  rw [hf, framesOn_eq_nil (hidle s₁ h₁ t ht₁ t₀)]
  rfl

/-- **The loop of every context executes in order**: what it executes is what
came into its `local_queue_` first, and, of what any threads scheduled on it
from outside, what was enqueued first. -/
theorem executes_in_order (hidle : RunsOnIdle owner c as)
    (hrun : (systemMachine owner).exec as = some (s, h)) :
    executions (ofContext c h) <+: arrivedOps (ofContext c h) ∧
      remoteExecutions (ofContext c h) <+: enqueues (ofContext c h) := by
  obtain ⟨bs, x, hbs, -, hno⟩ := projects_noReentry hidle hrun
  have harrived : executions (historyOf (runContexts as) c h)
      <+: arrivedOps (historyOf (runContexts as) c h) := by
    rw [State.arrivedOps_eq hno (Machine.Visits.last hbs)]
    exact List.prefix_append _ _
  have hremote := State.remoteExecutions_prefix hbs
  have hinj : Function.Injective (OperationBase.rename (runNumber (runContexts as) c)) :=
    OperationBase.rename_injective runNumber_injective
  rw [historyOf_eq_map, executions_rename, arrivedOps_rename,
    List.prefix_map_iff_of_injective hinj] at harrived
  rw [historyOf_eq_map, remoteExecutions_rename, enqueues_rename,
    List.prefix_map_iff_of_injective hinj] at hremote
  exact ⟨harrived, hremote⟩

theorem executes_in_order_twoLoops :
    ∃ s h, (systemMachine (· % 2)).exec twoLoops = some (s, h) ∧
      executions (ofContext 1 h) <+: arrivedOps (ofContext 1 h) ∧
      remoteExecutions (ofContext 1 h) <+: enqueues (ofContext 1 h) := by
  obtain ⟨s, h, hrun⟩ := (systemMachine (· % 2)).exec_of_isSome twoLoops (by decide +kernel)
  have hidle : RunsOnIdle (· % 2) 1 twoLoops := runsOnIdle_of_runThreads (by decide)
  exact ⟨s, h, hrun, executes_in_order hidle hrun⟩

/-- An observation that names no `Run` call is the same to `c`. -/
theorem mem_historyOf {o : Observation}
    (ho : ∀ o', o'.rename (runNumber T c) = o ↔ o' = o) :
    o ∈ historyOf T c h ↔ .at c o ∈ h := by
  rw [historyOf_eq_map, List.mem_map, ← mem_ofContext]
  constructor
  · rintro ⟨o', hm, heq⟩
    rw [← (ho o').mp heq]
    exact hm
  · intro hm
    exact ⟨o, hm, (ho o).mpr rfl⟩

/-- **Every receiver gets the result of its own RPC**, on every context of the
system, with contexts run from inside each other's operations and from inside
their own. -/
theorem delivers_rpc_result (hone : OneRunThread owner c as)
    (hrun : (systemMachine owner).exec as = some (s, h)) {ok : Bool}
    (hset : .at c (.setValue id ok) ∈ h) (ok' : Bool) :
    .at c (.nextReturned (some id) ok') ∈ h ↔ ok' = ok := by
  obtain ⟨bs, x, hbs, -, -⟩ := Machine.exec_projects (SeenFrom.init owner _ _)
    (fun _ _ _ _ _ _ ht hs => projects_of_takes hone ht hs) hrun
  rw [← historyOf] at hbs
  have hset' : .setValue id ok ∈ historyOf (runContexts as) c h :=
    (mem_historyOf fun o' => by cases o' <;> simp [Observation.rename]).mpr hset
  -- the value given is one `Next` returned, and `Next` returned one
  have hreturned := (State.eventKept_of_exec hbs).values id ok hset'
  rw [← mem_historyOf (T := runContexts as) fun o' => by cases o' <;> simp [Observation.rename]]
  constructor
  · intro hm
    obtain ⟨p, hp, -⟩ := State.placed_of_exec hbs id
    exact Phase.returned_unique hp hreturned hm
  · rintro rfl
    exact hreturned

/-- Thread 0 runs context 0, a receiver of which runs context 1, a receiver of
which runs context 0 again. -/
def calledBack : List SystemAction := List.flatten
  [[.start 2 0, .run 0 0, .signal 2], List.replicate 6 (.loop 0), [.next 0 (.alarm true)],
    List.replicate 8 (.loop 0), [.finishRpc 0 0 true, .next 0 (.tag 0 true)],
    List.replicate 3 (.loop 0), [.start 0 2, .start 0 1, .signal 0, .run 0 1],
    List.replicate 6 (.loop 0), [.next 0 (.alarm true)], List.replicate 8 (.loop 0),
    [.finishRpc 1 1 true, .next 0 (.tag 1 true)], List.replicate 3 (.loop 0), [.run 0 0],
    List.replicate 4 (.loop 0), [.finishRpc 0 2 false, .next 0 (.tag 2 false)],
    List.replicate 3 (.loop 0)]

theorem delivers_rpc_result_calledBack :
    ∃ s h, (systemMachine (· % 2)).exec calledBack = some (s, h) ∧
      .at 0 (.setValue 2 false) ∈ h ∧
      ∀ ok', .at 0 (.nextReturned (some 2) ok') ∈ h ↔ ok' = false := by
  obtain ⟨s, h, hrun⟩ := (systemMachine (· % 2)).exec_of_isSome calledBack (by decide +kernel)
  have hset : .at 0 (.setValue 2 false) ∈ h := by
    have htest : (((systemMachine (· % 2)).exec calledBack).any fun p =>
        (ofContext 0 p.2).contains (.setValue 2 false)) = true := by decide +kernel
    rw [hrun, Option.any_some, List.contains_iff_mem] at htest
    exact mem_ofContext.mp htest
  have hone : OneRunThread (· % 2) 0 calledBack := oneRunThread_of_runThreads (by decide)
  exact ⟨s, h, hrun, hset, delivers_rpc_result hone hrun hset⟩

end System

end Agrpc
