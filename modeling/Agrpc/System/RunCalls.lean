/-
Agrpc/System/RunCalls.lean

The `Run` calls that have not returned, and their stop callbacks.

* `CallsOk` — a call is on the stack of the thread that made it, once, and its
  number was given to no other;
* `CallbacksOk` — a stop callback between `enqueue` and `SignalRemoteQueue` is
  the only one of its call, which knows of it and therefore does not return;
* `runContexts` — the contexts of the `Run` calls of a schedule, in the order
  of their numbers.
-/
import Agrpc.Context.StepCases
import Agrpc.System.Moves

namespace Agrpc

open Interleaving

/-- What a call is known by: its number and its context. -/
def Activation.key (a : Activation) : ℕ × ℕ := (a.frame.run, a.context)

@[simp] theorem Activation.key_goto (a : Activation) (pc : LoopPc) : (a.goto pc).key = a.key := rfl

@[simp] theorem Activation.key_seeStop (run : ℕ) (a : Activation) :
    (a.seeStop run).key = a.key := by
  show ((a.seeStop run).frame.run, a.context) = (a.frame.run, a.context)
  rw [Activation.seeStop_run]

@[simp] theorem Activation.key_requestStop (run : ℕ) (a : Activation) :
    (a.requestStop run).key = a.key := by
  show ((a.requestStop run).frame.run, a.context) = (a.frame.run, a.context)
  rw [Activation.requestStop_run]

namespace System

variable {owner : ℕ → ℕ} {s s' : System} {t : ℕ}

/-! ### Calls and stacks -/

/-- The calls on the stack of thread `t`, innermost first. -/
def keys (s : System) (t : ℕ) : List (ℕ × ℕ) := (s.callStacks t).map Activation.key

theorem mem_keys {a : Activation} (ha : a ∈ s.callStacks t) :
    (a.frame.run, a.context) ∈ s.keys t :=
  List.mem_map_of_mem ha

/-- A step of thread `t` in its innermost call. -/
theorem keys_of_update {a b : Activation} {outer : List Activation}
    (hs : s.callStacks t = a :: outer)
    (hst : s'.callStacks = Function.update s.callStacks t (b :: outer)) (hkey : b.key = a.key)
    (u : ℕ) :
    s'.keys u = s.keys u := by
  unfold keys
  rw [hst]
  by_cases hu : u = t
  · rw [hu, Function.update_self, hs, List.map_cons, List.map_cons, hkey]
  · rw [Function.update_of_ne hu]

/-- Marking frames. -/
theorem keys_of_map {f : Activation → Activation} (hkey : ∀ a, (f a).key = a.key)
    (hst : ∀ u, s'.callStacks u = (s.callStacks u).map f) (u : ℕ) : s'.keys u = s.keys u := by
  show (s'.callStacks u).map Activation.key = (s.callStacks u).map Activation.key
  rw [hst, List.map_map]
  exact List.map_congr_left fun a _ => hkey a

theorem keys_goOn {a : Activation} {outer : List Activation} (hs : s.callStacks t = a :: outer)
    (x : GrpcContext) (pc : LoopPc) (e : List Observation) (u : ℕ) :
    (s.goOn t a outer x pc e).1.keys u = s.keys u := by
  refine keys_of_update (b := a.goto pc) hs ?_ rfl u
  cases pc <;> rfl

@[simp] theorem goOn_calls (a : Activation) (outer : List Activation) (x : GrpcContext)
    (pc : LoopPc) (e : List Observation) : (s.goOn t a outer x pc e).1.calls = s.calls := by
  cases pc <;> rfl

@[simp] theorem goOn_runs (a : Activation) (outer : List Activation) (x : GrpcContext)
    (pc : LoopPc) (e : List Observation) : (s.goOn t a outer x pc e).1.runs = s.runs := by
  cases pc <;> rfl

@[simp] theorem goOn_signalling (a : Activation) (outer : List Activation) (x : GrpcContext)
    (pc : LoopPc) (e : List Observation) :
    (s.goOn t a outer x pc e).1.signalling = s.signalling := by
  cases pc <;> rfl

@[simp] theorem goOn_callStacks (a : Activation) (outer : List Activation) (x : GrpcContext)
    (pc : LoopPc) (e : List Observation) :
    (s.goOn t a outer x pc e).1.callStacks
      = Function.update s.callStacks t (a.goto pc :: outer) := by
  cases pc <;> rfl

/-- The calls that have not returned are those on the stacks. -/
structure CallsOk (s : System) : Prop where
  active : ∀ t r c, (r, c) ∈ s.keys t →
    ∃ call, s.calls r = some call ∧ call.thread = t ∧ call.context = c
  onStack : ∀ r call, s.calls r = some call → (r, call.context) ∈ s.keys call.thread
  nodup : ∀ t, (s.keys t).Nodup
  fresh : ∀ r call, s.calls r = some call → r < s.runs

namespace CallsOk

theorem init : CallsOk {} := by
  refine ⟨?_, ?_, ?_, ?_⟩
  · intro t r c hm
    exact absurd hm List.not_mem_nil
  · intro r call hc
    cases hc
  · intro t
    exact List.nodup_nil
  · intro r call hc
    cases hc

/-- Only the numbers, threads and contexts of the calls matter. -/
theorem congr (h : CallsOk s) (hk : ∀ u, s'.keys u = s.keys u)
    (hc : ∀ r, (s'.calls r).map (fun call => (call.thread, call.context))
      = (s.calls r).map fun call => (call.thread, call.context))
    (hr : s'.runs = s.runs) : CallsOk s' := by
  have hback : ∀ r call, s'.calls r = some call → ∃ call₀, s.calls r = some call₀ ∧
      call₀.thread = call.thread ∧ call₀.context = call.context := by
    intro r call hcall
    have heq := hc r
    rw [hcall, Option.map_some] at heq
    obtain ⟨call₀, hcall₀, hpair⟩ := Option.map_eq_some_iff.mp heq.symm
    exact ⟨call₀, hcall₀, (Prod.mk.inj hpair).1, (Prod.mk.inj hpair).2⟩
  refine ⟨?_, ?_, ?_, ?_⟩
  · intro u r c hm
    rw [hk] at hm
    obtain ⟨call, hcall, rfl, rfl⟩ := h.active u r c hm
    have heq := hc r
    rw [hcall, Option.map_some] at heq
    obtain ⟨call', hcall', hpair⟩ := Option.map_eq_some_iff.mp heq
    exact ⟨call', hcall', (Prod.mk.inj hpair).1, (Prod.mk.inj hpair).2⟩
  · intro r call hcall
    obtain ⟨call₀, hcall₀, ht, hctx⟩ := hback r call hcall
    rw [hk, ← ht, ← hctx]
    exact h.onStack r call₀ hcall₀
  · intro u
    rw [hk]
    exact h.nodup u
  · intro r call hcall
    obtain ⟨call₀, hcall₀, -⟩ := hback r call hcall
    rw [hr]
    exact h.fresh r call₀ hcall₀

/-- `Run` is called. -/
theorem call (h : CallsOk s) {c : ℕ} (hk : s'.keys t = (s.runs, c) :: s.keys t)
    (hk' : ∀ u, u ≠ t → s'.keys u = s.keys u)
    (hc : s'.calls = Function.update s.calls s.runs (some { thread := t, context := c }))
    (hr : s'.runs = s.runs + 1) : CallsOk s' := by
  have hnew : ∀ u d, (s.runs, d) ∉ s.keys u := by
    intro u d hm
    obtain ⟨call, hcall, -⟩ := h.active u _ d hm
    exact absurd (h.fresh _ _ hcall) (Nat.lt_irrefl _)
  have hsub : ∀ u, s.keys u ⊆ s'.keys u := by
    intro u
    by_cases hu : u = t
    · rw [hu, hk]
      exact List.subset_cons_self _ _
    · rw [hk' u hu]
      exact List.Subset.refl _
  refine ⟨?_, ?_, ?_, ?_⟩
  · intro u r d hm
    by_cases hrun : r = s.runs
    · rw [hc, hrun, Function.update_self]
      by_cases hu : u = t
      · rw [hu, hk, List.mem_cons] at hm
        rcases hm with heq | hm
        · exact ⟨_, rfl, hu.symm, (Prod.mk.inj heq).2.symm⟩
        · exact absurd (hrun ▸ hm) (hnew t d)
      · rw [hk' u hu] at hm
        exact absurd (hrun ▸ hm) (hnew u d)
    · rw [hc, Function.update_of_ne hrun]
      apply h.active u r d
      by_cases hu : u = t
      · rw [hu, hk, List.mem_cons] at hm
        rcases hm with heq | hm
        · exact absurd (Prod.mk.inj heq).1 hrun
        · rw [hu]
          exact hm
      · rw [← hk' u hu]
        exact hm
  · intro r call hcall
    rw [hc] at hcall
    by_cases hrun : r = s.runs
    · rw [hrun, Function.update_self] at hcall
      obtain rfl := Option.some.inj hcall
      show (r, c) ∈ s'.keys t
      rw [hk, hrun]
      exact List.mem_cons_self
    · rw [Function.update_of_ne hrun] at hcall
      exact hsub _ (h.onStack r call hcall)
  · intro u
    by_cases hu : u = t
    · rw [hu, hk]
      exact List.nodup_cons.mpr ⟨hnew t c, h.nodup t⟩
    · rw [hk' u hu]
      exact h.nodup u
  · intro r call hcall
    rw [hr]
    rw [hc] at hcall
    by_cases hrun : r = s.runs
    · rw [hrun]
      exact Nat.lt_succ_self _
    · rw [Function.update_of_ne hrun] at hcall
      exact Nat.lt_succ_of_lt (h.fresh r call hcall)

/-- `Run` returns. -/
theorem returned (h : CallsOk s) {r c : ℕ} {rest : List (ℕ × ℕ)} (hk : s.keys t = (r, c) :: rest)
    (hk₁ : s'.keys t = rest) (hk' : ∀ u, u ≠ t → s'.keys u = s.keys u)
    (hc : s'.calls = Function.update s.calls r none) (hr : s'.runs = s.runs) : CallsOk s' := by
  obtain ⟨call, hcall, hthread, hctx⟩ := h.active t r c (by rw [hk]; exact List.mem_cons_self)
  have hnodup := h.nodup t
  rw [hk, List.nodup_cons] at hnodup
  have hsub : ∀ u, s'.keys u ⊆ s.keys u := by
    intro u
    by_cases hu : u = t
    · rw [hu, hk, hk₁]
      exact List.subset_cons_self _ _
    · rw [hk' u hu]
      exact List.Subset.refl _
  have hne : ∀ u q d, (q, d) ∈ s'.keys u → q ≠ r := by
    rintro u q d hm rfl
    -- the stack of another thread has only calls of that thread
    obtain ⟨call', hcall', hthread', hctx'⟩ := h.active u q d (hsub u hm)
    rw [hcall] at hcall'
    obtain rfl := Option.some.inj hcall'
    rw [← hthread', hthread, hk₁, ← hctx', hctx] at hm
    exact hnodup.1 hm
  refine ⟨?_, ?_, ?_, ?_⟩
  · intro u q d hm
    rw [hc, Function.update_of_ne (hne u q d hm)]
    exact h.active u q d (hsub u hm)
  · intro q call' hcall'
    rw [hc] at hcall'
    by_cases hq : q = r
    · rw [hq, Function.update_self] at hcall'
      cases hcall'
    · rw [Function.update_of_ne hq] at hcall'
      have hm := h.onStack q call' hcall'
      by_cases hu : call'.thread = t
      · rw [hu, hk, List.mem_cons] at hm
        rw [hu, hk₁]
        rcases hm with heq | hm
        · exact absurd (Prod.mk.inj heq).1 hq
        · exact hm
      · rw [hk' _ hu]
        exact hm
  · intro u
    by_cases hu : u = t
    · rw [hu, hk₁]
      exact hnodup.2
    · rw [hk' u hu]
      exact h.nodup u
  · intro q call' hcall'
    rw [hc] at hcall'
    rw [hr]
    by_cases hq : q = r
    · rw [hq, Function.update_self] at hcall'
      cases hcall'
    · rw [Function.update_of_ne hq] at hcall'
      exact h.fresh q call' hcall'

/-- **The step lemma for the calls.** -/
theorem step {act : SystemAction} {e : List SystemObservation} (h : CallsOk s)
    (hmove : SystemMove owner s act s' e) : CallsOk s' := by
  cases hmove with
  | @run t c hu =>
    refine h.call (t := t) (c := c) ?_ ?_ rfl rfl
    · show (Function.update s.callStacks t _ t).map Activation.key = _
      rw [Function.update_self]
      rfl
    · intro u hu
      show (Function.update s.callStacks t _ u).map Activation.key = _
      rw [Function.update_of_ne hu]
      rfl
  | @leave t a outer b hs hpc hcall =>
    have hk : s.keys t = a.key :: outer.map Activation.key := by
      unfold keys
      rw [hs, List.map_cons]
    refine h.returned hk ?_ ?_ rfl rfl
    · show (Function.update s.callStacks t outer t).map Activation.key = _
      rw [Function.update_self]
    · intro u hu
      show (Function.update s.callStacks t outer u).map Activation.key = _
      rw [Function.update_of_ne hu]
      rfl
  | loop hs hx | next hs hpc hx =>
    exact h.congr (keys_goOn hs _ _ _) (fun r => by rw [goOn_calls]) (goOn_runs _ _ _ _ _)
  | enter hs => exact h.congr (keys_of_update hs rfl rfl) (fun r => rfl) rfl
  | @executeStop t a outer run rest hs =>
    have hmid : ∀ u, (s.setStack t (a.goto (.draining rest) :: outer)).keys u = s.keys u :=
      keys_of_update hs rfl rfl
    refine h.congr (fun u => ?_) (fun r => rfl) rfl
    rw [← hmid]
    exact keys_of_map (Activation.key_seeStop run) (fun u => rfl) u
  | executeSchedule hs | executeScheduleFails hs | executeRequest hs | setValueThrows hs
  | receiverReturns hs =>
    exact h.congr (keys_of_update hs rfl rfl) (fun r => rfl) rfl
  | startRemote | startDirect | finishRpc | shutDown =>
    exact h.congr (fun u => rfl) (fun r => rfl) rfl
  | @requestStopLocal t run call hcall | @requestStopRemote t run call hcall =>
    refine h.congr (keys_of_map (Activation.key_requestStop run) fun u => rfl) (fun r => ?_) rfl
    show (Function.update s.calls run _ r).map _ = _
    by_cases hr : r = run
    · rw [hr, Function.update_self, hcall]
      rfl
    · rw [Function.update_of_ne hr]
  | @signal t c op x hsig hx =>
    refine h.congr (fun u => rfl) (fun r => ?_) rfl
    show (s.callsSignalled op r).map _ = _
    cases op with
    | operation id => rfl
    | stopOperation run =>
      show (Function.update s.calls run _ r).map _ = _
      by_cases hr : r = run
      · rw [hr, Function.update_self, Option.map_map]
        rfl
      · rw [Function.update_of_ne hr]

end CallsOk

/-! ### The stop callbacks -/

/-- The stop callback of call `run` is between `enqueue` and
`SignalRemoteQueue`, on thread `t`. -/
def inCallback (s : System) (t run : ℕ) : Prop :=
  ∃ c, s.signalling t = some (c, .stopOperation run)

/-- A stop callback inside `ScheduleRemote` is the only one of its call, which
waits for it. -/
structure CallbacksOk (s : System) : Prop where
  known : ∀ t run, s.inCallback t run → ∃ call, s.calls run = some call ∧ call.signalling = true
  requested : ∀ t run, s.inCallback t run →
    ∀ u, ∀ a ∈ s.callStacks u, a.frame.run = run → a.frame.stopRequested = true
  unique : ∀ t u run, s.inCallback t run → s.inCallback u run → t = u

namespace CallbacksOk

theorem init : CallbacksOk {} := by
  have hnone : ∀ t run, ¬ inCallback {} t run := by
    rintro t run ⟨c, h⟩
    cases h
  refine ⟨?_, ?_, ?_⟩
  · intro t run hin
    exact absurd hin (hnone t run)
  · intro t run hin
    exact absurd hin (hnone t run)
  · intro t u run hin
    exact absurd hin (hnone t run)

/-- No callback begins, and no call is marked or returns. -/
theorem congr (h : CallbacksOk s) (hcb : ∀ u run, s'.inCallback u run → s.inCallback u run)
    (hc : s'.calls = s.calls)
    (hst : ∀ u, ∀ b ∈ s'.callStacks u, ∃ v, ∃ a ∈ s.callStacks v, b.frame.run = a.frame.run ∧
      (a.frame.stopRequested = true → b.frame.stopRequested = true)) : CallbacksOk s' := by
  refine ⟨?_, ?_, ?_⟩
  · intro u run hin
    rw [hc]
    exact h.known u run (hcb u run hin)
  · intro u run hin v b hb hrun
    obtain ⟨w, a, ha, heq, himp⟩ := hst v b hb
    exact himp (h.requested u run (hcb u run hin) w a ha (heq ▸ hrun))
  · intro t u run ht hu
    exact h.unique t u run (hcb t run ht) (hcb u run hu)

/-- A step of thread `t` in its innermost call. -/
theorem goto (h : CallbacksOk s) {a b : Activation} {outer : List Activation}
    (hs : s.callStacks t = a :: outer)
    (hst : s'.callStacks = Function.update s.callStacks t (b :: outer))
    (hrun : b.frame.run = a.frame.run) (hreq : b.frame.stopRequested = a.frame.stopRequested)
    (hsig : s'.signalling = s.signalling) (hc : s'.calls = s.calls) : CallbacksOk s' := by
  apply h.congr
  · rintro u run ⟨d, hd⟩
    rw [hsig] at hd
    exact ⟨d, hd⟩
  · exact hc
  · intro u b' hb'
    rw [hst] at hb'
    by_cases hu : u = t
    · rw [hu, Function.update_self] at hb'
      rcases List.mem_cons.mp hb' with rfl | hb'
      · exact ⟨t, a, by rw [hs]; exact List.mem_cons_self, hrun, fun hr => hreq.trans hr⟩
      · exact ⟨t, b', by rw [hs]; exact List.mem_cons_of_mem a hb', rfl, id⟩
    · rw [Function.update_of_ne hu] at hb'
      exact ⟨u, b', hb', rfl, id⟩

/-- A callback that was not invoked is not running. -/
theorem not_inCallback (h : CallbacksOk s) {call : RunCall} {run : ℕ}
    (hst : s.stopPending call run = true) (u : ℕ) : ¬ s.inCallback u run := by
  intro hin
  obtain ⟨a, ha, hpending⟩ := List.any_eq_true.mp hst
  simp only [Bool.and_eq_true, beq_iff_eq, Bool.not_eq_true'] at hpending
  have hreq := h.requested u run hin call.thread a ha hpending.1
  rw [hpending.2] at hreq
  cases hreq

/-- `Run` is called: its number is new. -/
theorem call (h : CallbacksOk s) (hC : CallsOk s) {a : Activation} {call : RunCall}
    (ha : a.frame.run = s.runs)
    (hst : s'.callStacks = Function.update s.callStacks t (a :: s.callStacks t))
    (hc : s'.calls = Function.update s.calls s.runs (some call))
    (hsig : s'.signalling = s.signalling) : CallbacksOk s' := by
  have hcb : ∀ u run, s'.inCallback u run → s.inCallback u run := by
    rintro u run ⟨d, hd⟩
    rw [hsig] at hd
    exact ⟨d, hd⟩
  have hne : ∀ u run, s.inCallback u run → run ≠ s.runs := by
    rintro u run hin rfl
    obtain ⟨call', hcall', -⟩ := h.known u _ hin
    exact absurd (hC.fresh _ _ hcall') (Nat.lt_irrefl _)
  refine ⟨?_, ?_, ?_⟩
  · intro u run hin
    rw [hc, Function.update_of_ne (hne u run (hcb u run hin))]
    exact h.known u run (hcb u run hin)
  · intro u run hin v b hb hrun
    have hold := h.requested u run (hcb u run hin)
    rw [hst] at hb
    by_cases hv : v = t
    · rw [hv, Function.update_self, List.mem_cons] at hb
      rcases hb with rfl | hb
      · exact absurd (hrun.symm.trans ha) (hne u run (hcb u run hin))
      · exact hold t b hb hrun
    · rw [Function.update_of_ne hv] at hb
      exact hold v b hb hrun
  · intro u v run hu hv
    exact h.unique u v run (hcb u run hu) (hcb v run hv)

/-- `Run` returns: its callback is not running. -/
theorem returned (h : CallbacksOk s) {a : Activation} {outer : List Activation}
    (hs : s.callStacks t = a :: outer)
    (hcall : (s.calls a.frame.run).any RunCall.signalling = false)
    (hst : s'.callStacks = Function.update s.callStacks t outer)
    (hc : s'.calls = Function.update s.calls a.frame.run none)
    (hsig : s'.signalling = s.signalling) : CallbacksOk s' := by
  have hcb : ∀ u run, s'.inCallback u run → s.inCallback u run := by
    rintro u run ⟨d, hd⟩
    rw [hsig] at hd
    exact ⟨d, hd⟩
  refine ⟨?_, ?_, ?_⟩
  · intro u run hin
    obtain ⟨call, hcall', hmarked⟩ := h.known u run (hcb u run hin)
    have hne : run ≠ a.frame.run := by
      rintro rfl
      rw [hcall', Option.any_some, hmarked] at hcall
      cases hcall
    rw [hc, Function.update_of_ne hne]
    exact ⟨call, hcall', hmarked⟩
  · intro u run hin v b hb
    apply h.requested u run (hcb u run hin) v b
    rw [hst] at hb
    by_cases hv : v = t
    · rw [hv, Function.update_self] at hb
      rw [hv, hs]
      exact List.mem_cons_of_mem a hb
    · rw [Function.update_of_ne hv] at hb
      exact hb
  · intro u v run hu hv
    exact h.unique u v run (hcb u run hu) (hcb v run hv)

/-- The stop callback of call `run` is invoked on thread `t`; it may stay
inside `ScheduleRemote`, and is then known to its call. -/
theorem request (h : CallbacksOk s) {call call' : RunCall} {run : ℕ}
    (hst : s.stopPending call run = true)
    (hcb : ∀ u r, s'.inCallback u r → s.inCallback u r ∨
      (u = t ∧ r = run ∧ call'.signalling = true))
    (hstacks : ∀ u, s'.callStacks u = (s.callStacks u).map (Activation.requestStop run))
    (hc : s'.calls = Function.update s.calls run (some call')) : CallbacksOk s' := by
  have hne : ∀ u r, s.inCallback u r → r ≠ run := by
    rintro u r hin rfl
    exact h.not_inCallback hst u hin
  refine ⟨?_, ?_, ?_⟩
  · intro u r hin
    rw [hc]
    rcases hcb u r hin with hin | ⟨-, rfl, hmarked⟩
    · rw [Function.update_of_ne (hne u r hin)]
      exact h.known u r hin
    · exact ⟨call', Function.update_self _ _ _, hmarked⟩
  · intro u r hin v b hb hrun
    rw [hstacks] at hb
    obtain ⟨a, ha, rfl⟩ := List.mem_map.mp hb
    rw [Activation.requestStop_run] at hrun
    show (a.frame.requestStop run).stopRequested = true
    rw [RunFrame.requestStop_stopRequested]
    rcases hcb u r hin with hin | ⟨-, rfl, -⟩
    · rw [h.requested u r hin v a ha hrun]
      rfl
    · rw [hrun, beq_self_eq_true, Bool.or_true]
  · intro u v r hu hv
    rcases hcb u r hu with hu | ⟨hu, hr, -⟩ <;> rcases hcb v r hv with hv | ⟨hv, hr', -⟩
    · exact h.unique u v r hu hv
    · exact absurd hr' (hne u r hu)
    · exact absurd hr (hne v r hv)
    · exact hu.trans hv.symm

/-- `SignalRemoteQueue` returns on thread `t`. -/
theorem signalled (h : CallbacksOk s) {c : ℕ} {op : OperationBase}
    (hsig : s.signalling t = some (c, op))
    (hsig' : s'.signalling = Function.update s.signalling t none)
    (hc : s'.calls = s.callsSignalled op) (hst : s'.callStacks = s.callStacks) :
    CallbacksOk s' := by
  have hcb : ∀ u run, s'.inCallback u run → u ≠ t ∧ s.inCallback u run := by
    rintro u run ⟨d, hd⟩
    rw [hsig'] at hd
    have hu : u ≠ t := by
      rintro rfl
      rw [Function.update_self] at hd
      cases hd
    rw [Function.update_of_ne hu] at hd
    exact ⟨hu, d, hd⟩
  refine ⟨?_, ?_, ?_⟩
  · intro u run hin
    obtain ⟨hu, hin⟩ := hcb u run hin
    rw [hc]
    cases op with
    | operation id => exact h.known u run hin
    | stopOperation r =>
      have hr : run ≠ r := by
        rintro rfl
        exact hu (h.unique u t run hin ⟨c, hsig⟩)
      show ∃ call, Function.update s.calls r _ run = some call ∧ _
      rw [Function.update_of_ne hr]
      exact h.known u run hin
  · intro u run hin
    rw [hst]
    exact h.requested u run (hcb u run hin).2
  · intro u v run hu hv
    exact h.unique u v run (hcb u run hu).2 (hcb v run hv).2

/-- A callback that runs after `ScheduleRemote` was called ran before, or is
that of the stop operation it was called with. -/
theorem inCallback_scheduleRemote {c u run : ℕ} {op : OperationBase}
    (hin : (s.scheduleRemote t c op).inCallback u run) :
    s.inCallback u run ∨ (u = t ∧ op = .stopOperation run ∧
      ((s.scheduleRemote t c op).signalling t).isSome = true) := by
  obtain ⟨d, hd⟩ := hin
  have hsome : ((s.scheduleRemote t c op).signalling u).isSome = true := by
    rw [hd]
    rfl
  have hd' : (if ((s.contexts c).enqueueRemote op).1
      then Function.update s.signalling t (some (c, op)) else s.signalling) u
        = some (d, .stopOperation run) := hd
  split at hd'
  · by_cases hu : u = t
    · rw [hu, Function.update_self] at hd'
      rw [hu] at hsome
      exact .inr ⟨hu, (Prod.mk.inj (Option.some.inj hd')).2, hsome⟩
    · rw [Function.update_of_ne hu] at hd'
      exact .inl ⟨d, hd'⟩
  · exact .inl ⟨d, hd'⟩

/-- **The step lemma for the stop callbacks.** -/
theorem step {act : SystemAction} {e : List SystemObservation} (h : CallbacksOk s)
    (hC : CallsOk s) (hmove : SystemMove owner s act s' e) : CallbacksOk s' := by
  have hsame : ∀ u, ∀ b ∈ s.callStacks u, ∃ v, ∃ a ∈ s.callStacks v,
      b.frame.run = a.frame.run ∧ (a.frame.stopRequested = true → b.frame.stopRequested = true) :=
    fun u b hb => ⟨u, b, hb, rfl, id⟩
  cases hmove with
  | run hu => exact h.call hC rfl rfl rfl rfl
  | leave hs hpc hcall => exact h.returned hs hcall rfl rfl rfl
  | loop hs hx | next hs hpc hx =>
    exact h.goto hs (goOn_callStacks _ _ _ _ _) rfl rfl (goOn_signalling _ _ _ _ _)
      (goOn_calls _ _ _ _ _)
  | enter hs | executeSchedule hs | executeScheduleFails hs | executeRequest hs
  | setValueThrows hs | receiverReturns hs =>
    exact h.goto hs rfl rfl rfl rfl rfl
  | @executeStop t a outer run rest hs =>
    have hmid : CallbacksOk (s.setStack t (a.goto (.draining rest) :: outer)) :=
      h.goto hs rfl rfl rfl rfl rfl
    refine hmid.congr (fun u r hin => hin) rfl ?_
    intro u b hb
    obtain ⟨a', ha', rfl⟩ := List.mem_map.mp hb
    refine ⟨u, a', ha', Activation.seeStop_run run a', ?_⟩
    intro hreq
    exact (RunFrame.seeStop_stopRequested run a'.frame).trans hreq
  | @startRemote t id =>
    refine h.congr (fun u r hin => ?_) rfl hsame
    rcases inCallback_scheduleRemote hin with hin | ⟨-, heq, -⟩
    · exact hin
    · cases heq
  | startDirect | finishRpc | shutDown => exact h.congr (fun u r hin => hin) rfl hsame
  | @requestStopLocal t run call hcall hst hu =>
    exact h.request (t := t) hst (fun u r hin => .inl hin) (fun u => rfl) rfl
  | @requestStopRemote t run call hcall hst hu =>
    refine h.request (t := t) hst (fun u r hin => ?_) (fun u => rfl) rfl
    rcases inCallback_scheduleRemote hin with hin | ⟨hu, heq, hsome⟩
    · exact .inl hin
    · exact .inr ⟨hu, (OperationBase.stopOperation.inj heq).symm, hsome⟩
  | signal hsig hx => exact h.signalled hsig rfl rfl rfl

end CallbacksOk

/-! ### Whole runs -/

/-- What every run of the system keeps of its calls. -/
theorem calls_of_exec {as : List SystemAction} {h : List SystemObservation}
    (hrun : (systemMachine owner).exec as = some (s, h)) : CallsOk s ∧ CallbacksOk s := by
  refine Machine.exec_induction (M := systemMachine owner)
    (I := fun s _ => CallsOk s ∧ CallbacksOk s) ⟨.init, .init⟩ ?_ hrun
  rintro s h a s' e ⟨hC, hB⟩ hs
  have hs' : (if s.aborted then none else s.step owner a) = some (s', e) := hs
  have hmove := system_move_cases (Option.ite_none_left_eq_some.mp hs').2
  exact ⟨hC.step hmove, hB.step hC hmove⟩

end System

/-! ### The contexts of the calls -/

/-- The contexts of the `Run` calls of a schedule, in the order of the calls'
numbers. -/
def runContexts (as : List SystemAction) : List ℕ :=
  as.filterMap fun
    | .run _ c => some c
    | _ => none

theorem runContexts_append (as bs : List SystemAction) :
    runContexts (as ++ bs) = runContexts as ++ runContexts bs :=
  List.filterMap_append

namespace System

variable {owner : ℕ → ℕ} {s s' : System}

/-- Only `Run` gives a number away. -/
theorem runs_of_move {act : SystemAction} {e : List SystemObservation}
    (hmove : SystemMove owner s act s' e) : s'.runs = s.runs + (runContexts [act]).length := by
  cases hmove with
  | loop | next => exact goOn_runs _ _ _ _ _
  | _ => rfl

/-- The number of `Run` calls of a run. -/
theorem runs_eq {as : List SystemAction} {h : List SystemObservation}
    (hrun : (systemMachine owner).exec as = some (s, h)) : s.runs = (runContexts as).length := by
  induction as using List.reverseRecOn generalizing s h with
  | nil =>
    obtain ⟨rfl, -⟩ : ({} : System) = s ∧ [] = h := by simpa [systemMachine] using hrun
    rfl
  | append_singleton as a ih =>
    obtain ⟨s₁, h₁, e, hl, hs, rfl⟩ := Machine.exec_concat.mp hrun
    have hs' : (if s₁.aborted then none else s₁.step owner a) = some (s, e) := hs
    have hmove := system_move_cases (Option.ite_none_left_eq_some.mp hs').2
    rw [runs_of_move hmove, ih hl]
    rw [runContexts_append, List.length_append]

/-- The context of the next `Run` call of a run. -/
theorem runContexts_next {as : List SystemAction} {h : List SystemObservation} {t c : ℕ}
    (ht : (systemMachine owner).Takes as s h (.run t c)) : (runContexts as)[s.runs]? = some c := by
  obtain ⟨as', ⟨bs, rfl⟩, hrun, -⟩ := ht
  rw [runs_eq hrun]
  rw [List.append_assoc, runContexts_append, List.getElem?_append_right (Nat.le_refl _),
    Nat.sub_self]
  rfl

/-- A call keeps its thread and its context; a new one has the next number. -/
theorem call_of_move {act : SystemAction} {e : List SystemObservation}
    (hmove : SystemMove owner s act s' e) {r : ℕ} {call' : RunCall}
    (hcall' : s'.calls r = some call') :
    (∃ call, s.calls r = some call ∧ call.thread = call'.thread ∧ call.context = call'.context) ∨
      (act = .run call'.thread call'.context ∧ r = s.runs) := by
  cases hmove with
  | @run t c hu =>
    have hc : Function.update s.calls s.runs (some { thread := t, context := c }) r = some call' :=
      hcall'
    by_cases hr : r = s.runs
    · rw [hr, Function.update_self] at hc
      obtain rfl := Option.some.inj hc
      exact .inr ⟨rfl, hr⟩
    · rw [Function.update_of_ne hr] at hc
      exact .inl ⟨call', hc, rfl, rfl⟩
  | @leave t a outer b hs hpc hcall =>
    have hc : Function.update s.calls a.frame.run none r = some call' := hcall'
    by_cases hr : r = a.frame.run
    · rw [hr, Function.update_self] at hc
      cases hc
    · rw [Function.update_of_ne hr] at hc
      exact .inl ⟨call', hc, rfl, rfl⟩
  | @requestStopLocal t run call hcall | @requestStopRemote t run call hcall =>
    have hc : Function.update s.calls run (some { call with signalling := _ }) r = some call' :=
      hcall'
    by_cases hr : r = run
    · rw [hr, Function.update_self] at hc
      obtain rfl := Option.some.inj hc
      exact .inl ⟨call, hr ▸ hcall, rfl, rfl⟩
    · rw [Function.update_of_ne hr] at hc
      exact .inl ⟨call', hc, rfl, rfl⟩
  | @signal t c op x hsig hx =>
    have hc : s.callsSignalled op r = some call' := hcall'
    cases op with
    | operation id => exact .inl ⟨call', hc, rfl, rfl⟩
    | stopOperation run =>
      have hc : Function.update s.calls run _ r = some call' := hc
      by_cases hr : r = run
      · rw [hr, Function.update_self] at hc
        obtain ⟨call, hcall, rfl⟩ := Option.map_eq_some_iff.mp hc
        exact .inl ⟨call, hr ▸ hcall, rfl, rfl⟩
      · rw [Function.update_of_ne hr] at hc
        exact .inl ⟨call', hc, rfl, rfl⟩
  | loop | next =>
    rw [goOn_calls] at hcall'
    exact .inl ⟨call', hcall', rfl, rfl⟩
  | _ => exact .inl ⟨call', hcall', rfl, rfl⟩

/-- A `Run` call that has not returned was made by its thread, on its context,
and has its number. -/
theorem calls_of_visits {as : List SystemAction} {h : List SystemObservation}
    (hv : (systemMachine owner).Visits as s h) : ∀ r call, s.calls r = some call →
      (runContexts as)[r]? = some call.context ∧ .run call.thread call.context ∈ as := by
  refine Machine.visits_induction (M := systemMachine owner)
    (I := fun s _ => ∀ r call, s.calls r = some call →
      (runContexts as)[r]? = some call.context ∧ .run call.thread call.context ∈ as)
    (P := (systemMachine owner).Takes as) ?_ ?_ (fun _ _ _ ht => ht) hv
  · intro r call hcall
    cases hcall
  · intro s h a s' e hI ht hs r call' hcall'
    have hs' : (if s.aborted then none else s.step owner a) = some (s', e) := hs
    have hmove := system_move_cases (Option.ite_none_left_eq_some.mp hs').2
    rcases call_of_move hmove hcall' with ⟨call, hcall, hthread, hctx⟩ | ⟨rfl, rfl⟩
    · rw [← hctx, ← hthread]
      exact hI r call hcall
    · exact ⟨runContexts_next ht, ht.mem⟩

end System

end Agrpc
