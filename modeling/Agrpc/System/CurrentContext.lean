/-
Agrpc/System/CurrentContext.lean

`current_thread_context` is dynamically scoped: on every thread it names the
context of the innermost `RunImpl`, whatever `Run` calls are nested in each
other, and every exit restores what the entry found.

* `Nested` — a thread's variable, stack and exchanges, taken together;
* `AllNested` — the same of every thread, and what one step keeps of it.

A step changes the variable and the stack of at most one thread, so the step
lemma goes through `AllNested.update`, and what happens on that thread is one
of the lemmas on `Nested`: a call, an entry, a move inside, an exit, a return.
-/
import Agrpc.Lib.Scope
import Agrpc.System.ThreadSteps

namespace Agrpc

open Interleaving Scoping

/-! ### The scopes of a thread -/

/-- The calls of a stack that are inside `RunImpl`, innermost first. -/
def insides (stack : List Activation) : List Activation := stack.filter Activation.inRunImpl

/-- An exchange of the variable of thread `t`, with the `Run` call that makes
it. -/
def scopeEvent (t : ℕ) : SystemObservation → Option (ScopeEvent (ℕ × Option ℕ))
  | .entered u run found => if u = t then some (.enter (run, found)) else none
  | .left u run restored => if u = t then some (.leave (run, restored)) else none
  | _ => none

/-- The exchanges of the variable of thread `t`, in order. -/
def scopeEvents (t : ℕ) (h : List SystemObservation) : List (ScopeEvent (ℕ × Option ℕ)) :=
  h.filterMap (scopeEvent t)

theorem scopeEvents_append (t : ℕ) (h e : List SystemObservation) :
    scopeEvents t (h ++ e) = scopeEvents t h ++ scopeEvents t e :=
  List.filterMap_append

/-- What the contexts do is no exchange. -/
theorem scopeEvents_at (t c : ℕ) (e : List Observation) :
    scopeEvents t (e.map (.at c)) = [] := by
  induction e with
  | nil => rfl
  | cons o e ih => exact ih

/-- A thread's variable is `current`, its stack is `stack` and `events` are
the exchanges it made: the calls inside `RunImpl` are the open scopes of the
variable, and only the innermost call of the stack can be outside `RunImpl`. -/
structure Nested (current : Option ℕ) (stack : List Activation)
    (events : List (ScopeEvent (ℕ × Option ℕ))) : Prop where
  binds : Scoped.Binds ⟨current, (insides stack).map Activation.oldContext⟩ none
    ((insides stack).map fun a => some a.context)
  bracketed : Bracketed events ((insides stack).map fun a => (a.frame.run, a.oldContext))
  suspended : ∀ a ∈ stack.tail, a.inReceiver = true

theorem insides_cons_of_inside {a : Activation} {outer : List Activation}
    (h : a.inRunImpl = true) : insides (a :: outer) = a :: insides outer :=
  List.filter_cons_of_pos h

theorem insides_cons_of_outside {a : Activation} {outer : List Activation}
    (h : a.inRunImpl = false) : insides (a :: outer) = insides outer :=
  List.filter_cons_of_neg (Bool.eq_false_iff.mp h)

namespace Nested

variable {current : Option ℕ} {stack outer : List Activation} {a b : Activation}
  {events : List (ScopeEvent (ℕ × Option ℕ))}

theorem init : Nested none [] [] :=
  ⟨Scoped.binds_nil none, .nil, fun _ h => absurd h List.not_mem_nil⟩

/-- The variable names the innermost open scope. -/
theorem current_eq (h : Nested current stack events) :
    current = (insides stack).head?.map Activation.context := by
  have hv : current = ((insides stack).map fun a => some a.context).head?.getD none :=
    h.binds.value
  rw [hv, List.head?_map]
  cases (insides stack).head? <;> rfl

/-- `Run` is called: nothing is exchanged yet. -/
theorem call (h : Nested current stack events)
    (hu : stack.head?.all Activation.inReceiver = true) (ha : a.inRunImpl = false) :
    Nested current (a :: stack) events := by
  refine ⟨?_, ?_, ?_⟩
  · rw [insides_cons_of_outside ha]
    exact h.binds
  · rw [insides_cons_of_outside ha]
    exact h.bracketed
  · show ∀ b ∈ stack, b.inReceiver = true
    intro b hb
    cases stack with
    | nil => exact absurd hb List.not_mem_nil
    | cons c cs =>
      rcases List.mem_cons.mp hb with rfl | hb
      · exact hu
      · exact h.suspended b hb

/-- `RunImpl` is entered. -/
theorem enter (h : Nested current (a :: outer) events) (ha : a.inRunImpl = false)
    (hb : b.inRunImpl = true) (hold : b.oldContext = current) :
    Nested (some b.context) (b :: outer) (events ++ [.enter (b.frame.run, current)]) := by
  have hbinds := h.binds
  have hbr := h.bracketed
  rw [insides_cons_of_outside ha] at hbinds hbr
  refine ⟨?_, ?_, h.suspended⟩
  · rw [insides_cons_of_inside hb, List.map_cons, List.map_cons, hold]
    exact hbinds.enter (some b.context)
  · rw [insides_cons_of_inside hb, List.map_cons, hold]
    exact hbr.enter _

/-- The innermost call stays inside `RunImpl`. -/
theorem move (h : Nested current (a :: outer) events) (ha : a.inRunImpl = true)
    (hb : b.inRunImpl = true) (hctx : b.context = a.context)
    (hold : b.oldContext = a.oldContext) (hrun : b.frame.run = a.frame.run) :
    Nested current (b :: outer) events := by
  have hbinds := h.binds
  have hbr := h.bracketed
  rw [insides_cons_of_inside ha] at hbinds hbr
  refine ⟨?_, ?_, h.suspended⟩
  · rw [insides_cons_of_inside hb, List.map_cons, List.map_cons, hctx, hold]
    exact hbinds
  · rw [insides_cons_of_inside hb, List.map_cons, hold, hrun]
    exact hbr

/-- `RunImpl` is left: its scope guard puts back what the entry found. -/
theorem exit (h : Nested current (a :: outer) events) (ha : a.inRunImpl = true)
    (hb : b.inRunImpl = false) :
    Nested a.oldContext (b :: outer) (events ++ [.leave (a.frame.run, a.oldContext)]) := by
  have hbinds := h.binds
  have hbr := h.bracketed
  rw [insides_cons_of_inside ha] at hbinds hbr
  refine ⟨?_, ?_, h.suspended⟩
  · rw [insides_cons_of_outside hb]
    exact hbinds.leave rfl
  · rw [insides_cons_of_outside hb]
    exact hbr.leave

/-- `Run` returns. -/
theorem returned (h : Nested current (a :: outer) events) (ha : a.inRunImpl = false) :
    Nested current outer events := by
  have hbinds := h.binds
  have hbr := h.bracketed
  rw [insides_cons_of_outside ha] at hbinds hbr
  exact ⟨hbinds, hbr, fun b hb => h.suspended b (List.mem_of_mem_tail hb)⟩

/-- The flags of the frames do not matter. -/
theorem map (h : Nested current stack events) {f : Activation → Activation}
    (hpc : ∀ a, (f a).frame.pc = a.frame.pc) (hctx : ∀ a, (f a).context = a.context)
    (hold : ∀ a, (f a).oldContext = a.oldContext) (hrun : ∀ a, (f a).frame.run = a.frame.run) :
    Nested current (stack.map f) events := by
  have hin : ∀ a, (f a).inRunImpl = a.inRunImpl := by
    intro a
    unfold Activation.inRunImpl
    rw [hpc]
  have hrec : ∀ a, (f a).inReceiver = a.inReceiver := by
    intro a
    unfold Activation.inReceiver
    rw [hpc]
  have hins : insides (stack.map f) = (insides stack).map f := by
    show (stack.map f).filter Activation.inRunImpl = (stack.filter Activation.inRunImpl).map f
    rw [List.filter_map]
    congr 2
    funext a
    exact hin a
  refine ⟨?_, ?_, ?_⟩
  · rw [hins, List.map_map, List.map_map]
    have h₁ : Activation.oldContext ∘ f = Activation.oldContext := funext hold
    have h₂ : (fun a => some a.context) ∘ f = fun a : Activation => some a.context := by
      funext a
      exact congrArg some (hctx a)
    rw [h₁, h₂]
    exact h.binds
  · rw [hins, List.map_map]
    have h₃ : (fun a => (a.frame.run, a.oldContext)) ∘ f
        = fun a : Activation => (a.frame.run, a.oldContext) := by
      funext a
      show ((f a).frame.run, (f a).oldContext) = (a.frame.run, a.oldContext)
      rw [hrun, hold]
    rw [h₃]
    exact h.bracketed
  · rw [← List.map_tail]
    intro b hb
    obtain ⟨a, ha, rfl⟩ := List.mem_map.mp hb
    rw [hrec]
    exact h.suspended a ha

end Nested

namespace System

variable {owner : ℕ → ℕ}

/-- The context of the innermost `RunImpl` active on thread `t`. -/
def innermost (s : System) (t : ℕ) : Option ℕ :=
  ((s.callStacks t).find? Activation.inRunImpl).map Activation.context

theorem innermost_eq (s : System) (t : ℕ) :
    s.innermost t = (insides (s.callStacks t)).head?.map Activation.context := by
  show ((s.callStacks t).find? Activation.inRunImpl).map Activation.context = _
  rw [insides, List.head?_filter]

/-- Every thread's exchanges are nested. -/
def AllNested (s : System) (h : List SystemObservation) : Prop :=
  ∀ t, Nested (s.currentThreadContext t) (s.callStacks t) (scopeEvents t h)

/-- A step that changes the variable and the stack of thread `t` only. -/
theorem AllNested.update {s s' : System} {h e : List SystemObservation} (hn : s.AllNested h)
    (t : ℕ) (hcur : ∀ u, u ≠ t → s'.currentThreadContext u = s.currentThreadContext u)
    (hst : ∀ u, u ≠ t → s'.callStacks u = s.callStacks u)
    (he : ∀ u, u ≠ t → scopeEvents u e = [])
    (ht : Nested (s'.currentThreadContext t) (s'.callStacks t)
      (scopeEvents t h ++ scopeEvents t e)) :
    s'.AllNested (h ++ e) := by
  intro u
  rw [scopeEvents_append]
  by_cases hu : u = t
  · rw [hu]
    exact ht
  · rw [hcur u hu, hst u hu, he u hu, List.append_nil]
    exact hn u

/-- A step of thread `t` that exchanges nothing, in its innermost call `a`. -/
theorem AllNested.goOn {s s' : System} {h e : List SystemObservation} (hn : s.AllNested h)
    {t : ℕ} {a b : Activation} {outer : List Activation} (hs : s.callStacks t = a :: outer)
    (hcur : s'.currentThreadContext = s.currentThreadContext)
    (hst : s'.callStacks = Function.update s.callStacks t (b :: outer))
    (he : ∀ u, scopeEvents u e = [])
    (ha : a.inRunImpl = true) (hb : b.inRunImpl = true) (hctx : b.context = a.context)
    (hold : b.oldContext = a.oldContext) (hrun : b.frame.run = a.frame.run) :
    s'.AllNested (h ++ e) := by
  apply hn.update t
  · intro u _
    rw [hcur]
  · intro u hu
    rw [hst, Function.update_of_ne hu]
  · intro u _
    exact he u
  · rw [hcur, hst, Function.update_self, he, List.append_nil]
    have ht := hn t
    rw [hs] at ht
    exact ht.move ha hb hctx hold hrun

/-- A step after which every variable and stack is what it was. -/
theorem AllNested.same {s s' : System} {h e : List SystemObservation} (hn : s.AllNested h)
    (hcur : s'.currentThreadContext = s.currentThreadContext) (hst : s'.callStacks = s.callStacks)
    (he : ∀ u, scopeEvents u e = []) : s'.AllNested (h ++ e) := by
  intro u
  rw [scopeEvents_append, he, List.append_nil, hcur, hst]
  exact hn u

/-! ### Every step keeps the scopes nested -/

/-- A call that goes on in `RunImpl` is inside it, and does not come to a
point before it. -/
theorem inRunImpl_of_goes {x y : GrpcContext} {a : Activation} {pc : LoopPc}
    {e : List Observation} (h : RunImplGoes x a.frame y pc e) :
    a.inRunImpl = true ∧ pc ≠ .registered := by
  unfold Activation.inRunImpl
  cases h with
  | next hpc h =>
    rw [hpc]
    obtain ⟨cq, -, heq⟩ := Option.map_eq_some_iff.mp h
    refine ⟨rfl, ?_⟩
    rintro rfl
    split at heq <;> cases heq
  | step h =>
    constructor
    · cases hpc : a.frame.pc with
      | registered | exited =>
        rw [hpc] at h
        cases h
      | _ => rfl
    · rintro rfl
      unfold runImplStep at h
      cases hq : x.tryScheduleRemoteQueuedItems <;> grind

theorem inRunImpl_of_pc {a : Activation} {pc : LoopPc} (hpc : a.frame.pc = pc)
    (hr : pc ≠ .registered) (he : ∀ b, pc ≠ .exited b) : a.inRunImpl = true := by
  unfold Activation.inRunImpl
  rw [hpc]
  cases pc with
  | registered => exact absurd rfl hr
  | exited b => exact absurd rfl (he b)
  | _ => rfl

/-- The flags of the frames do not matter. -/
theorem AllNested.map {s s' : System} {h : List SystemObservation} (hn : s.AllNested h)
    {f : Activation → Activation} (hpc : ∀ a, (f a).frame.pc = a.frame.pc)
    (hctx : ∀ a, (f a).context = a.context) (hold : ∀ a, (f a).oldContext = a.oldContext)
    (hrun : ∀ a, (f a).frame.run = a.frame.run)
    (hcur : s'.currentThreadContext = s.currentThreadContext)
    (hst : ∀ u, s'.callStacks u = (s.callStacks u).map f) : s'.AllNested h := by
  intro u
  rw [hcur, hst]
  exact (hn u).map hpc hctx hold hrun

/-- **The step lemma for the scopes.** -/
theorem AllNested.step {s s' : System} {h e : List SystemObservation} (hn : s.AllNested h)
    (hstep : SystemStep owner s s' e) : s'.AllNested (h ++ e) := by
  cases hstep with
  | @run t c calls runs hu =>
    have hfree := (Bool.and_eq_true_iff.mp hu).2
    apply hn.update t
    · intro u _
      rfl
    · intro u hu
      exact Function.update_of_ne hu _ _
    · intro u _
      rfl
    · show Nested (s.currentThreadContext t) (Function.update s.callStacks t _ t) _
      rw [Function.update_self]
      exact (List.append_nil (scopeEvents t h)).symm ▸ (hn t).call hfree rfl
  | @enter t a outer hs hpc =>
    have ht := hn t
    rw [hs] at ht
    have ha : a.inRunImpl = false := by simp [Activation.inRunImpl, hpc]
    apply hn.update t
    · intro u hu
      exact Function.update_of_ne hu _ _
    · intro u hu
      exact Function.update_of_ne hu _ _
    · intro u hu
      simp [scopeEvents, scopeEvent, Ne.symm hu]
    · have he : scopeEvents t [.entered t a.frame.run (s.currentThreadContext t)]
          = [.enter (a.frame.run, s.currentThreadContext t)] := by simp [scopeEvents, scopeEvent]
      rw [he]
      show Nested (Function.update s.currentThreadContext t _ t)
        (Function.update s.callStacks t _ t) _
      rw [Function.update_self, Function.update_self]
      exact ht.enter (b := { a.goto .loopTop with oldContext := s.currentThreadContext t }) ha
        rfl rfl
  | @goOn t a outer x pc e hs hg hpc =>
    obtain ⟨ha, hr⟩ := inRunImpl_of_goes hg
    exact hn.goOn hs rfl rfl (fun u => scopeEvents_at u _ e) ha (inRunImpl_of_pc rfl hr hpc)
      rfl rfl rfl
  | @exit t a outer x b e hs hg =>
    obtain ⟨ha, -⟩ := inRunImpl_of_goes hg
    have ht := hn t
    rw [hs] at ht
    apply hn.update t
    · intro u hu
      exact Function.update_of_ne hu _ _
    · intro u hu
      exact Function.update_of_ne hu _ _
    · intro u hu
      rw [scopeEvents_append, scopeEvents_at]
      simp [scopeEvents, scopeEvent, Ne.symm hu]
    · have he : scopeEvents t [.left t a.frame.run a.oldContext]
          = [.leave (a.frame.run, a.oldContext)] := by simp [scopeEvents, scopeEvent]
      rw [scopeEvents_append, scopeEvents_at, he]
      show Nested (Function.update s.currentThreadContext t _ t)
        (Function.update s.callStacks t _ t) _
      rw [Function.update_self, Function.update_self]
      exact ht.exit ha rfl
  | @leave t a outer b calls hs hpc =>
    have ht := hn t
    rw [hs] at ht
    have ha : a.inRunImpl = false := by simp [Activation.inRunImpl, hpc]
    apply hn.update t
    · intro u _
      rfl
    · intro u hu
      exact Function.update_of_ne hu _ _
    · intro u _
      rfl
    · show Nested (s.currentThreadContext t) (Function.update s.callStacks t _ t) _
      rw [Function.update_self]
      exact (List.append_nil (scopeEvents t h)).symm ▸ ht.returned ha
  | @executeStop t a outer run rest hs hpc =>
    have ha : a.inRunImpl = true := by simp [Activation.inRunImpl, hpc]
    have hmid : (s.setStack t (a.goto (.draining rest) :: outer)).AllNested
        (h ++ [.at a.context (.executed (.stopOperation run))]) :=
      hn.goOn hs rfl rfl (fun u => rfl) ha rfl rfl rfl rfl
    exact hmid.map (Activation.seeStop_pc run) (Activation.seeStop_context run)
      (Activation.seeStop_oldContext run) (Activation.seeStop_run run) rfl (fun u => rfl)
  | @executeSchedule t a outer id rest x hs hpc hc hx =>
    exact hn.goOn hs rfl rfl (fun u => rfl) (by simp [Activation.inRunImpl, hpc]) rfl rfl rfl rfl
  | @executeScheduleFails t a outer id rest hs hpc hc =>
    exact hn.goOn hs rfl rfl (fun u => rfl) (by simp [Activation.inRunImpl, hpc]) rfl rfl rfl rfl
  | @executeRequest t a outer id rest hs hpc ok =>
    exact hn.goOn hs rfl rfl (fun u => rfl) (by simp [Activation.inRunImpl, hpc]) rfl rfl rfl rfl
  | @setValueThrows t a outer id ok rest hs hpc =>
    exact hn.goOn hs rfl rfl (fun u => rfl) (by simp [Activation.inRunImpl, hpc]) rfl rfl rfl rfl
  | @receiverReturns t a outer id result rest hs hpc o =>
    exact hn.goOn hs rfl rfl (fun u => rfl) (by simp [Activation.inRunImpl, hpc]) rfl rfl rfl rfl
  | startRemote | startDirect | signal | finishRpc | shutDown =>
    exact hn.same rfl rfl (fun u => rfl)
  | @requestStopLocal t run calls call hc =>
    have hmid : s.AllNested (h ++ [.at call.context (.arrived .direct (.stopOperation run))]) :=
      hn.same rfl rfl (fun u => rfl)
    exact hmid.map (Activation.requestStop_pc run) (Activation.requestStop_context run)
      (Activation.requestStop_oldContext run) (Activation.requestStop_run run) rfl (fun u => rfl)
  | @requestStopRemote t run calls call hc =>
    have hmid : s.AllNested (h ++ [.at call.context (.enqueued (.stopOperation run))]) :=
      hn.same rfl rfl (fun u => rfl)
    exact hmid.map (Activation.requestStop_pc run) (Activation.requestStop_context run)
      (Activation.requestStop_oldContext run) (Activation.requestStop_run run) rfl (fun u => rfl)

end System

end Agrpc
