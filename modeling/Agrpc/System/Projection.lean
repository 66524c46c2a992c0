/-
Agrpc/System/Projection.lean

Every context of the system is the machine of one context.

`contextMachine` has one loop thread and starters of which it only knows
whether they run on it; in the system, threads run several contexts in turn and
inside each other, and every call decides by `current_thread_context` where it
goes.  `projects_to_context` connects the two: whatever the system does is, seen from
one context, something `contextMachine` does, with the same observations in the
same order.  What is proved of all runs of `contextMachine` therefore holds of
every context of the system.

The one condition is the data race that `Agrpc.Context.Loop` leaves out: no
thread calls `Run` on the context while another is in a `Run` call on it.
-/
import Agrpc.Context.Frames
import Agrpc.Lib.Projection
import Agrpc.System.View

namespace Agrpc

open Interleaving

/-! ### Actions and observations of a context -/

/-- The context of the innermost `Run` call of thread `t`. -/
def System.topContext (s : System) (t : ℕ) : Option ℕ :=
  (s.callStacks t).head?.map Activation.context

/-- What an action of the system is to context `c`: the same action, on the
loop thread or not as `current_thread_context` says, or nothing. -/
def projectAction (owner : ℕ → ℕ) (T : List ℕ) (c : ℕ) (s : System) :
    SystemAction → Option Action
  | .run _ d => if d = c then some .run else none
  | .loop t => if s.topContext t = some c then some .loop else none
  | .next t r => if s.topContext t = some c then some (.next r) else none
  | .setValueThrows t => if s.topContext t = some c then some .setValueThrows else none
  | .receiverReturns t => if s.topContext t = some c then some .receiverReturns else none
  | .start t id =>
      if owner id = c then
        some (if s.isRunningOnThisThread t c then .startOnLoop id else .start id)
      else none
  | .requestStop t run =>
      if T[run]? = some c then
        some (if s.isRunningOnThisThread t c then .requestStopOnLoop (runNumber T c run)
          else .requestStop (runNumber T c run))
      else none
  | .signal t =>
      match s.signalling t with
      | some (d, op) => if d = c then some (.signal (op.rename (runNumber T c))) else none
      | none => none
  | .finishRpc d id ok => if d = c then some (.finishRpc id ok) else none
  | .shutDown d => if d = c then some .shutDown else none

/-- What is observed of context `c`, in its numbering of the `Run` calls. -/
def observeOn (T : List ℕ) (c : ℕ) : SystemObservation → Option Observation
  | .at d o => if d = c then some (o.rename (runNumber T c)) else none
  | _ => none

/-- The history of context `c`. -/
def historyOf (T : List ℕ) (c : ℕ) (h : List SystemObservation) : List Observation :=
  h.filterMap (observeOn T c)

section Observations

variable {T : List ℕ} {c d : ℕ}

theorem observeOn_on (o : Observation) :
    observeOn T c (.at c o) = some (o.rename (runNumber T c)) := if_pos rfl

theorem observeOn_off (h : d ≠ c) (o : Observation) : observeOn T c (.at d o) = none := if_neg h

theorem historyOf_at (e : List Observation) :
    historyOf T c (e.map (.at c)) = e.map (Observation.rename (runNumber T c)) := by
  induction e with
  | nil => rfl
  | cons o e ih =>
    show List.filterMap _ (SystemObservation.at c o :: e.map (.at c)) = _
    rw [List.filterMap_cons_some (observeOn_on o)]
    exact congrArg _ ih

theorem historyOf_at_off (h : d ≠ c) (e : List Observation) :
    historyOf T c (e.map (.at d)) = [] := by
  induction e with
  | nil => rfl
  | cons o e ih =>
    show List.filterMap _ (SystemObservation.at d o :: e.map (.at d)) = _
    rw [List.filterMap_cons_none (observeOn_off h o)]
    exact ih

end Observations

/-! ### What is known of every state of a run -/

namespace System

/-- What the projection of a step uses of the state before it. -/
structure Known (owner : ℕ → ℕ) (T : List ℕ) (s : System) : Prop where
  current : ∀ t,
    s.currentThreadContext t = (insides (s.callStacks t)).head?.map Activation.context
  suspended : ∀ t, ∀ a ∈ (s.callStacks t).tail, a.inReceiver = true
  calls : CallsOk s
  callbacks : CallbacksOk s
  contexts : ∀ r call, s.calls r = some call → T[r]? = some call.context
  holding : Holding (BelongsTo owner T) s
  alive : ∀ id, (s.ops id).destroyed = false

variable {owner : ℕ → ℕ} {T : List ℕ} {c t : ℕ} {s s' : System} {x : State}
  {e : List SystemObservation} {a : Activation} {outer : List Activation}
  {item : OperationBase} {rest : List OperationBase}

/-- No operation is destroyed in the system. -/
theorem alive_of_move {act : SystemAction} (hmove : SystemMove owner s act s' e)
    (h : ∀ id, (s.ops id).destroyed = false) (id : ℕ) : (s'.ops id).destroyed = false := by
  cases hmove with
  | @executeSchedule t a outer k rest y hs hpc hfn hc hx | @startDirect t k y hst hu hc hx
  | @receiverReturns t a outer k result rest hs hpc | @startRemote t k hst hu hc =>
    show (Function.update s.ops k _ id).destroyed = false
    by_cases hid : id = k
    · rw [hid, Function.update_self]
      exact h k
    · rw [Function.update_of_ne hid]
      exact h id
  | @loop t a outer y pc o hs hx | @next t r a outer y pc o hs hpc hx =>
    cases pc <;> exact h id
  | _ => exact h id

theorem known_of_visits {as : List SystemAction} {h : List SystemObservation}
    (hv : (systemMachine owner).Visits as s h) : Known owner (runContexts as) s := by
  obtain ⟨as', hp, hrun⟩ := id hv
  obtain ⟨hn, -, -, -⟩ := nested_owned_of_exec hrun
  obtain ⟨hC, hB⟩ := calls_of_exec hrun
  refine ⟨fun t => (hn t).current_eq, fun t => (hn t).suspended, hC, hB,
    fun r call hcall => (calls_of_visits hv r call hcall).1, (holding_of_visits hv).1, ?_⟩
  refine Machine.exec_induction (M := systemMachine owner)
    (I := fun s _ => ∀ id, (s.ops id).destroyed = false) (fun id => rfl) ?_ hrun
  intro s h a s' e halive hs
  have hs' : (if s.aborted then none else s.step owner a) = some (s', e) := hs
  exact alive_of_move (system_move_cases (Option.ite_none_left_eq_some.mp hs').2) halive

namespace Known

/-- The number of a call says which context it is on. -/
theorem context_of_call (hK : Known owner T s) (ha : a ∈ s.callStacks t) :
    T[a.frame.run]? = some a.context := by
  obtain ⟨call, hcall, -, hctx⟩ := hK.calls.active t _ _ (mem_keys ha)
  rw [← hctx]
  exact hK.contexts _ _ hcall

/-- Marking the frame of a call on another context. -/
theorem map_off (hK : Known owner T s) {run : ℕ} (hrun : T[run]? ≠ some c)
    {g : RunFrame → RunFrame} (hg : ∀ fr, fr.run ≠ run → g fr = fr) :
    (framesOn c (s.callStacks t)).map g = framesOn c (s.callStacks t) := by
  refine (List.map_congr_left fun fr hfr => ?_).trans (List.map_id _)
  obtain ⟨a, ha, rfl⟩ := List.mem_map.mp hfr
  obtain ⟨hm, hctx⟩ := List.mem_filter.mp ha
  apply hg
  rintro rfl
  apply hrun
  rw [hK.context_of_call hm]
  exact congrArg some (beq_iff_eq.mp hctx)

/-- A thread in user code on which `IsRunningOnThisThread` is true is in a
receiver that the loop of the context executes. -/
theorem top_of_current (hK : Known owner T s) (hu : s.inUserCode t = true)
    (hc : s.currentThreadContext t = some c) :
    ∃ a outer, s.callStacks t = a :: outer ∧ a.context = c ∧ a.inReceiver = true := by
  have hcur := hK.current t
  rw [hc] at hcur
  have hhead := (Bool.and_eq_true_iff.mp hu).2
  rcases hs : s.callStacks t with - | ⟨a, outer⟩
  · rw [hs] at hcur
    cases hcur
  · rw [hs] at hcur hhead
    have hrec : a.inReceiver = true := hhead
    have hin : a.inRunImpl = true := by
      unfold Activation.inReceiver at hrec
      unfold Activation.inRunImpl
      cases hpc : a.frame.pc <;> simp [hpc] at hrec ⊢
    rw [insides_cons_of_inside hin] at hcur
    exact ⟨a, outer, rfl, (Option.some.inj hcur).symm, hrec⟩

/-- A call that runs its loop is the innermost of its thread's variable. -/
theorem current_of_inside (hK : Known owner T s) (hs : s.callStacks t = a :: outer)
    (ha : a.inRunImpl = true) : s.currentThreadContext t = some a.context := by
  rw [hK.current t, hs, insides_cons_of_inside ha]
  rfl

end Known

/-! ### `Run`, the loop and its receivers -/

/-- The step is one of `contextMachine`, or none. -/
def Projects (owner : ℕ → ℕ) (T : List ℕ) (c : ℕ) (s : System) (act : SystemAction) (s' : System)
    (e : List SystemObservation) (x : State) : Prop :=
  Machine.StepProjects contextMachine (projectAction owner T c) (observeOn T c)
    (SeenFrom owner T c) s act s' e x

theorem topContext_of_stack (hs : s.callStacks t = a :: outer) :
    s.topContext t = some a.context := by
  unfold topContext
  rw [hs]
  rfl

theorem projectAction_loop_off (hs : s.callStacks t = a :: outer) (ha : a.context ≠ c)
    {b : Action} : (if s.topContext t = some c then some b else none) = none := by
  rw [topContext_of_stack hs, if_neg]
  exact fun heq => ha (Option.some.inj heq)

theorem projectAction_loop_on (hs : s.callStacks t = a :: outer) (ha : a.context = c)
    {b : Action} : (if s.topContext t = some c then some b else none) = some b := by
  rw [topContext_of_stack hs, if_pos (congrArg some ha)]

/-- A receiver's code runs on the thread of the calls on `c`. -/
theorem inReceiver_of_frames {fs : List RunFrame}
    (hf : x.frames = a.frame.rename (runNumber T c) :: fs)
    (ha : a.inReceiver = true) : x.inReceiver = true := by
  unfold Activation.inReceiver at ha
  have hp : x.pc? = some (a.frame.pc.rename (runNumber T c)) := State.pc?_of_frames hf
  unfold State.inReceiver
  rw [hp]
  cases hpc : a.frame.pc <;> simp [hpc, LoopPc.rename] at ha ⊢

/-- On a thread whose calls are all in a receiver. -/
theorem free_of_frames {stack : List Activation} (hall : ∀ a ∈ stack, a.inReceiver = true)
    (hf : x.frames = (framesOn c stack).map (RunFrame.rename (runNumber T c))) :
    x.frames = [] ∨ x.inReceiver = true := by
  rcases hfr : framesOn c stack with - | ⟨f, fs⟩
  · rw [hfr] at hf
    exact .inl hf
  · have hm : f ∈ framesOn c stack := by
      rw [hfr]
      exact List.mem_cons_self
    obtain ⟨a, ha, rfl⟩ := List.mem_map.mp hm
    rw [hfr, List.map_cons] at hf
    exact .inr (inReceiver_of_frames hf (hall a (List.mem_filter.mp ha).1))

/-- `Run` is called. -/
theorem run_projects (h : SeenFrom owner T c s x) (hK : Known owner T s) {d : ℕ}
    (hu : s.inUserCode t = true) (hT : T[s.runs]? = some d)
    (hone : d = c → ∀ u, u ≠ t → ∀ a ∈ s.callStacks u, a.context ≠ c) :
    Projects owner T c s (.run t d)
      { s.setStack t ({ context := d, frame := { run := s.runs } } :: s.callStacks t) with
        calls := Function.update s.calls s.runs (some { thread := t, context := d })
        runs := s.runs + 1 } [] x := by
  by_cases hd : d = c
  · subst hd
    have hother : ∀ u, u ≠ t → framesOn d (s.callStacks u) = [] :=
      fun u hut => framesOn_eq_nil (hone rfl u hut)
    have hframes := h.frames.push hother
    have hall : ∀ a ∈ s.callStacks t, a.inReceiver = true := by
      have hhead := (Bool.and_eq_true_iff.mp hu).2
      have htail := hK.suspended t
      cases hs : s.callStacks t with
      | nil => exact fun a ha => absurd ha List.not_mem_nil
      | cons a outer =>
        rw [hs] at hhead htail
        exact List.forall_mem_cons.mpr ⟨hhead, htail⟩
    have hfree : (x.frames.isEmpty || x.inReceiver) = true := by
      rcases free_of_frames hall hframes with hnil | hrec
      · rw [hnil]
        rfl
      · rw [hrec, Bool.or_true]
    have hstep : contextMachine.step x .run
        = some ({ x with frames := { run := x.runs } :: x.frames, runs := x.runs + 1 }, []) :=
      if_pos hfree
    refine .move (if_pos rfl) rfl hstep ⟨h.context, h.ops, ?_, ?_, h.signalling⟩
    · have hf := FramesSeen.update (ρ := runNumber T d) hother
        ({ context := d, frame := { run := s.runs } } :: s.callStacks t)
      have hcons : framesOn d ({ context := d, frame := { run := s.runs } } :: s.callStacks t)
          = { run := s.runs } :: framesOn d (s.callStacks t) := framesOn_cons_on rfl
      rw [hcons, List.map_cons, ← hframes] at hf
      show FramesSeen _ d _ ({ run := x.runs } :: x.frames)
      rw [h.runs, ← runNumber_of_on hT]
      exact hf
    · show x.runs + 1 = callsOn T d (s.runs + 1)
      rw [h.runs, callsOn_succ_of_on hT]
  · have hne : T[s.runs]? ≠ some c := by
      rw [hT]
      exact fun heq => hd (Option.some.inj heq)
    refine .skip (if_neg hd) ?_ rfl
    refine h.congr rfl (fun _ _ => rfl) ?_ (callsOn_succ_of_not_on hne) (fun _ _ => Iff.rfl)
    intro u
    show framesOn c (Function.update s.callStacks t _ u) = _
    by_cases hut : u = t
    · rw [hut, Function.update_self, framesOn_cons_off hd]
    · rw [Function.update_of_ne hut]

/-- `RunImpl` between two program points, as a step of `contextMachine`. -/
theorem step_of_runImplStep {f : RunFrame} {fs : List RunFrame} {y : GrpcContext} {pc : LoopPc}
    {o : List Observation} (hf : x.frames = f :: fs)
    (hx : runImplStep x.context f.shouldStop f.pc = some (y, pc, o)) :
    contextMachine.step x .loop = some ({ x with context := y, frames := f.goto pc :: fs }, o) := by
  show x.step .loop = _
  simp only [State.step, hf]
  unfold State.loopStep
  rcases hpc : f.pc with - | - | ⟨- | ⟨item, rest⟩⟩ | ⟨id, result, rest⟩ | - | - | - | submitted |
    - | - | b
  all_goals
    rw [hpc] at hx
    first
      | cases hx; done
      | exact congrArg (Option.map _) hx

/-- The `Next` call, as a step of `contextMachine`. -/
theorem step_of_runImplNext {f : RunFrame} {fs : List RunFrame} {r : NextResult}
    {y : GrpcContext} {pc : LoopPc} {o : List Observation} (hf : x.frames = f :: fs)
    (hpc : f.pc = .callNext) (hx : runImplNext x.context r = some (y, pc, o)) :
    contextMachine.step x (.next r)
      = some ({ x with context := y, frames := f.goto pc :: fs }, o) := by
  show x.step (.next r) = _
  simp only [State.step, hf, if_pos hpc, hx]
  rfl

/-- The loop goes on, in a call on `c`. -/
theorem seen_goOn (h : SeenFrom owner T c s x) (hs : s.callStacks t = a :: outer)
    (ha : a.context = c) (y : GrpcContext) (pc : LoopPc) (o : List Observation) :
    SeenFrom owner T c (s.goOn t a outer y pc o).1
        { x with
          context := y.rename (runNumber T c)
          frames := (a.frame.rename (runNumber T c)).goto (pc.rename (runNumber T c))
            :: (framesOn c outer).map (RunFrame.rename (runNumber T c)) } ∧
      historyOf T c (s.goOn t a outer y pc o).2 = o.map (Observation.rename (runNumber T c)) := by
  subst ha
  have hctx := h.setContext y
  have hst := hctx.setStack (b := a.goto pc) hs rfl rfl
  have hhist := historyOf_at (T := T) (c := a.context) o
  cases pc with
  | exited b =>
    refine ⟨⟨hst.context, hst.ops, hst.frames, hst.runs, hst.signalling⟩, ?_⟩
    show List.filterMap _ (_ ++ [_]) = _
    rw [List.filterMap_append]
    exact (List.append_nil _).trans hhist
  | _ => exact ⟨hst, hhist⟩

/-- The loop goes on, in a call on another context. -/
theorem seen_goOn_off (h : SeenFrom owner T c s x) (hs : s.callStacks t = a :: outer)
    (ha : a.context ≠ c) (y : GrpcContext) (pc : LoopPc) (o : List Observation) :
    SeenFrom owner T c (s.goOn t a outer y pc o).1 x ∧
      historyOf T c (s.goOn t a outer y pc o).2 = [] := by
  have hctx := h.setContext_off ha y
  have hst : SeenFrom owner T c ((s.setContext a.context y).setStack t (a.goto pc :: outer)) x :=
    hctx.off hs ha rfl (framesOn_cons_off ha) rfl (fun _ _ => rfl) rfl rfl
  have hhist := historyOf_at_off (T := T) ha o
  cases pc with
  | exited b =>
    refine ⟨⟨hst.context, hst.ops, hst.frames, hst.runs, hst.signalling⟩, ?_⟩
    show List.filterMap _ (_ ++ [_]) = _
    rw [List.filterMap_append]
    exact (List.append_nil _).trans hhist
  | _ => exact ⟨hst, hhist⟩

theorem loop_projects (h : SeenFrom owner T c s x) (hs : s.callStacks t = a :: outer)
    {y : GrpcContext} {pc : LoopPc} {o : List Observation}
    (hx : runImplStep (s.contexts a.context) a.frame.shouldStop a.frame.pc = some (y, pc, o)) :
    Projects owner T c s (.loop t) (s.goOn t a outer y pc o).1 (s.goOn t a outer y pc o).2 x := by
  by_cases ha : a.context = c
  · obtain ⟨hR, hhist⟩ := seen_goOn h hs ha y pc o
    refine .move (projectAction_loop_on hs ha) hhist ?_ hR
    have hren := runImplStep_rename (runNumber T c) (s.contexts a.context) a.frame.shouldStop
      a.frame.pc
    rw [hx, ha, ← h.context] at hren
    exact step_of_runImplStep (h.frames.top hs ha).1 hren
  · obtain ⟨hR, hhist⟩ := seen_goOn_off h hs ha y pc o
    exact .skip (projectAction_loop_off hs ha) hR hhist

theorem next_projects (h : SeenFrom owner T c s x) (hs : s.callStacks t = a :: outer)
    (hpc : a.frame.pc = .callNext) {r : NextResult} {y : GrpcContext} {pc : LoopPc}
    {o : List Observation} (hx : runImplNext (s.contexts a.context) r = some (y, pc, o)) :
    Projects owner T c s (.next t r) (s.goOn t a outer y pc o).1 (s.goOn t a outer y pc o).2 x := by
  by_cases ha : a.context = c
  · obtain ⟨hR, hhist⟩ := seen_goOn h hs ha y pc o
    refine .move (projectAction_loop_on hs ha) hhist ?_ hR
    have hren := runImplNext_rename (runNumber T c) (s.contexts a.context) r
    rw [hx, ha, ← h.context] at hren
    have hpc' : (a.frame.rename (runNumber T c)).pc = .callNext := by
      show a.frame.pc.rename _ = _
      rw [hpc]
      rfl
    exact step_of_runImplNext (h.frames.top hs ha).1 hpc' hren
  · obtain ⟨hR, hhist⟩ := seen_goOn_off h hs ha y pc o
    exact .skip (projectAction_loop_off hs ha) hR hhist

/-- `RunImpl` is entered. -/
theorem enter_projects (h : SeenFrom owner T c s x) (hs : s.callStacks t = a :: outer)
    (hpc : a.frame.pc = .registered) :
    Projects owner T c s (.loop t)
      ((s.setStack t
          ({ a.goto .loopTop with oldContext := s.currentThreadContext t } :: outer)).setCurrent t
        (some a.context))
      [.entered t a.frame.run (s.currentThreadContext t)] x := by
  by_cases ha : a.context = c
  · have hst := h.setStack (b := { a.goto .loopTop with oldContext := s.currentThreadContext t })
      hs ha ha
    have hstep : contextMachine.step x .loop
        = some ({ x with
          frames := (a.frame.rename (runNumber T c)).goto .loopTop
            :: (framesOn c outer).map (RunFrame.rename (runNumber T c)) }, []) := by
      show x.step .loop = _
      have hpc' : (a.frame.rename (runNumber T c)).pc = .registered := by
        show a.frame.pc.rename _ = _
        rw [hpc]
        rfl
      simp only [State.step, (h.frames.top hs ha).1, State.loopStep, hpc']
    exact .move (projectAction_loop_on hs ha) rfl hstep
      ⟨hst.context, hst.ops, hst.frames, hst.runs, hst.signalling⟩
  · refine .skip (projectAction_loop_off hs ha) ?_ rfl
    exact h.off hs ha rfl (framesOn_cons_off ha) rfl (fun _ _ => rfl) rfl rfl

/-- `Run` returns. -/
theorem leave_projects (h : SeenFrom owner T c s x) (hK : Known owner T s)
    (hs : s.callStacks t = a :: outer) {b : Bool} (hpc : a.frame.pc = .exited b)
    (hcall : (s.calls a.frame.run).any RunCall.signalling = false) :
    Projects owner T c s (.loop t)
      { s.setStack t outer with calls := Function.update s.calls a.frame.run none } [] x := by
  by_cases ha : a.context = c
  · obtain ⟨hf, hother⟩ := h.frames.top hs ha
    have hpc' : (a.frame.rename (runNumber T c)).pc = .exited b := by
      show a.frame.pc.rename _ = _
      rw [hpc]
      rfl
    -- a callback that is still running would be known to the call
    have hsig : .stopOperation (a.frame.rename (runNumber T c)).run ∉ x.signalling := by
      intro hm
      obtain ⟨u, op, hop, heq⟩ := h.signalling.exists_of_mem hm
      obtain rfl : op = .stopOperation a.frame.run :=
        OperationBase.rename_injective runNumber_injective heq
      obtain ⟨call, hcall', hmarked⟩ := hK.callbacks.known u _ ⟨c, hop⟩
      rw [hcall', Option.any_some, hmarked] at hcall
      cases hcall
    have hstep : contextMachine.step x .loop
        = some ({ x with
          frames := (framesOn c outer).map (RunFrame.rename (runNumber T c)) }, []) := by
      show x.step .loop = _
      simp only [State.step, hf, State.loopStep, hpc', if_neg hsig]
    exact .move (projectAction_loop_on hs ha) rfl hstep
      ⟨h.context, h.ops, .update hother outer, h.runs, h.signalling⟩
  · refine .skip (projectAction_loop_off hs ha) ?_ rfl
    exact h.off hs ha rfl rfl rfl (fun _ _ => rfl) rfl rfl

/-! ### `ExecutePendingLocal` -/

theorem rename_draining (hpc : a.frame.pc = .draining (item :: rest)) :
    (a.frame.rename (runNumber T c)).pc
      = .draining (item.rename (runNumber T c)
        :: rest.map (OperationBase.rename (runNumber T c))) := by
  show a.frame.pc.rename _ = _
  rw [hpc]
  rfl

theorem executeStop_projects (h : SeenFrom owner T c s x) (hK : Known owner T s)
    (hs : s.callStacks t = a :: outer) {run : ℕ}
    (hpc : a.frame.pc = .draining (.stopOperation run :: rest))
    (hcall : (s.calls run).isSome = true) :
    Projects owner T c s (.loop t)
      { s with
        callStacks := fun u =>
          (Function.update s.callStacks t (a.goto (.draining rest) :: outer) u).map
            (Activation.seeStop run) }
      [.at a.context (.executed (.stopOperation run))] x := by
  have hrun : T[run]? = some a.context := (hK.holding.inHand_draining hs hpc).1
  by_cases ha : a.context = c
  · have hst := h.setStack (b := a.goto (.draining rest)) hs ha ha
    -- the call is on `c` too, so it is one of the frames
    have hex : x.exists? (.stopOperation (runNumber T c run)) = true := by
      obtain ⟨call, hcall'⟩ := Option.isSome_iff_exists.mp hcall
      have hctx : call.context = c := by
        have heq := hK.contexts run call hcall'
        rw [hrun, ha] at heq
        exact (Option.some.inj heq).symm
      obtain ⟨a', ha', hkey⟩ := List.mem_map.mp (hK.calls.onStack run call hcall')
      obtain ⟨hrun', hctx'⟩ := Prod.mk.inj hkey
      apply List.any_eq_true.mpr
      refine ⟨_, h.frames.mem ha' (hctx'.trans hctx), beq_iff_eq.mpr ?_⟩
      show runNumber T c a'.frame.run = _
      rw [hrun']
    have hstep : contextMachine.step x .loop
        = some ({ x with
          frames := ((a.frame.rename (runNumber T c)).goto
              (.draining (rest.map (OperationBase.rename (runNumber T c))))
            :: (framesOn c outer).map (RunFrame.rename (runNumber T c))).map
              (·.seeStop (runNumber T c run)) },
          [.executed (.stopOperation (runNumber T c run))]) := by
      show x.step .loop = _
      simp only [State.step, (h.frames.top hs ha).1, State.loopStep, rename_draining hpc]
      exact if_pos hex
    refine .move (projectAction_loop_on hs ha) ?_ hstep
      ⟨h.context, h.ops, ?_, h.runs, h.signalling⟩
    · rw [ha]
      exact List.filterMap_cons_some (observeOn_on _)
    · refine hst.frames.map (g := RunFrame.seeStop run) (Activation.seeStop_context run)
        (fun _ => rfl) ?_
      intro u fr _
      exact RunFrame.rename_seeStop runNumber_injective run fr
  · refine .skip (projectAction_loop_off hs ha) ?_
      (List.filterMap_cons_none (observeOn_off ha _))
    refine h.congr rfl (fun _ _ => rfl) ?_ rfl (fun _ _ => Iff.rfl)
    intro u
    show framesOn c ((Function.update s.callStacks t _ u).map (Activation.seeStop run)) = _
    have hoff : framesOn c (a.goto (.draining rest) :: outer) = framesOn c outer :=
      framesOn_cons_off ha
    have hne : T[run]? ≠ some c := by
      rw [hrun]
      exact fun heq => ha (Option.some.inj heq)
    rw [framesOn_map (g := RunFrame.seeStop run) (Activation.seeStop_context run) (fun _ => rfl),
      framesOn_update_off hs ha hoff]
    exact hK.map_off hne fun fr hfr => if_neg hfr

/-- `item->execute_(item)`, as a step of `contextMachine`. -/
theorem step_of_item {f : RunFrame} {fs : List RunFrame} (hf : x.frames = f :: fs)
    (hpc : f.pc = .draining (item :: rest)) :
    contextMachine.step x .loop = x.executeItem f fs item rest := by
  show x.step .loop = _
  simp only [State.step, hf, State.loopStep, hpc]

/-- What an operation in the batch of a call on `c` looks like from `c`. -/
theorem seen_item (h : SeenFrom owner T c s x) (hK : Known owner T s)
    (hs : s.callStacks t = a :: outer) (ha : a.context = c) {id : ℕ}
    (hpc : a.frame.pc = .draining (.operation id :: rest)) :
    owner id = c ∧ x.ops id = s.ops id ∧ x.exists? (.operation id) = true := by
  have hid : owner id = a.context := (hK.holding.inHand_draining hs hpc).1
  have hops := h.ops id (hid.trans ha)
  refine ⟨hid.trans ha, hops, ?_⟩
  show (!(x.ops id).destroyed) = true
  rw [hops, hK.alive id]
  rfl

theorem executeSchedule_projects (h : SeenFrom owner T c s x) (hK : Known owner T s)
    (hs : s.callStacks t = a :: outer) {id : ℕ}
    (hpc : a.frame.pc = .draining (.operation id :: rest))
    (hfn : (s.ops id).execute = some .onScheduleComplete) {y : GrpcContext}
    (hy : (s.contexts (owner id)).invokeRpc id = some y) :
    Projects owner T c s (.loop t)
      (((s.setStack t (a.goto (.draining rest) :: outer)).setExecute id
        .onRequestComplete).setContext (owner id) y)
      [.at a.context (.executed (.operation id)), .checked t id true,
        .at (owner id) (.rpcInvoked id)] x := by
  by_cases ha : a.context = c
  · obtain ⟨hid, hops, hex⟩ := seen_item h hK hs ha hpc
    subst hid
    have hR := ((h.setStack (b := a.goto (.draining rest)) hs ha ha).setExecute rfl
      .onRequestComplete).setContext y
    have hrpc : x.context.invokeRpc id = some (y.rename (runNumber T (owner id))) := by
      rw [h.context, GrpcContext.rename_invokeRpc, hy]
      rfl
    refine .move (projectAction_loop_on hs ha)
      (k := [.executed (.operation id), .rpcInvoked id]) ?_ ?_ hR
    · rw [ha, List.filterMap_cons_some (observeOn_on _), List.filterMap_cons_none rfl,
        List.filterMap_cons_some (observeOn_on _)]
      rfl
    · rw [step_of_item (h.frames.top hs ha).1 (rename_draining hpc)]
      simp only [State.executeItem, OperationBase.rename, if_pos hex, hops, hfn,
        State.startAsyncRpc, hrpc]
      rfl
  · have hid : owner id ≠ c := by
      have heq : owner id = a.context := (hK.holding.inHand_draining hs hpc).1
      rw [heq]
      exact ha
    refine .skip (projectAction_loop_off hs ha) ?_ ?_
    · have hst : SeenFrom owner T c (s.setStack t (a.goto (.draining rest) :: outer)) x :=
        h.off hs ha rfl (framesOn_cons_off ha) rfl (fun _ _ => rfl) rfl rfl
      exact (hst.setOperation_off hid _).setContext_off hid y
    · rw [List.filterMap_cons_none (observeOn_off ha _), List.filterMap_cons_none rfl,
        List.filterMap_cons_none (observeOn_off hid _)]
      rfl

/-- `OnRequestComplete`: the receiver is given the value in `event_`. -/
theorem executeRequest_projects (h : SeenFrom owner T c s x) (hK : Known owner T s)
    (hs : s.callStacks t = a :: outer) {id : ℕ}
    (hpc : a.frame.pc = .draining (.operation id :: rest))
    (hfn : (s.ops id).execute = some .onRequestComplete) :
    Projects owner T c s (.loop t)
      (s.setStack t
        (a.goto (.executing id (.value (s.contexts (owner id)).event.ok) rest) :: outer))
      [.at a.context (.executed (.operation id)),
        .at a.context (.setValue id (s.contexts (owner id)).event.ok)] x := by
  by_cases ha : a.context = c
  · obtain ⟨hid, hops, hex⟩ := seen_item h hK hs ha hpc
    subst hid
    have hok : x.context.event.ok = (s.contexts (owner id)).event.ok := by
      rw [h.context]
      rfl
    refine .move (projectAction_loop_on hs ha)
      (k := [.executed (.operation id), .setValue id (s.contexts (owner id)).event.ok]) ?_ ?_
      (h.setStack hs ha ha)
    · rw [ha, List.filterMap_cons_some (observeOn_on _),
        List.filterMap_cons_some (observeOn_on _)]
      rfl
    · rw [step_of_item (h.frames.top hs ha).1 (rename_draining hpc)]
      simp only [State.executeItem, OperationBase.rename, if_pos hex, hops, hfn, hok]
      rfl
  · refine .skip (projectAction_loop_off hs ha)
      (h.off hs ha rfl (framesOn_cons_off ha) rfl (fun _ _ => rfl) rfl rfl) ?_
    rw [List.filterMap_cons_none (observeOn_off ha _),
      List.filterMap_cons_none (observeOn_off ha _)]
    rfl

/-! ### The receivers -/

theorem rename_executing {id : ℕ} {result : Result}
    (hpc : a.frame.pc = .executing id result rest) :
    (a.frame.rename (runNumber T c)).pc
      = .executing id result (rest.map (OperationBase.rename (runNumber T c))) := by
  show a.frame.pc.rename _ = _
  rw [hpc]
  rfl

theorem setValueThrows_projects (h : SeenFrom owner T c s x) (hK : Known owner T s)
    (hs : s.callStacks t = a :: outer) {id : ℕ} {ok : Bool}
    (hpc : a.frame.pc = .executing id (.value ok) rest) :
    Projects owner T c s (.setValueThrows t)
      (s.setStack t (a.goto (.executing id .error rest) :: outer))
      [.at a.context (.setError id)] x := by
  by_cases ha : a.context = c
  · have hid : owner id = a.context := (hK.holding.inHand_executing hs hpc).1
    have halive : (x.ops id).destroyed = false := by
      rw [h.ops id (hid.trans ha)]
      exact hK.alive id
    refine .move (projectAction_loop_on hs ha) (k := [.setError id]) ?_ ?_ (h.setStack hs ha ha)
    · rw [ha]
      exact List.filterMap_cons_some (observeOn_on _)
    · show x.step .setValueThrows = _
      simp only [State.step, (h.frames.top hs ha).1, rename_executing hpc, halive]
      rfl
  · exact .skip (projectAction_loop_off hs ha)
      (h.off hs ha rfl (framesOn_cons_off ha) rfl (fun _ _ => rfl) rfl rfl)
      (List.filterMap_cons_none (observeOn_off ha _))

theorem receiverReturns_projects (h : SeenFrom owner T c s x) (hK : Known owner T s)
    (hs : s.callStacks t = a :: outer) {id : ℕ} {result : Result}
    (hpc : a.frame.pc = .executing id result rest) :
    Projects owner T c s (.receiverReturns t)
      ((s.setStack t (a.goto (.draining rest) :: outer)).setOperation id
        { s.ops id with finished := true })
      [.at a.context (.completed id result)] x := by
  have hid : owner id = a.context := (hK.holding.inHand_executing hs hpc).1
  by_cases ha : a.context = c
  · have hst := (h.setStack (b := a.goto (.draining rest)) hs ha ha).setOperation id
      { s.ops id with finished := true }
    refine .move (projectAction_loop_on hs ha) (k := [.completed id result]) ?_ ?_ hst
    · rw [ha]
      exact List.filterMap_cons_some (observeOn_on _)
    · show x.step .receiverReturns = _
      simp only [State.step, (h.frames.top hs ha).1, rename_executing hpc, h.ops id (hid.trans ha)]
      rfl
  · have hne : owner id ≠ c := by
      rw [hid]
      exact ha
    have hst : SeenFrom owner T c (s.setStack t (a.goto (.draining rest) :: outer)) x :=
      h.off hs ha rfl (framesOn_cons_off ha) rfl (fun _ _ => rfl) rfl rfl
    exact .skip (projectAction_loop_off hs ha) (hst.setOperation_off hne _)
      (List.filterMap_cons_none (observeOn_off ha _))

/-! ### `start()` and the stop callbacks -/

theorem isRunningOnThisThread_eq_false (hc : s.currentThreadContext t ≠ some c) :
    s.isRunningOnThisThread t c = false := by
  rw [Bool.eq_false_iff]
  exact fun hc' => hc (isRunningOnThisThread_iff.mp hc')

theorem signalling_of_isFree (hfree : s.isFree t = true) : s.signalling t = none :=
  Option.isNone_iff_eq_none.mp hfree

theorem startRemote_projects (h : SeenFrom owner T c s x) {id : ℕ}
    (hst : (s.ops id).started = false) (hu : s.inUserCode t = true)
    (hc : s.currentThreadContext t ≠ some (owner id)) :
    Projects owner T c s (.start t id)
      ((s.setExecute id .onScheduleComplete).scheduleRemote t (owner id) (.operation id))
      [.at (owner id) (.enqueued (.operation id))] x := by
  have hfree := signalling_of_isFree (Bool.and_eq_true_iff.mp hu).1
  by_cases hid : owner id = c
  · subst hid
    have hR := (h.setExecute rfl .onScheduleComplete).scheduleRemote hfree (.operation id)
    have hact : projectAction owner T (owner id) s (.start t id) = some (.start id) := by
      show (if _ then _ else _) = _
      rw [if_pos rfl, isRunningOnThisThread_eq_false hc]
      rfl
    refine .move hact (k := [.enqueued (.operation id)]) ?_ ?_ hR
    · exact List.filterMap_cons_some (observeOn_on _)
    · have hst' : (x.ops id).started = false := by
        rw [h.ops id rfl]
        exact hst
      show x.step (.start id) = _
      simp only [State.step, hst']
      rfl
  · refine .skip (if_neg hid) ?_ (List.filterMap_cons_none (observeOn_off hid _))
    exact (h.setOperation_off hid _).scheduleRemote_off hid hfree _

theorem startDirect_projects (h : SeenFrom owner T c s x) (hK : Known owner T s) {id : ℕ}
    (hst : (s.ops id).started = false) (hu : s.inUserCode t = true)
    (hc : s.currentThreadContext t = some (owner id)) {y : GrpcContext}
    (hy : (s.contexts (owner id)).invokeRpc id = some y) :
    Projects owner T c s (.start t id)
      ((s.setExecute id .onRequestComplete).setContext (owner id) y)
      [.checked t id true, .at (owner id) (.rpcInvoked id)] x := by
  by_cases hid : owner id = c
  · subst hid
    have hR := (h.setExecute rfl .onRequestComplete).setContext y
    have hact : projectAction owner T (owner id) s (.start t id) = some (.startOnLoop id) := by
      show (if _ then _ else _) = _
      rw [if_pos rfl, isRunningOnThisThread_iff.mpr hc]
      rfl
    refine .move hact (k := [.rpcInvoked id]) ?_ ?_ hR
    · rw [List.filterMap_cons_none rfl, List.filterMap_cons_some (observeOn_on _)]
      rfl
    · -- the thread is in a receiver of the context's loop
      obtain ⟨a, outer, hs, ha, hrec⟩ := hK.top_of_current hu hc
      have hrec' : x.inReceiver = true := inReceiver_of_frames (h.frames.top hs ha).1 hrec
      have hst' : (x.ops id).started = false := by
        rw [h.ops id rfl]
        exact hst
      have hrpc : x.context.invokeRpc id = some (y.rename (runNumber T (owner id))) := by
        rw [h.context, GrpcContext.rename_invokeRpc, hy]
        rfl
      show x.step (.startOnLoop id) = _
      simp only [State.step, hst', hrec', State.startAsyncRpc, hrpc]
      rfl
  · refine .skip (if_neg hid) ((h.setOperation_off hid _).setContext_off hid y) ?_
    rw [List.filterMap_cons_none rfl, List.filterMap_cons_none (observeOn_off hid _)]
    rfl

/-- A stop callback that was not invoked, of a call on `c`. -/
theorem seen_stopPending (h : SeenFrom owner T c s x) (hK : Known owner T s) {run : ℕ}
    {call : RunCall} (hcall : s.calls run = some call) (hctx : call.context = c)
    (hst : s.stopPending call run = true) : x.stopPending (runNumber T c run) = true := by
  obtain ⟨a, ha, hpending⟩ := List.any_eq_true.mp hst
  obtain ⟨hrun, hreq⟩ := Bool.and_eq_true_iff.mp hpending
  obtain rfl := beq_iff_eq.mp hrun
  obtain ⟨call', hcall', -, hctx'⟩ := hK.calls.active _ _ _ (mem_keys ha)
  rw [hcall] at hcall'
  obtain rfl := Option.some.inj hcall'
  apply List.any_eq_true.mpr
  exact ⟨_, h.frames.mem ha (hctx'.symm.trans hctx),
    Bool.and_eq_true_iff.mpr ⟨beq_self_eq_true _, hreq⟩⟩

/-- The frames after the stop callback of a call on `c` was invoked. -/
theorem seen_requestStop (h : SeenFrom owner T c s x) (run : ℕ) :
    FramesSeen (runNumber T c) c (fun u => (s.callStacks u).map (Activation.requestStop run))
      (x.frames.map (·.requestStop (runNumber T c run))) := by
  refine h.frames.map (g := RunFrame.requestStop run) (Activation.requestStop_context run)
    (fun _ => rfl) ?_
  intro u fr _
  exact RunFrame.rename_requestStop runNumber_injective run fr

/-- The frames after that of a call on another context was. -/
theorem framesOn_requestStop_off (hK : Known owner T s) {run : ℕ} (hrun : T[run]? ≠ some c)
    (u : ℕ) : framesOn c ((s.callStacks u).map (Activation.requestStop run))
      = framesOn c (s.callStacks u) := by
  rw [framesOn_map (g := RunFrame.requestStop run) (Activation.requestStop_context run)
    (fun _ => rfl)]
  exact hK.map_off hrun fun fr hfr => if_neg hfr

/-- The stop callback of a call on `c` is invoked on the loop thread: in a
receiver, or by the call itself, which a receiver made. -/
theorem onLoop_of_requestStop (h : SeenFrom owner T c s x) (hK : Known owner T s) {run : ℕ}
    {call : RunCall} (hcall : s.calls run = some call) (hctx : call.context = c)
    (hu : (s.inUserCode t || s.registers t run) = true)
    (hc : s.currentThreadContext t = some c) :
    (x.inReceiver || x.inNestedRun (runNumber T c run)) = true := by
  rcases Bool.or_eq_true_iff.mp hu with hu | hreg
  · obtain ⟨a, outer, hs, ha, hrec⟩ := hK.top_of_current hu hc
    rw [inReceiver_of_frames (h.frames.top hs ha).1 hrec, Bool.true_or]
  · have hhead := (Bool.and_eq_true_iff.mp hreg).2
    rcases hs : s.callStacks t with - | ⟨a, outer⟩
    · rw [hs] at hhead
      cases hhead
    · rw [hs] at hhead
      obtain ⟨hrun, hpc⟩ := Bool.and_eq_true_iff.mp hhead
      obtain rfl := beq_iff_eq.mp hrun
      have hpc : a.frame.pc = .registered := beq_iff_eq.mp hpc
      have ham : a ∈ s.callStacks t := by
        rw [hs]
        exact List.mem_cons_self
      obtain ⟨call', hcall', -, hctx'⟩ := hK.calls.active _ _ _ (mem_keys ham)
      rw [hcall] at hcall'
      obtain rfl := Option.some.inj hcall'
      -- the variable names the call in whose receiver the new one was made
      have hcur := hK.current t
      have htail := hK.suspended t
      have hout : a.inRunImpl = false := by simp [Activation.inRunImpl, hpc]
      rw [hs] at htail
      rw [hc, hs, insides_cons_of_outside hout] at hcur
      rcases outer with - | ⟨b, outer⟩
      · cases hcur
      · have hin : b.inRunImpl = true := by
          have hrec : b.inReceiver = true := htail b List.mem_cons_self
          unfold Activation.inReceiver at hrec
          unfold Activation.inRunImpl
          cases hb : b.frame.pc <;> simp [hb] at hrec ⊢
        rw [insides_cons_of_inside hin] at hcur
        have hbctx : b.context = c := (Option.some.inj hcur).symm
        have hf := (h.frames.top hs (hctx'.symm.trans hctx)).1
        rw [framesOn_cons_on hbctx, List.map_cons] at hf
        have hnested : x.inNestedRun (runNumber T c a.frame.run) = true := by
          unfold State.inNestedRun
          rw [hf]
          show (_ == _ && a.frame.pc.rename _ == _) = true
          rw [hpc]
          exact Bool.and_eq_true_iff.mpr ⟨beq_self_eq_true _, beq_self_eq_true _⟩
        rw [hnested, Bool.or_true]

theorem requestStopLocal_projects (h : SeenFrom owner T c s x) (hK : Known owner T s) {run : ℕ}
    {call : RunCall} (hcall : s.calls run = some call) (hst : s.stopPending call run = true)
    (hu : (s.inUserCode t || s.registers t run) = true)
    (hc : s.currentThreadContext t = some call.context)
    {calls : ℕ → Option RunCall} :
    Projects owner T c s (.requestStop t run)
      { s.setContext call.context
          ((s.contexts call.context).scheduleLocal (.stopOperation run)) with
        callStacks := fun u => (s.callStacks u).map (Activation.requestStop run)
        calls := calls }
      [.at call.context (.arrived .direct (.stopOperation run))] x := by
  have hT := hK.contexts run call hcall
  by_cases hctx : call.context = c
  · have hpending := seen_stopPending h hK hcall hctx hst
    have hloop := onLoop_of_requestStop h hK hcall hctx hu (hctx ▸ hc)
    subst hctx
    have hact : projectAction owner T call.context s (.requestStop t run)
        = some (.requestStopOnLoop (runNumber T call.context run)) := by
      show (if _ then _ else _) = _
      rw [if_pos hT, isRunningOnThisThread_iff.mpr hc]
      rfl
    have hstep : contextMachine.step x (.requestStopOnLoop (runNumber T call.context run))
        = some (x.stopLocal (runNumber T call.context run),
          [.arrived .direct (.stopOperation (runNumber T call.context run))]) :=
      if_pos (Bool.and_eq_true_iff.mpr ⟨hpending, hloop⟩)
    refine .move hact (List.filterMap_cons_some (observeOn_on _)) hstep
      ⟨?_, h.ops, seen_requestStop h run, h.runs, h.signalling⟩
    have hlocal := GrpcContext.rename_scheduleLocal (runNumber T call.context)
      (s.contexts call.context) (.stopOperation run)
    rw [← h.context] at hlocal
    exact hlocal.trans (h.setContext _).context
  · have hne : T[run]? ≠ some c := by
      rw [hT]
      exact fun heq => hctx (Option.some.inj heq)
    refine .skip (if_neg hne) ?_ (List.filterMap_cons_none (observeOn_off hctx _))
    exact (h.setContext_off hctx _).congr rfl (fun _ _ => rfl) (framesOn_requestStop_off hK hne)
      rfl (fun _ _ => Iff.rfl)

theorem requestStopRemote_projects (h : SeenFrom owner T c s x) (hK : Known owner T s) {run : ℕ}
    {call : RunCall} (hcall : s.calls run = some call) (hst : s.stopPending call run = true)
    (hu : (s.inUserCode t || s.registers t run) = true)
    (hc : s.currentThreadContext t ≠ some call.context)
    {calls : ℕ → Option RunCall} :
    Projects owner T c s (.requestStop t run)
      { s.scheduleRemote t call.context (.stopOperation run) with
        callStacks := fun u => (s.callStacks u).map (Activation.requestStop run)
        calls := calls }
      [.at call.context (.enqueued (.stopOperation run))] x := by
  have hT := hK.contexts run call hcall
  have hfree : s.signalling t = none := by
    rcases Bool.or_eq_true_iff.mp hu with hu | hu
    · exact signalling_of_isFree (Bool.and_eq_true_iff.mp hu).1
    · exact signalling_of_isFree (Bool.and_eq_true_iff.mp hu).1
  by_cases hctx : call.context = c
  · have hpending := seen_stopPending h hK hcall hctx hst
    subst hctx
    have hR := h.scheduleRemote hfree (.stopOperation run)
    have hact : projectAction owner T call.context s (.requestStop t run)
        = some (.requestStop (runNumber T call.context run)) := by
      show (if _ then _ else _) = _
      rw [if_pos hT, isRunningOnThisThread_eq_false hc]
      rfl
    refine .move hact (k := [.enqueued (.stopOperation (runNumber T call.context run))]) ?_
      (if_pos hpending) ⟨hR.context, hR.ops, seen_requestStop h run, hR.runs, hR.signalling⟩
    exact List.filterMap_cons_some (observeOn_on _)
  · have hne : T[run]? ≠ some c := by
      rw [hT]
      exact fun heq => hctx (Option.some.inj heq)
    refine .skip (if_neg hne) ?_ (List.filterMap_cons_none (observeOn_off hctx _))
    exact (h.scheduleRemote_off hctx hfree _).congr rfl (fun _ _ => rfl)
      (framesOn_requestStop_off hK hne) rfl (fun _ _ => Iff.rfl)

/-! ### `SignalRemoteQueue`, gRPC and `ShutDown` -/

theorem signal_projects (h : SeenFrom owner T c s x) {d : ℕ} {op : OperationBase}
    (hsig : s.signalling t = some (d, op)) {y : GrpcContext}
    (hy : (s.contexts d).signalRemoteQueue = some y) {calls : ℕ → Option RunCall} :
    Projects owner T c s (.signal t)
      { s.setContext d y with
        signalling := Function.update s.signalling t none
        calls := calls } [] x := by
  have hact : projectAction owner T c s (.signal t)
      = if d = c then some (.signal (op.rename (runNumber T c))) else none := by
    simp only [projectAction, hsig]
  by_cases hd : d = c
  · subst hd
    rw [if_pos rfl] at hact
    obtain ⟨hmem, hends⟩ := h.signalling.ends hsig
    have hset : x.context.signalRemoteQueue = some (y.rename (runNumber T d)) := by
      rw [h.context, GrpcContext.rename_signalRemoteQueue, hy]
      rfl
    have hstep : contextMachine.step x (.signal (op.rename (runNumber T d)))
        = some ({ x with
          context := y.rename (runNumber T d)
          signalling := x.signalling.erase (op.rename (runNumber T d)) }, []) := by
      show x.step (.signal _) = _
      simp only [State.step, if_pos hmem, hset]
      rfl
    exact .move hact rfl hstep ⟨(h.setContext y).context, h.ops, h.frames, h.runs, hends⟩
  · rw [if_neg hd] at hact
    have hR := h.setContext_off hd y
    refine .skip hact ⟨hR.context, hR.ops, hR.frames, hR.runs, ?_⟩ rfl
    apply h.signalling.update_off
    · intro op' heq
      rw [hsig] at heq
      exact hd (Prod.mk.inj (Option.some.inj heq)).1
    · intro op' heq
      cases heq

theorem finishRpc_projects (h : SeenFrom owner T c s x) {d id : ℕ} {ok : Bool}
    {cq : CompletionQueue} (hq : (s.contexts d).completionQueue.finish id ok = some cq) :
    Projects owner T c s (.finishRpc d id ok)
      (s.setContext d { s.contexts d with completionQueue := cq }) [] x := by
  by_cases hd : d = c
  · subst hd
    refine .move (if_pos rfl) rfl ?_ (h.setContext _)
    show (x.context.completionQueue.finish id ok).map _ = _
    rw [h.context]
    show ((s.contexts d).completionQueue.finish id ok).map _ = _
    rw [hq]
    rfl
  · exact .skip (if_neg hd) (h.setContext_off hd _) rfl

theorem shutDown_projects (h : SeenFrom owner T c s x) {d : ℕ} :
    Projects owner T c s (.shutDown d)
      (s.setContext d { s.contexts d with
        completionQueue := (s.contexts d).completionQueue.shutdown }) [] x := by
  by_cases hd : d = c
  · subst hd
    refine .move (if_pos rfl) rfl ?_ (h.setContext _)
    show some _ = some _
    rw [h.context]
    rfl
  · exact .skip (if_neg hd) (h.setContext_off hd _) rfl

/-! ### Whole runs -/

/-- **The step lemma for the projection.** -/
theorem step_projects {act : SystemAction} (h : SeenFrom owner T c s x) (hK : Known owner T s)
    (hrun : ∀ t d, act = .run t d → T[s.runs]? = some d)
    (hone : ∀ t, act = .run t c → ∀ u, u ≠ t → ∀ a ∈ s.callStacks u, a.context ≠ c)
    (hmove : SystemMove owner s act s' e) : Projects owner T c s act s' e x := by
  cases hmove with
  | @run t d hu =>
    refine run_projects h hK hu (hrun t d rfl) ?_
    rintro rfl
    exact hone t rfl
  | enter hs hpc => exact enter_projects h hs hpc
  | loop hs hx => exact loop_projects h hs hx
  | next hs hpc hx => exact next_projects h hs hpc hx
  | leave hs hpc hcall => exact leave_projects h hK hs hpc hcall
  | executeStop hs hpc hcall => exact executeStop_projects h hK hs hpc hcall
  | executeSchedule hs hpc hfn hc hy => exact executeSchedule_projects h hK hs hpc hfn hy
  | @executeScheduleFails t a outer id rest hs hpc hc =>
    -- the operation is of the context whose loop executes it
    have hid : owner id = a.context := (hK.holding.inHand_draining hs hpc).1
    have hin : a.inRunImpl = true := by simp [Activation.inRunImpl, hpc]
    rw [hid] at hc
    exact absurd (hK.current_of_inside hs hin) hc
  | executeRequest hs hpc hfn => exact executeRequest_projects h hK hs hpc hfn
  | setValueThrows hs hpc => exact setValueThrows_projects h hK hs hpc
  | receiverReturns hs hpc => exact receiverReturns_projects h hK hs hpc
  | startRemote hst hu hc => exact startRemote_projects h hst hu hc
  | startDirect hst hu hc hy => exact startDirect_projects h hK hst hu hc hy
  | requestStopLocal hcall hst hu hc => exact requestStopLocal_projects h hK hcall hst hu hc
  | requestStopRemote hcall hst hu hc => exact requestStopRemote_projects h hK hcall hst hu hc
  | signal hsig hy => exact signal_projects h hsig hy
  | finishRpc hq => exact finishRpc_projects h hq
  | shutDown => exact shutDown_projects h

end System

/-- No thread calls `Run` on context `c` while another is in a `Run` call on
it. -/
def OneRunThread (owner : ℕ → ℕ) (c : ℕ) (as : List SystemAction) : Prop :=
  ∀ s h t, (systemMachine owner).Takes as s h (.run t c) →
    ∀ u, u ≠ t → ∀ a ∈ s.callStacks u, a.context ≠ c

/-- The threads of the `Run` calls on context `c`, in order. -/
def runThreads (c : ℕ) (as : List SystemAction) : List ℕ :=
  as.filterMap fun
    | .run t d => if d = c then some t else none
    | _ => none

theorem mem_runThreads {c t : ℕ} {as : List SystemAction} (h : .run t c ∈ as) :
    t ∈ runThreads c as :=
  List.mem_filterMap.mpr ⟨_, h, if_pos rfl⟩

/-- One thread makes all the `Run` calls on `c`. -/
theorem oneRunThread_of_runThreads {owner : ℕ → ℕ} {c : ℕ} {as : List SystemAction}
    (h : ∀ t ∈ runThreads c as, ∀ u ∈ runThreads c as, t = u) : OneRunThread owner c as := by
  rintro s hist t ht u hu a ha rfl
  obtain ⟨as', -, hrun, -⟩ := id ht
  obtain ⟨call, hcall, rfl, hctx⟩ := (System.calls_of_exec hrun).1.active u _ _
    (System.mem_keys ha)
  have hmem := (System.calls_of_visits ht.visits _ call hcall).2
  rw [hctx] at hmem
  exact hu (h _ (mem_runThreads hmem) t (mem_runThreads ht.mem))

/-- Every step of such a run is one of the context, or none. -/
theorem System.projects_of_takes {owner : ℕ → ℕ} {c : ℕ} {as : List SystemAction}
    (hone : OneRunThread owner c as) {s s' : System} {h : List SystemObservation}
    {act : SystemAction} {e : List SystemObservation} {x : State}
    (ht : (systemMachine owner).Takes as s h act)
    (hs : (systemMachine owner).step s act = some (s', e))
    (hR : SeenFrom owner (runContexts as) c s x) :
    Projects owner (runContexts as) c s act s' e x := by
  have hs' : (if s.aborted then none else s.step owner act) = some (s', e) := hs
  refine step_projects hR (known_of_visits ht.visits) ?_ ?_
    (system_move_cases (Option.ite_none_left_eq_some.mp hs').2)
  · rintro t d rfl
    exact runContexts_next ht
  · rintro t rfl
    exact hone s h t ht

/-- **Every context of the system is the machine of one context.**  Take any
run of the system, with any number of threads and contexts and `Run` calls
nested in any way, in which no two threads are in `Run` on context `c` at once.
Seen from `c` it is a run of `contextMachine`: with the observations of `c`, in
order, ending in the state the system shows to `c`, and with no step but those
that steps of the system are to `c`. -/
theorem System.projects_to_context {owner : ℕ → ℕ} {c : ℕ} {as : List SystemAction}
    (hone : OneRunThread owner c as) {s : System} {h : List SystemObservation}
    (hrun : (systemMachine owner).exec as = some (s, h)) :
    ∃ bs x, contextMachine.exec bs = some (x, historyOf (runContexts as) c h) ∧
      SeenFrom owner (runContexts as) c s x ∧
      ∀ y k b, contextMachine.Takes bs y k b → ∃ s₁ h₁ a,
        (systemMachine owner).Takes as s₁ h₁ a ∧
        projectAction owner (runContexts as) c s₁ a = some b ∧
        SeenFrom owner (runContexts as) c s₁ y := by
  exact Machine.exec_projects (SeenFrom.init owner (runContexts as) c)
    (fun s h a s' e x ht hs hR => projects_of_takes hone ht hs hR) hrun

/-- Two loops: thread 0 runs context 0 and thread 1 context 1.  Thread 2 starts
an operation of context 0, whose receiver starts one of context 1.  Even
operations are of context 0. -/
def twoLoops : List SystemAction := List.flatten
  [[.start 2 0, .run 0 0, .signal 2, .run 1 1], List.replicate 6 (.loop 0),
    [.next 0 (.alarm true)], List.replicate 8 (.loop 0),
    [.finishRpc 0 0 true, .next 0 (.tag 0 true)], List.replicate 3 (.loop 0), [.start 0 1],
    List.replicate 6 (.loop 1), [.signal 0, .next 1 (.alarm true)], List.replicate 8 (.loop 1),
    [.receiverReturns 0, .finishRpc 1 1 false, .next 1 (.tag 1 false)],
    List.replicate 3 (.loop 1), [.receiverReturns 1]]

theorem System.projects_to_context_twoLoops :
    ∃ s h bs x, (systemMachine (· % 2)).exec twoLoops = some (s, h) ∧
      contextMachine.exec bs = some (x, historyOf (runContexts twoLoops) 1 h) ∧
      SeenFrom (· % 2) (runContexts twoLoops) 1 s x ∧
      ∀ y k b, contextMachine.Takes bs y k b → ∃ s₁ h₁ a,
        (systemMachine (· % 2)).Takes twoLoops s₁ h₁ a ∧
        projectAction (· % 2) (runContexts twoLoops) 1 s₁ a = some b ∧
        SeenFrom (· % 2) (runContexts twoLoops) 1 s₁ y := by
  obtain ⟨s, h, hrun⟩ := (systemMachine (· % 2)).exec_of_isSome twoLoops (by decide +kernel)
  have hone : OneRunThread (· % 2) 1 twoLoops := oneRunThread_of_runThreads (by decide)
  obtain ⟨bs, x, hproj⟩ := projects_to_context hone hrun
  exact ⟨s, h, bs, x, hrun, hproj⟩

end Agrpc
