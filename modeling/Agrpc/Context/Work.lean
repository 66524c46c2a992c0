/-
Agrpc/Context/Work.lean

How much work the calls of its users can cause a context.

The steps of the loop are paid for by what it is given, the `Next` calls that
return included.  These are bounded in turn: an alarm's event answers one remote
enqueue, a tag comes back once for an operation that was started, and `Next`
returns false at most once in a `Run` call.  So every step of the loop is caused
by a call of a user (`steps_le_work`): `Run`, `start()` or a stop request.
-/
import Agrpc.Context.Progress

namespace Agrpc

open Interleaving

/-! ### The `Next` calls that return -/

/-- The call is in the loop of `RunImpl`, or on its way there. -/
def LoopPc.inLoop : LoopPc → ℕ
  | exited _ => 0
  | _ => 1

namespace Action

/-- `Next` returned the alarm's event. -/
def alarms : Action → ℕ
  | next (.alarm _) => 1
  | _ => 0

/-- `Next` returned a tag. -/
def tags : Action → ℕ
  | next (.tag _ _) => 1
  | _ => 0

/-- `Next` returned false. -/
def shutdowns : Action → ℕ
  | next .shutdown => 1
  | _ => 0

/-- Something was scheduled from outside. -/
def enqueues : Action → ℕ
  | start _ | requestStop _ => 1
  | _ => 0

/-- A `Run` call. -/
def runs : Action → ℕ
  | run => 1
  | _ => 0

/-- An operation is started. -/
def started? : Action → Option ℕ
  | start id | startOnLoop id => some id
  | _ => none

/-- What an action gives the loop to do but for its `Next` calls. -/
def given : Action → ℕ
  | run => 7
  | start _ | requestStop _ | requestStopOnLoop _ => 2
  | _ => 0

theorem credit_eq (a : Action) :
    a.credit = a.given + 9 * (a.alarms + (a.tags + a.shutdowns)) := by
  cases a with
  | next r => cases r <;> rfl
  | _ => rfl

/-- The steps of the loop a call can cause: those of a `Run` call with the `Next`
that ends it, those of an item, and nine for every event, which is an alarm or
the tag of an operation. -/
def work : Action → ℕ
  | run => 16
  | start _ => 20
  | startOnLoop _ => 9
  | requestStop _ => 11
  | requestStopOnLoop _ => 2
  | _ => 0

theorem work_eq (a : Action) :
    a.work = a.given + 9 * (a.enqueues + (a.started?.toList.length + a.runs)) := by
  cases a <;> rfl

end Action

namespace State

/-! ### Alarms and exits -/

theorem scheduleRemote_wakeUps_le (s : State) (op : OperationBase) :
    (s.scheduleRemote op).wakeUps ≤ s.wakeUps + 1 := by
  simp only [wakeUps, scheduleRemote_signalling, scheduleRemote_completionQueue]
  split
  · omega
  · rw [List.length_cons]
    omega

/-- An alarm's event answers a remote enqueue. -/
theorem alarms_pay :
    Machine.Pays contextMachine (fun _ => True) wakeUps Action.alarms Action.enqueues := by
  intro s a s' e _ hs
  refine ⟨trivial, ?_⟩
  cases step_cases hs with
  | @start id =>
    have hle := scheduleRemote_wakeUps_le (s.setExecute id .onScheduleComplete) (.operation id)
    rw [← Nat.zero_add (wakeUps _)] at hle
    exact hle
  | @requestStop run =>
    have hle := scheduleRemote_wakeUps_le
      { s with frames := s.frames.map (·.requestStop run) } (.stopOperation run)
    rw [← Nat.zero_add (wakeUps _)] at hle
    exact hle
  | signal hop =>
    exact Nat.le_of_eq ((Nat.zero_add _).trans (wakeUps_signal hop))
  | nextAlarm hf hpc ha =>
    simp only [wakeUps, Action.alarms]
    omega
  | _ => exact Nat.le_of_eq (Nat.add_comm _ _)

/-- The calls that have not left the loop. -/
def inLoop (s : State) : ℕ := total (fun f => f.pc.inLoop) s.frames

/-- Moving the innermost call, where it was in the loop. -/
theorem inLoop_goto {s s' : State} {f : RunFrame} {fs : List RunFrame} {pc : LoopPc} {m : ℕ}
    (hf : s.frames = f :: fs) (hf' : s'.frames = f.goto pc :: fs)
    (hle : m + pc.inLoop ≤ f.pc.inLoop) : m + s'.inLoop ≤ s.inLoop + 0 := by
  simp only [inLoop, hf, hf', total_cons, RunFrame.goto_pc]
  omega

/-- `Next` returns false at most once in a `Run` call. -/
theorem shutdowns_pay :
    Machine.Pays contextMachine (fun _ => True) inLoop Action.shutdowns Action.runs := by
  intro s a s' e _ hs
  refine ⟨trivial, ?_⟩
  cases step_cases hs with
  | run =>
    simp only [inLoop, total_cons, Action.shutdowns, Action.runs, LoopPc.inLoop]
    omega
  | leave hf hpc =>
    simp only [inLoop, hf, hpc, total_cons, Action.shutdowns, LoopPc.inLoop]
    omega
  | @requestStop run =>
    have heq := total_pc_map LoopPc.inLoop (fun f => f.requestStop_pc run) s.frames
    exact Nat.le_of_eq ((Nat.zero_add _).trans heq)
  | @requestStopOnLoop run =>
    have heq := total_pc_map LoopPc.inLoop (fun f => f.requestStop_pc run) s.frames
    exact Nat.le_of_eq ((Nat.zero_add _).trans heq)
  | @executeStop f fs run rest hf hpc =>
    have hmoved : 0 + inLoop { s with frames := f.goto (.draining rest) :: fs } ≤ s.inLoop + 0 := by
      apply inLoop_goto hf rfl
      simp only [hpc, LoopPc.inLoop]
      omega
    rw [inLoop, total_pc_map LoopPc.inLoop fun f => f.seeStop_pc run]
    exact hmoved
  | start | startOnLoop | signal | finishRpc | shutDown | destroy =>
    exact Nat.le_of_eq (Nat.zero_add _)
  | enter hf hpc | nothingPending hf hpc | takeBatch hf hpc | batchDone hf hpc
  | executeSchedule hf hpc | executeRequest hf hpc | setValueThrows hf hpc
  | receiverReturns hf hpc | stopSeen hf hpc | stopNotSeen hf hpc | readSubmitted hf hpc
  | readNotSubmitted hf hpc | markInactive hf hpc | dequeueAll hf hpc | assign hf hpc
  | nextAlarm hf hpc | nextTag hf hpc | nextShutdown hf hpc | dispatchAlarm hf hpc
  | dispatchTag hf hpc =>
    apply inLoop_goto hf rfl
    simp only [hpc, LoopPc.inLoop, Action.shutdowns]
    omega

end State

/-! ### Tags -/

/-- The tag of a finished operation, where `Next` returned one. -/
def Observation.returned? : Observation → Option ℕ
  | nextReturned tag _ => tag
  | _ => none

/-- The operations whose tag came back, in order. -/
def returnedIds (h : List Observation) : List ℕ := h.filterMap Observation.returned?

/-- The operations that are started, in order. -/
def startedIds (as : List Action) : List ℕ := as.filterMap Action.started?

theorem returnedIds_append (h e : List Observation) :
    returnedIds (h ++ e) = returnedIds h ++ returnedIds e := List.filterMap_append ..

theorem returnedIds_remote (xs : List OperationBase) :
    returnedIds (xs.map (.arrived .remote)) = [] := by
  induction xs with
  | nil => rfl
  | cons x xs ih => exact ih

theorem count_returnedIds (id : ℕ) (h : List Observation) :
    (returnedIds h).count id = h.countP (·.isReturned id) := by
  rw [returnedIds, List.count_filterMap]
  congr 1
  funext o
  cases o <;> rfl

theorem startedIds_append (as bs : List Action) :
    startedIds (as ++ bs) = startedIds as ++ startedIds bs := List.filterMap_append ..

theorem total_started (as : List Action) :
    total (fun a => a.started?.toList.length) as = (startedIds as).length := by
  induction as with
  | nil => rfl
  | cons a as ih =>
    rw [total_cons, ih, startedIds, startedIds, List.filterMap_cons]
    cases a.started? <;> simp [Nat.add_comm]

namespace State

theorem returnedIds_step {s s' : State} {a : Action} {e : List Observation} (hs : Step s a s' e) :
    (returnedIds e).length = a.tags := by
  cases hs with
  | dequeueAll => exact congrArg List.length (returnedIds_remote _)
  | _ => rfl

/-- Every tag `Next` returns is noted. -/
theorem total_tags {as : List Action} {s : State} {h : List Observation}
    (hrun : contextMachine.exec as = some (s, h)) :
    total Action.tags as = (returnedIds h).length := by
  induction as using List.reverseRecOn generalizing s h with
  | nil =>
    obtain ⟨-, rfl⟩ : contextMachine.init = s ∧ [] = h := by simpa using hrun
    rfl
  | append_singleton as a ih =>
    obtain ⟨s₁, h₁, e, hl, hs, rfl⟩ := Machine.exec_concat.mp hrun
    rw [total_append, ih hl, returnedIds_append, List.length_append,
      returnedIds_step (step_cases hs)]
    rfl

/-- Only `start()` starts an operation. -/
theorem started_step {s s' : State} {a : Action} {e : List Observation} {id : ℕ}
    (hpl : ∃ p, Placed s id p) (hs : Step s a s' e) (hst : (s'.ops id).started = true) :
    (s.ops id).started = true ∨ a.started? = some id := by
  cases hs with
  | @start k | @startOnLoop k =>
    by_cases hk : id = k
    · exact Or.inr (congrArg some hk.symm)
    · have hops : (s.ops id).started = true := by
        simpa [startRemote, rpcStarted, setExecute_ops, hk] using hst
      exact Or.inl hops
  | @executeSchedule f fs k rest hf hpc hd hx hq =>
    apply Or.inl
    by_cases hk : id = k
    · -- it has an `execute_`, and so was started
      obtain ⟨p, hpl⟩ := hpl
      rw [hpl.started, ← hpl.execute, hk, hx]
      rfl
    · simpa [rpcStarted, setExecute_ops, hk] using hst
  | @receiverReturns f fs k r rest hf hpc | @destroy k hc hd =>
    apply Or.inl
    by_cases hk : id = k <;> simpa [hk] using hst
  | _ => exact Or.inl hst

theorem mem_startedIds {as : List Action} {s : State} {h : List Observation}
    (hrun : contextMachine.exec as = some (s, h)) {id : ℕ}
    (hst : (s.ops id).started = true) : id ∈ startedIds as := by
  induction as using List.reverseRecOn generalizing s h with
  | nil =>
    obtain ⟨rfl, -⟩ : contextMachine.init = s ∧ [] = h := by simpa using hrun
    cases hst
  | append_singleton as a ih =>
    obtain ⟨s₁, h₁, e, hl, hs, -⟩ := Machine.exec_concat.mp hrun
    obtain ⟨p, -, hpl⟩ := placed_of_exec hl id
    rw [startedIds_append, List.mem_append]
    rcases started_step ⟨p, hpl⟩ (step_cases hs) hst with hst | hid
    · exact Or.inl (ih hl hst)
    · exact Or.inr (List.mem_filterMap.mpr ⟨a, List.mem_singleton_self a, hid⟩)

/-- A tag comes back once for an operation that was started. -/
theorem total_tags_le {as : List Action} {s : State} {h : List Observation}
    (hrun : contextMachine.exec as = some (s, h)) :
    total Action.tags as ≤ (startedIds as).length := by
  rw [total_tags hrun]
  apply List.Nodup.length_le_of_subset
  · apply List.nodup_iff_count_le_one.mpr
    intro id
    obtain ⟨p, hp, -⟩ := placed_of_exec hrun id
    rw [count_returnedIds, Phase.returns_eq hp]
    exact Bool.toNat_le _
  · intro id hid
    obtain ⟨p, hp, hpl⟩ := placed_of_exec hrun id
    apply mem_startedIds hrun
    rw [hpl.started]
    have hpos := List.count_pos_iff.mpr hid
    rw [count_returnedIds, Phase.returns_eq hp] at hpos
    cases p <;> simp [Phase.cameBack, Phase.execute] at hpos ⊢

/-! ### All of it -/

/-- **The loop does no more than it is asked for**: in every run, however it
nests and interleaves, the steps of the loop thread are bounded by the `Run`
calls, the operations that were started and the stop requests.  So it never
spins, and operations that are scheduled while others are executed do not keep
a pass from ending. -/
theorem steps_le_work {as : List Action} {s : State} {h : List Observation}
    (hrun : contextMachine.exec as = some (s, h)) :
    as.count .loop + as.count .receiverReturns ≤ total Action.work as := by
  obtain ⟨-, hsteps⟩ := toDo_pays.execFrom_le trivial hrun
  obtain ⟨-, halarms⟩ := alarms_pay.execFrom_le trivial hrun
  obtain ⟨-, hexits⟩ := shutdowns_pay.execFrom_le trivial hrun
  have htags := total_tags_le hrun
  have hinit : contextMachine.init.toDo = 0 ∧ contextMachine.init.wakeUps = 0 ∧
      contextMachine.init.inLoop = 0 := ⟨rfl, rfl, rfl⟩
  rw [total_cost] at hsteps
  have hcredit : total Action.credit as = total Action.given as
      + 9 * (total Action.alarms as + (total Action.tags as + total Action.shutdowns as)) := by
    rw [← total_add, ← total_add, ← total_mul, ← total_add]
    exact congrArg (total · as) (funext Action.credit_eq)
  have hwork : total Action.work as = total Action.given as
      + 9 * (total Action.enqueues as + ((startedIds as).length + total Action.runs as)) := by
    rw [← total_started, ← total_add, ← total_add, ← total_mul, ← total_add]
    exact congrArg (total · as) (funext Action.work_eq)
  omega

/-- One operation from outside, up to the `Next` after its receiver returned. -/
def oneOperation : List Action := List.flatten
  [firstPass, [.finishRpc 0 true, .next (.tag 0 true)], List.replicate 3 .loop,
    [.receiverReturns], List.replicate 3 .loop]

theorem steps_le_work_oneOperation :
    ∃ s h, contextMachine.exec oneOperation = some (s, h) ∧
      oneOperation.count .loop + oneOperation.count .receiverReturns
        ≤ total Action.work oneOperation := by
  obtain ⟨s, h, hrun⟩ := contextMachine.exec_of_isSome oneOperation (by decide +kernel)
  exact ⟨s, h, hrun, steps_le_work hrun⟩

end State

end Agrpc
