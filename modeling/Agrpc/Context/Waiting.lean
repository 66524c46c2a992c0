/-
Agrpc/Context/Waiting.lean

How long an operation waits that was scheduled from outside.

The loop looks into `remote_queue_` in a pass in which it finds
`remote_queue_read_submitted_` clear, and what it finds there it executes in the
next pass only, behind a call of `Next`.  So what was enqueued when the flag was
cleared (by the event of `work_alarm_`, say) is executed when the loop calls
`Next` for the second time (`executed_at_second_next`), whichever event the first
call returned.
-/
import Agrpc.Context.Executor

namespace Agrpc

open Interleaving

namespace State

/-! ### The test of the flag -/

/-- The loop comes by its test of `remote_queue_read_submitted_` before it
calls `Next`. -/
def testAhead (s : State) : Bool :=
  match s.pc? with
  | some (.assignSubmitted _) | some .callNext => false
  | _ => true

/-- The loop finds the flag clear before it calls `Next`. -/
structure Collecting (s : State) : Prop where
  clear : s.readSubmitted = false
  ahead : s.testAhead = true

theorem Collecting.congr {s s' : State} (h : Collecting s) (hpc : s'.pc? = s.pc?)
    (hr : s'.readSubmitted = s.readSubmitted) : Collecting s' := by
  refine ⟨hr.trans h.clear, ?_⟩
  rw [testAhead, hpc]
  exact h.ahead

/-- **The loop collects, or it has collected**: there is nothing left in
`remote_queue_`. -/
theorem Collecting.step {s s' : State} {a : Action} {e : List Observation} (hF : FramesOk s)
    (h : Collecting s) (hs : Step s a s' e) :
    Collecting s' ∨ s'.context.remoteQueue.items = [] := by
  obtain ⟨hclear, hahead⟩ := h
  cases hs with
  | markInactive | dequeueAll => exact Or.inr rfl
  | start | startOnLoop | signal | finishRpc | shutDown | destroy =>
    exact Or.inl ⟨hclear, hahead⟩
  | @requestStop run =>
    exact Or.inl (Collecting.congr ⟨hclear, hahead⟩ (pc?_map (fun f => f.requestStop_pc _) rfl)
      (readSubmitted_map (fun f => f.requestStop_pc _) rfl rfl rfl))
  | @requestStopOnLoop run =>
    exact Or.inl (Collecting.congr ⟨hclear, hahead⟩ (pc?_map (fun f => f.requestStop_pc _) rfl)
      (readSubmitted_map (fun f => f.requestStop_pc _) rfl rfl rfl))
  | run hr =>
    have hpc : s.pc? = none ∨ ∃ id r rest, s.pc? = some (.executing id r rest) :=
      hr.imp (fun hf => by simp [pc?, hf]) inReceiver_iff.mp
    rw [readSubmitted_inReceiver hpc] at hclear
    exact Or.inl ⟨hclear, rfl⟩
  | @leave f fs b hf hpc =>
    have hpc' := hF.pc?_leave hf
    refine Or.inl ⟨?_, ?_⟩
    · rw [readSubmitted_inReceiver hpc']
      simpa [readSubmitted, pc?, hf, hpc] using hclear
    · rcases hpc' with hp | ⟨id, r, rest, hp⟩ <;> simp [testAhead, hp]
  -- the flag is clear
  | readSubmitted hf hpc hr => simp [State.readSubmitted, pc?, hf, hpc, hr] at hclear
  -- behind the test
  | assign hf hpc | nextAlarm hf hpc | nextTag hf hpc | nextShutdown hf hpc =>
    simp [testAhead, pc?, hf, hpc] at hahead
  | dispatchAlarm hf hpc => exact Or.inl ⟨rfl, rfl⟩
  | dispatchTag hf hpc ht =>
    have hflag : s.context.remoteQueueReadSubmitted = false := by
      simpa [State.readSubmitted, pc?, hf, hpc, ht] using hclear
    exact Or.inl ⟨hflag, rfl⟩
  | enter hf hpc | nothingPending hf hpc | takeBatch hf hpc | batchDone hf hpc
  | executeSchedule hf hpc | executeRequest hf hpc | setValueThrows hf hpc
  | receiverReturns hf hpc | stopSeen hf hpc | stopNotSeen hf hpc | readNotSubmitted hf hpc
  | executeStop hf hpc =>
    have hflag : s.context.remoteQueueReadSubmitted = false := by
      simpa [State.readSubmitted, pc?, hf, hpc] using hclear
    refine Or.inl ⟨?_, ?_⟩ <;> simp [State.readSubmitted, testAhead, pc?, rpcStarted, hflag]

/-! ### Along a run -/

section Runs

variable {as bs : List Action} {s s' : State} {h h' : List Observation}

theorem remoteArrivals_mono (e : List Observation) :
    remoteArrivals h <+: remoteArrivals (h ++ e) := by
  rw [remoteArrivals, remoteArrivals, arrivals_append]
  exact ((List.prefix_append _ _).filter _).map _

/-- What was enqueued when the flag was found clear has come into
`local_queue_`, or is still to be collected. -/
theorem Collecting.collected (h₀ : Collecting s) (hrun : contextMachine.exec as = some (s, h))
    (hrun' : contextMachine.exec (as ++ bs) = some (s', h')) :
    Collecting s' ∨ enqueues h <+: remoteArrivals h' := by
  -- by induction on the steps taken since, from the last one
  induction bs using List.reverseRecOn generalizing s' h' with
  | nil =>
    rw [List.append_nil, hrun, Option.some.injEq, Prod.mk.injEq] at hrun'
    exact Or.inl (hrun'.1 ▸ h₀)
  | append_singleton bs a ih =>
    rw [← List.append_assoc] at hrun'
    obtain ⟨s₁, h₁, e, hrun₁, hs, rfl⟩ := Machine.exec_concat.mp hrun'
    rcases ih hrun₁ with hcoll | hdone
    · rcases hcoll.step (framesOk_of_exec hrun₁) (step_cases hs) with hcoll' | hempty
      · exact Or.inl hcoll'
      · -- the queue is empty: all that was ever enqueued has come
        right
        have hall := enqueues_eq hrun'
        rw [hempty, List.append_nil] at hall
        obtain ⟨s₂, h₂, h₃, hl₂, -, hsplit⟩ := Machine.execFrom_append.mp hrun₁
        obtain ⟨-, rfl⟩ : s = s₂ ∧ h = h₂ := by simpa using hrun.symm.trans hl₂
        rw [← hall, hsplit, List.append_assoc, enqueues_append]
        exact List.prefix_append _ _
    · exact Or.inr (hdone.trans (remoteArrivals_mono e))

/-- At `Next` it has been collected. -/
theorem Collecting.collected_at_next (h₀ : Collecting s)
    (hrun : contextMachine.exec as = some (s, h)) (hp : as <+: bs)
    (hrun' : contextMachine.exec bs = some (s', h')) (hpc : s'.pc? = some .callNext) :
    enqueues h <+: remoteArrivals h' := by
  obtain ⟨cs, rfl⟩ := hp
  rcases h₀.collected hrun hrun' with hcoll | hdone
  · have hahead := hcoll.ahead
    rw [testAhead, hpc] at hahead
    cases hahead
  · exact hdone

/-- What has come into `local_queue_` at one call of `Next` is executed at the
next one. -/
theorem remoteArrivals_executed (hno : NoReentry bs)
    (hrun : contextMachine.exec as = some (s, h)) {r : NextResult} (hr : r ≠ .shutdown)
    (hp : as ++ [.next r] <+: bs)
    (hrun' : contextMachine.exec bs = some (s', h')) (hpc' : s'.pc? = some .callNext) :
    remoteArrivals h <+: remoteExecutions h' := by
  obtain ⟨⟨s₁, h₁⟩, hrun₁⟩ : ∃ p, contextMachine.exec (as ++ [.next r]) = some p := by
    obtain ⟨cs, rfl⟩ := hp
    obtain ⟨s₁, h₁, -, hl, -⟩ := Machine.execFrom_append.mp hrun'
    exact ⟨(s₁, h₁), hl⟩
  obtain ⟨s₂, h₂, e, hl, hs, rfl⟩ := Machine.exec_concat.mp hrun₁
  obtain ⟨rfl, rfl⟩ := Prod.mk.inj (Option.some.inj (hrun.symm.trans hl))
  -- `Next` returns with a pass due and no batch
  have hnext : s₁.passDue ∧ s₁.batches = [] := by
    have hsingle := frames_single_of_visits (hno.mono hp) (Machine.Visits.last hrun₁)
    have hst : Step s (.next r) s₁ e := step_cases hs
    cases hst with
    | nextAlarm hf hpc | nextTag hf hpc =>
      refine ⟨Or.inl rfl, ?_⟩
      rw [batches_single rfl hsingle]
      rfl
    | nextShutdown => exact absurd rfl hr
  have hexec := local_executed_at_next hno hrun' hpc' hp hrun₁ hnext.1
  have harr := arrivedOps_eq (hno.mono hp) (Machine.Visits.last hrun₁)
  rw [hnext.2, List.nil_append] at harr
  rw [← harr] at hexec
  -- as many executions as there were arrivals
  have hlen : (arrivals (h ++ e)).length ≤ (executions h').length := by
    have hle := hexec.length_le
    rwa [arrivedOps, List.length_map] at hle
  have hfirst : arrivals (h ++ e) <+: arrivals h' := by
    obtain ⟨cs, rfl⟩ := hp
    obtain ⟨s₃, h₃, h₄, hl₃, -, rfl⟩ := Machine.execFrom_append.mp hrun'
    obtain ⟨-, rfl⟩ := Prod.mk.inj (Option.some.inj (hrun₁.symm.trans hl₃))
    rw [arrivals_append (h ++ e)]
    exact List.prefix_append _ _
  have htake := List.prefix_take_iff.mpr ⟨hfirst, hlen⟩
  exact (remoteArrivals_mono e).trans ((htake.filter _).map _)

/-- What came by the remote route and was executed was executed. -/
theorem remoteExecutions_subset (hno : NoReentry as)
    (hrun : contextMachine.exec as = some (s, h)) : remoteExecutions h ⊆ executions h := by
  have harr := arrivedOps_eq hno (Machine.Visits.last hrun)
  have hserved : ((arrivals h).take (executions h).length).map Prod.snd = executions h := by
    rw [List.map_take]
    show (arrivedOps h).take _ = _
    rw [harr, List.take_left]
  intro op hop
  obtain ⟨x, hx, rfl⟩ := List.mem_map.mp hop
  rw [← hserved]
  exact List.mem_map_of_mem (List.mem_filter.mp hx).1

end Runs

/-- **How long an operation waits.**  What was enqueued when the loop was to
find the flag clear has been executed when the loop calls `Next` for the second
time, in the order it was enqueued. -/
theorem executed_at_second_next {as₀ as₁ as₂ : List Action} (hno : NoReentry as₂)
    {s₀ s₁ s₂ : State} {h₀ h₁ h₂ : List Observation}
    (hrun₀ : contextMachine.exec as₀ = some (s₀, h₀)) (hcoll : Collecting s₀)
    (hp₁ : as₀ <+: as₁) (hrun₁ : contextMachine.exec as₁ = some (s₁, h₁))
    (hpc₁ : s₁.pc? = some .callNext) {r : NextResult} (hr : r ≠ .shutdown)
    (hp₂ : as₁ ++ [.next r] <+: as₂) (hrun₂ : contextMachine.exec as₂ = some (s₂, h₂))
    (hpc₂ : s₂.pc? = some .callNext) :
    enqueues h₀ <+: remoteExecutions h₂ ∧ ∀ op ∈ enqueues h₀, op ∈ executions h₂ := by
  have horder := (hcoll.collected_at_next hrun₀ hp₁ hrun₁ hpc₁).trans
    (remoteArrivals_executed hno hrun₁ hr hp₂ hrun₂ hpc₂)
  exact ⟨horder, fun op hop => remoteExecutions_subset hno hrun₂ (horder.subset hop)⟩

/-- Two operations are started, before `Run` and when it has begun, up to the
second call of `Next`. -/
def secondNext : List Action := List.flatten
  [[.start 0, .signal (.operation 0), .run, .start 1], List.replicate 6 .loop,
    [.next (.alarm true)], List.replicate 9 .loop]

theorem executed_at_second_next_example :
    ∃ s h, contextMachine.exec secondNext = some (s, h) ∧
      [.operation 0, .operation 1] <+: remoteExecutions h ∧
      ∀ op ∈ [OperationBase.operation 0, .operation 1], op ∈ executions h := by
  obtain ⟨s₀, h₀, hrun₀⟩ := contextMachine.exec_of_isSome (secondNext.take 4) rfl
  obtain ⟨s₁, h₁, hrun₁⟩ := contextMachine.exec_of_isSome (secondNext.take 10) rfl
  obtain ⟨s₂, h₂, hrun₂⟩ := contextMachine.exec_of_isSome secondNext rfl
  have htest₀ : (contextMachine.exec (secondNext.take 4)).map
      (fun p => (p.1.readSubmitted, p.1.testAhead, enqueues p.2))
        = some (false, true, [.operation 0, .operation 1]) := rfl
  have htest₁ : (contextMachine.exec (secondNext.take 10)).map (fun p => p.1.pc?)
      = some (some .callNext) := rfl
  have htest₂ : (contextMachine.exec secondNext).map (fun p => p.1.pc?)
      = some (some .callNext) := rfl
  simp only [hrun₀, hrun₁, hrun₂, Option.map_some, Option.some.injEq, Prod.mk.injEq]
    at htest₀ htest₁ htest₂
  obtain ⟨hclear, hahead, henqueues⟩ := htest₀
  have hall := executed_at_second_next (noReentry_of_check rfl) hrun₀ ⟨hclear, hahead⟩
    (List.take_prefix_take_left (by decide)) hrun₁ htest₁ (r := .alarm true) nofun
    (List.take_prefix 11 secondNext) hrun₂ htest₂
  rw [henqueues] at hall
  exact ⟨s₂, h₂, hrun₂, hall⟩

end State

end Agrpc
