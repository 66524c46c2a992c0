/-
Agrpc/Context/Frames.lean

The shape of the stack of `Run` calls, in every reachable state: only the
innermost call is at work, every other one is suspended in the receiver that
made the next call, and inner calls are younger.
-/
import Agrpc.Context.StepCases

namespace Agrpc

open Interleaving

namespace State

theorem pc?_of_frames {s : State} {f : RunFrame} {fs : List RunFrame}
    (hf : s.frames = f :: fs) : s.pc? = some f.pc := by
  simp [pc?, hf]

/-- Only the innermost `Run` call is at work; inner calls are younger. -/
structure FramesOk (s : State) : Prop where
  suspended : ∀ f ∈ s.frames.tail, ∃ id r rest, f.pc = .executing id r rest
  ordered : s.frames.Pairwise fun f g => g.run < f.run
  fresh : ∀ f ∈ s.frames, f.run < s.runs

theorem framesOk_init : FramesOk {} := ⟨by simp, .nil, by simp⟩

/-- Moving the innermost call, or marking a frame, keeps the shape. -/
theorem FramesOk.map {s s' : State} (h : FramesOk s) {g : RunFrame → RunFrame}
    (hrun : ∀ f, (g f).run = f.run) (hpc : ∀ f, (g f).pc = f.pc)
    (hf : s'.frames = s.frames.map g) (hr : s'.runs = s.runs) : FramesOk s' where
  suspended := by
    intro f hm
    rw [hf, ← List.map_tail, List.mem_map] at hm
    obtain ⟨f, hm, rfl⟩ := hm
    simpa [hpc] using h.suspended f hm
  ordered := by
    rw [hf, List.pairwise_map]
    simpa [hrun] using h.ordered
  fresh := by
    intro f hm
    rw [hf, List.mem_map] at hm
    obtain ⟨f, hm, rfl⟩ := hm
    simpa [hrun, hr] using h.fresh f hm

theorem FramesOk.goto {s s' : State} (h : FramesOk s) {f : RunFrame} {fs : List RunFrame}
    {pc : LoopPc} (hf : s.frames = f :: fs) (hf' : s'.frames = f.goto pc :: fs)
    (hr : s'.runs = s.runs) : FramesOk s' where
  suspended := by simpa [hf, hf'] using h.suspended
  ordered := by simpa [hf, hf'] using h.ordered
  fresh := by simpa [hf, hf', hr] using h.fresh

theorem FramesOk.congr {s s' : State} (h : FramesOk s) (hf : s'.frames = s.frames)
    (hr : s'.runs = s.runs) : FramesOk s' := by
  simpa using h.map (g := id) (fun _ => rfl) (fun _ => rfl) (by simp [hf]) hr

theorem inReceiver_iff {s : State} :
    s.inReceiver = true ↔ ∃ id r rest, s.pc? = some (.executing id r rest) := by
  unfold inReceiver
  rcases s.pc? with - | pc
  · simp
  · cases pc <;> simp

theorem FramesOk.step {s s' : State} {a : Action} {e : List Observation} (h : FramesOk s)
    (hs : Step s a s' e) : FramesOk s' := by
  cases hs with
  | run hr =>
    refine ⟨?_, ?_, ?_⟩
    · rcases hr with hr | hr
      · simp [hr]
      · obtain ⟨id, r, rest, hpc⟩ := inReceiver_iff.mp hr
        rcases hf : s.frames with - | ⟨f, fs⟩
        · simp
        · have hsusp := h.suspended
          rw [pc?_of_frames hf, Option.some.injEq] at hpc
          simp only [hf, List.tail_cons, List.mem_cons] at hsusp ⊢
          rintro g (rfl | hg)
          · exact ⟨id, r, rest, hpc⟩
          · exact hsusp g hg
    · exact List.pairwise_cons.mpr ⟨h.fresh, h.ordered⟩
    · simp only [List.mem_cons]
      rintro f (rfl | hm)
      · exact Nat.lt_succ_self _
      · exact Nat.lt_succ_of_lt (h.fresh f hm)
  | leave hf hpc hsig =>
    refine ⟨?_, ?_, ?_⟩
    · intro g hg
      exact h.suspended g (by simpa [hf] using List.mem_of_mem_tail hg)
    · exact (List.pairwise_cons.mp (hf ▸ h.ordered)).2
    · exact fun g hg => h.fresh g (by simp [hf, hg])
  | @executeStop f fs run rest hf hpc hx =>
    have h₁ : FramesOk { s with frames := f.goto (.draining rest) :: fs } := h.goto hf rfl rfl
    exact h₁.map (g := (·.seeStop run)) (fun f => f.seeStop_run _) (fun f => f.seeStop_pc _)
      rfl rfl
  | requestStop hst =>
    exact h.map (g := (·.requestStop _)) (fun f => f.requestStop_run _)
      (fun f => f.requestStop_pc _) rfl rfl
  | requestStopOnLoop hst hr =>
    exact h.map (g := (·.requestStop _)) (fun f => f.requestStop_run _)
      (fun f => f.requestStop_pc _) rfl rfl
  | start | startOnLoop | signal | finishRpc | shutDown | destroy => exact h.congr rfl rfl
  | enter hf | nothingPending hf | takeBatch hf | batchDone hf | executeSchedule hf
  | executeRequest hf | setValueThrows hf | receiverReturns hf | stopSeen hf | stopNotSeen hf
  | readSubmitted hf | readNotSubmitted hf | markInactive hf | dequeueAll hf | assign hf
  | nextAlarm hf | nextTag hf | nextShutdown hf | dispatchAlarm hf | dispatchTag hf =>
    exact h.goto hf rfl rfl

/-- After the innermost call has returned, the loop thread is in a receiver
or not in the loop at all. -/
theorem FramesOk.pc?_leave {s : State} (h : FramesOk s) {f : RunFrame} {fs : List RunFrame}
    (hf : s.frames = f :: fs) :
    pc? { s with frames := fs } = none ∨
      ∃ id r rest, pc? { s with frames := fs } = some (.executing id r rest) := by
  rcases fs with - | ⟨g, fs⟩
  · simp [pc?]
  · obtain ⟨id, r, rest, hpc⟩ := h.suspended g (by simp [hf])
    exact Or.inr ⟨id, r, rest, by simp [pc?, hpc]⟩

/-- Marking frames does not move the loop thread. -/
theorem pc?_map {s s' : State} {g : RunFrame → RunFrame} (hpc : ∀ f, (g f).pc = f.pc)
    (hf : s'.frames = s.frames.map g) : s'.pc? = s.pc? := by
  rcases hs : s.frames with - | ⟨f, fs⟩ <;> simp [pc?, hf, hs, hpc]

/-- But for a `Run` call, no step puts a call under another. -/
theorem tail_of_step {s s' : State} {a : Action} {e : List Observation} (hs : Step s a s' e)
    (ha : a ≠ .run) {g : RunFrame} (hg : g ∈ s'.frames.tail) :
    ∃ g₀ ∈ s.frames.tail, g₀.run = g.run := by
  cases hs with
  | run => exact absurd rfl ha
  | leave hf hpc => exact ⟨g, by rw [hf]; exact List.mem_of_mem_tail hg, rfl⟩
  | start | startOnLoop | signal | finishRpc | shutDown | destroy => exact ⟨g, hg, rfl⟩
  | @requestStop run | @requestStopOnLoop run =>
    have hmap : g ∈ (s.frames.map (·.requestStop run)).tail := hg
    rw [← List.map_tail] at hmap
    obtain ⟨g₀, hg₀, rfl⟩ := List.mem_map.mp hmap
    exact ⟨g₀, hg₀, (g₀.requestStop_run run).symm⟩
  | @executeStop f fs run rest hf hpc =>
    rw [← List.map_tail] at hg
    obtain ⟨g₀, hg₀, rfl⟩ := List.mem_map.mp hg
    exact ⟨g₀, by rw [hf]; exact hg₀, (g₀.seeStop_run run).symm⟩
  | enter hf | nothingPending hf | takeBatch hf | batchDone hf | executeSchedule hf
  | executeRequest hf | setValueThrows hf | receiverReturns hf | stopSeen hf | stopNotSeen hf
  | readSubmitted hf | readNotSubmitted hf | markInactive hf | dequeueAll hf | assign hf
  | nextAlarm hf | nextTag hf | nextShutdown hf | dispatchAlarm hf | dispatchTag hf =>
    exact ⟨g, by rw [hf]; exact hg, rfl⟩

/-- The frames of every reachable state. -/
theorem framesOk_of_exec {as : List Action} {s : State} {h : List Observation}
    (hrun : contextMachine.exec as = some (s, h)) : FramesOk s :=
  Machine.exec_induction (I := fun s _ => FramesOk s) framesOk_init
    (fun _ _ _ _ _ hI hs => hI.step (step_cases hs)) hrun

end State

end Agrpc
