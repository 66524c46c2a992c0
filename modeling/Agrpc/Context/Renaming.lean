/-
Agrpc/Context/Renaming.lean

The numbers of `Run` calls are names: renaming them in a context, in the frames
and in what is observed commutes with everything the context does.

`runImplStep_rename` and `runImplNext_rename` are the two halves of `RunImpl`;
they hold of any renaming, since the loop never looks at the number of a stop
operation.
-/
import Agrpc.Context.Loop

namespace Agrpc

variable (ρ : ℕ → ℕ)

/-! ### Renaming -/

namespace OperationBase

def rename : OperationBase → OperationBase
  | stopOperation run => stopOperation (ρ run)
  | operation id => operation id

variable {ρ}

theorem rename_injective (hρ : Function.Injective ρ) : Function.Injective (rename ρ) := by
  intro a b h
  cases a with
  | stopOperation r =>
    cases b with
    | stopOperation r' => rw [hρ (OperationBase.stopOperation.inj h)]
    | operation id => cases h
  | operation id =>
    cases b with
    | stopOperation r' => cases h
    | operation id' => rw [OperationBase.operation.inj h]

end OperationBase

namespace AtomicQueue

variable {α β : Type*}

def map (f : α → β) : AtomicQueue α → AtomicQueue β
  | inactive => inactive
  | active items => active (items.map f)

theorem enqueue_map (f : α → β) (q : AtomicQueue α) (x : α) :
    (q.map f).enqueue (f x) = ((q.enqueue x).1, (q.enqueue x).2.map f) := by
  cases q with
  | inactive => rfl
  | active items => simp [map, enqueue]

theorem tryMarkInactiveOrDequeueAll_map (f : α → β) (q : AtomicQueue α) :
    (q.map f).tryMarkInactiveOrDequeueAll
      = q.tryMarkInactiveOrDequeueAll.map fun (xs, q') => (xs.map f, q'.map f) := by
  rcases q with - | ⟨- | ⟨x, xs⟩⟩ <;> rfl

end AtomicQueue

def GrpcContext.rename (c : GrpcContext) : GrpcContext :=
  { c with
    localQueue := c.localQueue.map (OperationBase.rename ρ)
    remoteQueue := c.remoteQueue.map (OperationBase.rename ρ) }

def LoopPc.rename : LoopPc → LoopPc
  | draining pending => draining (pending.map (OperationBase.rename ρ))
  | executing id result pending => executing id result (pending.map (OperationBase.rename ρ))
  | pc => pc

def RunFrame.rename (f : RunFrame) : RunFrame :=
  { f with run := ρ f.run, pc := f.pc.rename ρ }

/-- Marking the frame of a call commutes with renaming the calls. -/
theorem RunFrame.rename_seeStop {ρ : ℕ → ℕ} (hρ : Function.Injective ρ) (run : ℕ) (f : RunFrame) :
    (f.seeStop run).rename ρ = (f.rename ρ).seeStop (ρ run) := by
  unfold seeStop
  by_cases h : f.run = run
  · have h' : (f.rename ρ).run = ρ run := congrArg ρ h
    rw [if_pos h, if_pos h']
    rfl
  · have h' : (f.rename ρ).run ≠ ρ run := fun heq => h (hρ heq)
    rw [if_neg h, if_neg h']

theorem RunFrame.rename_requestStop {ρ : ℕ → ℕ} (hρ : Function.Injective ρ) (run : ℕ)
    (f : RunFrame) : (f.requestStop run).rename ρ = (f.rename ρ).requestStop (ρ run) := by
  unfold requestStop
  by_cases h : f.run = run
  · have h' : (f.rename ρ).run = ρ run := congrArg ρ h
    rw [if_pos h, if_pos h']
    rfl
  · have h' : (f.rename ρ).run ≠ ρ run := fun heq => h (hρ heq)
    rw [if_neg h, if_neg h']

def Observation.rename : Observation → Observation
  | enqueued op => enqueued (op.rename ρ)
  | arrived route op => arrived route (op.rename ρ)
  | executed op => executed (op.rename ρ)
  | o => o

/-! ### The member functions -/

namespace GrpcContext

variable (c : GrpcContext)

theorem rename_scheduleLocal (op : OperationBase) :
    (c.rename ρ).scheduleLocal (op.rename ρ) = (c.scheduleLocal op).rename ρ := by
  simp [rename, scheduleLocal]

theorem rename_scheduleLocalQueue (ops : List OperationBase) :
    (c.rename ρ).scheduleLocalQueue (ops.map (OperationBase.rename ρ))
      = (c.scheduleLocalQueue ops).rename ρ := by
  simp [rename, scheduleLocalQueue]

theorem rename_enqueueRemote (op : OperationBase) :
    (c.rename ρ).enqueueRemote (op.rename ρ)
      = ((c.enqueueRemote op).1, (c.enqueueRemote op).2.rename ρ) := by
  simp [rename, enqueueRemote, AtomicQueue.enqueue_map]

theorem rename_signalRemoteQueue :
    (c.rename ρ).signalRemoteQueue = c.signalRemoteQueue.map (GrpcContext.rename ρ) := by
  show (c.completionQueue.set.map _) = _
  rw [signalRemoteQueue, Option.map_map]
  rfl

theorem rename_invokeRpc (id : ℕ) :
    (c.rename ρ).invokeRpc id = (c.invokeRpc id).map (GrpcContext.rename ρ) := by
  show (c.completionQueue.begin id).map _ = _
  rw [invokeRpc, Option.map_map]
  rfl

theorem rename_tryScheduleRemoteQueuedItems :
    (c.rename ρ).tryScheduleRemoteQueuedItems
      = c.tryScheduleRemoteQueuedItems.map fun (submitted, c', items) =>
          (submitted, c'.rename ρ, items.map (OperationBase.rename ρ)) := by
  have hq : (c.rename ρ).remoteQueue = c.remoteQueue.map (OperationBase.rename ρ) := rfl
  unfold tryScheduleRemoteQueuedItems
  rw [hq, AtomicQueue.tryMarkInactiveOrDequeueAll_map, Option.map_map, Option.map_map]
  congr 1
  funext ⟨items, q⟩
  cases items with
  | nil => rfl
  | cons op ops =>
    show (false, ({ c.rename ρ with remoteQueue := q.map _ } : GrpcContext).scheduleLocalQueue _, _)
      = (false, (({ c with remoteQueue := q } : GrpcContext).scheduleLocalQueue _).rename ρ, _)
    rw [← rename_scheduleLocalQueue]
    rfl

theorem rename_dispatchEvent :
    (c.rename ρ).dispatchEvent
      = (c.dispatchEvent.1.rename ρ, c.dispatchEvent.2.map (Observation.rename ρ)) := by
  have he : (c.rename ρ).event = c.event := rfl
  unfold dispatchEvent
  rw [he]
  cases c.event.tag with
  | none => rfl
  | some id =>
    have hlocal := c.rename_scheduleLocal ρ (.operation id)
    exact congrArg (fun x => (x, _)) hlocal

end GrpcContext

/-! ### `RunImpl` -/

/-- Between two program points. -/
theorem runImplStep_rename (c : GrpcContext) (shouldStop : Bool) (pc : LoopPc) :
    runImplStep (c.rename ρ) shouldStop (pc.rename ρ)
      = (runImplStep c shouldStop pc).map fun (c', pc', e) =>
          (c'.rename ρ, pc'.rename ρ, e.map (Observation.rename ρ)) := by
  cases pc with
  | registered | executing | callNext | exited => rfl
  | loopTop =>
    show (if (c.localQueue.map (OperationBase.rename ρ)).isEmpty then _ else _)
      = (if c.localQueue.isEmpty then _ else _ :
          Option (GrpcContext × LoopPc × List Observation)).map _
    rw [List.isEmpty_map]
    cases c.localQueue.isEmpty <;> rfl
  | draining pending => cases pending <;> rfl
  | checkStop => cases shouldStop <;> rfl
  | checkRemote =>
    cases hs : c.remoteQueueReadSubmitted <;>
      simp [runImplStep, GrpcContext.rename, hs, LoopPc.rename]
  | dequeueRemote =>
    show (c.rename ρ).tryScheduleRemoteQueuedItems.map _ = _
    rw [GrpcContext.rename_tryScheduleRemoteQueuedItems, Option.map_map]
    show _ = (c.tryScheduleRemoteQueuedItems.map _).map _
    rw [Option.map_map]
    congr 1
    funext ⟨submitted, c', items⟩
    simp [LoopPc.rename, Observation.rename]
  | assignSubmitted submitted => rfl
  | gotEvent =>
    show some ((c.rename ρ).dispatchEvent.1, LoopPc.loopTop, (c.rename ρ).dispatchEvent.2) = _
    rw [GrpcContext.rename_dispatchEvent]
    rfl

/-- The `Next` call. -/
theorem runImplNext_rename (c : GrpcContext) (r : NextResult) :
    runImplNext (c.rename ρ) r
      = (runImplNext c r).map fun (c', pc', e) =>
          (c'.rename ρ, pc'.rename ρ, e.map (Observation.rename ρ)) := by
  show (c.completionQueue.next r).map _ = ((c.completionQueue.next r).map _).map _
  rw [Option.map_map]
  congr 1
  funext cq
  cases r <;> rfl

end Agrpc
