/-
Agrpc/Context/LifeCycle.lean

The life cycle of one operation, as an automaton on the history.

    idle → travelling → scheduled → submitted → returned → completed
         ↘ (start on the loop thread) ↗            → delivering → finished

The automaton reads the observations that concern the operation and is stuck
on one that is out of order.  What a run of it implies is proved here once:
`rpc_` is invoked at most once and before the result is delivered, the tag
comes back at most once, the receiver gets one value and, if it does not take
it, one error (`GivenOnce`).  That the histories of the context are runs of it is
`Agrpc.Context.Places`.
-/
import Agrpc.Context.History

namespace Agrpc

open Interleaving

/-- How far an operation is. -/
inductive Phase where
  | idle
  /-- in `remote_queue_` -/
  | travelling
  /-- in `local_queue_` or a batch, `rpc_` not invoked yet -/
  | scheduled
  /-- `rpc_` was invoked and gRPC holds the tag -/
  | submitted
  /-- `Next` has returned the tag -/
  | returned
  /-- in `local_queue_` or a batch again, with the RPC complete -/
  | completed
  /-- the receiver has been given `result` and runs -/
  | delivering (result : Result)
  | finished
  deriving DecidableEq, Repr

/-- The observation is about operation `id`. -/
def Observation.concerns (id : ℕ) : Observation → Bool
  | enqueued op | arrived _ op | executed op => op == .operation id
  | rpcInvoked k | setValue k _ | setError k | completed k _ => k == id
  | nextReturned tag _ => tag == some id
  | passBegan => false

namespace Phase

/-- The edges of the life cycle. -/
def follow : Phase → Observation → Option Phase
  | idle, .enqueued _ => some travelling
  | travelling, .arrived .remote _ => some scheduled
  | scheduled, .executed _ => some scheduled
  | idle, .rpcInvoked _ => some submitted
  | scheduled, .rpcInvoked _ => some submitted
  | submitted, .nextReturned _ _ => some returned
  | returned, .arrived .completion _ => some completed
  | completed, .executed _ => some completed
  | completed, .setValue _ ok => some (delivering (.value ok))
  | delivering (.value _), .setError _ => some (delivering .error)
  | delivering r, .completed _ r' => if r = r' then some finished else none
  | _, _ => none

/-- One observation, for operation `id`. -/
def next (id : ℕ) (p : Phase) (o : Observation) : Option Phase :=
  if o.concerns id then p.follow o else some p

/-- A history, or a part of it, for operation `id`. -/
def run (id : ℕ) (p : Phase) (h : List Observation) : Option Phase := h.foldlM (next id) p

@[simp] theorem run_nil (id : ℕ) (p : Phase) : p.run id [] = some p := rfl

@[simp] theorem run_cons (id : ℕ) (p : Phase) (o : Observation) (h : List Observation) :
    p.run id (o :: h) = (p.next id o).bind fun q => q.run id h := List.foldlM_cons ..

theorem run_append (id : ℕ) (p : Phase) (h e : List Observation) :
    p.run id (h ++ e) = (p.run id h).bind fun q => q.run id e := List.foldlM_append ..

/-- Observations about others leave the phase alone. -/
theorem run_of_not_concerns {id : ℕ} {h : List Observation}
    (hno : ∀ o ∈ h, o.concerns id = false) (p : Phase) : p.run id h = some p := by
  induction h with
  | nil => rfl
  | cons o h ih =>
    have hstay : p.next id o = some p := by simp [next, hno o (by simp)]
    rw [run_cons, hstay]
    exact ih fun o ho => hno o (by simp [ho])

/-- The edges, one constructor each, with the observation about `id` they read. -/
inductive Edge (id : ℕ) : Phase → Observation → Phase → Prop
  | enqueued : Edge id idle (.enqueued (.operation id)) travelling
  | dequeued : Edge id travelling (.arrived .remote (.operation id)) scheduled
  | executed : Edge id scheduled (.executed (.operation id)) scheduled
  | invokedDirectly : Edge id idle (.rpcInvoked id) submitted
  | invoked : Edge id scheduled (.rpcInvoked id) submitted
  | returned {ok} : Edge id submitted (.nextReturned (some id) ok) returned
  | arrived : Edge id returned (.arrived .completion (.operation id)) completed
  | executedAgain : Edge id completed (.executed (.operation id)) completed
  | setValue {ok} : Edge id completed (.setValue id ok) (delivering (.value ok))
  | setError {ok} : Edge id (delivering (.value ok)) (.setError id) (delivering .error)
  | finished {r} : Edge id (delivering r) (.completed id r) finished

theorem edge_of_follow {id : ℕ} {p p' : Phase} {o : Observation} (hc : o.concerns id = true)
    (h : p.follow o = some p') : Edge id p o p' := by
  unfold follow at h
  split at h <;>
    simp only [Observation.concerns, beq_iff_eq, Option.some.injEq, reduceCtorEq,
      Option.ite_none_right_eq_some] at hc h
  · subst hc h; exact .enqueued
  · subst hc h; exact .dequeued
  · subst hc h; exact .executed
  · subst hc h; exact .invokedDirectly
  · subst hc h; exact .invoked
  · subst hc h; exact .returned
  · subst hc h; exact .arrived
  · subst hc h; exact .executedAgain
  · subst hc h; exact .setValue
  · subst hc h; exact .setError
  · obtain ⟨rfl, rfl⟩ := h
    subst hc
    exact .finished

/-- One observation leaves the phase alone or follows an edge. -/
theorem next_cases {id : ℕ} {p p' : Phase} {o : Observation} (h : p.next id o = some p') :
    o.concerns id = false ∧ p' = p ∨ Edge id p o p' := by
  unfold next at h
  split at h
  next hc => exact Or.inr (edge_of_follow hc h)
  next hc => exact Or.inl ⟨by simpa using hc, (Option.some.inj h).symm⟩

/-! ### What a run records -/

/-- What occurs once at most is one observation. -/
theorem eq_of_countP_le_one {f : Observation → Bool} {h : List Observation}
    (hone : h.countP f ≤ 1) {o o' : Observation} (ho : o ∈ h) (ho' : o' ∈ h) (hf : f o = true)
    (hf' : f o' = true) : o = o' := by
  rw [List.countP_eq_length_filter] at hone
  have hm : o ∈ h.filter f := List.mem_filter.mpr ⟨ho, hf⟩
  have hm' : o' ∈ h.filter f := List.mem_filter.mpr ⟨ho', hf'⟩
  rcases hl : h.filter f with - | ⟨x, - | ⟨y, rest⟩⟩
  · rw [hl] at hm
    exact absurd hm List.not_mem_nil
  · rw [hl, List.mem_singleton] at hm hm'
    exact hm.trans hm'.symm
  · rw [hl, List.length_cons, List.length_cons] at hone
    omega

/-- A count over the history that every edge keeps in step with a number read
off the phase is that number. -/
theorem countP_of_run {id : ℕ} {f : Observation → Bool} {n : Phase → ℕ} (h₀ : n .idle = 0)
    (hother : ∀ o, o.concerns id = false → f o = false)
    (hedge : ∀ p o p', Edge id p o p' → n p' = n p + (f o).toNat)
    {h : List Observation} {p : Phase} (hrun : Phase.idle.run id h = some p) :
    h.countP f = n p := by
  induction h using List.reverseRecOn generalizing p with
  | nil =>
    obtain rfl : Phase.idle = p := by simpa using hrun
    exact h₀.symm
  | append_singleton h o ih =>
    rw [run_append] at hrun
    obtain ⟨q, hq, hlast⟩ := Option.bind_eq_some_iff.mp hrun
    have hn : q.next id o = some p := by simpa using hlast
    have hcount : n p = n q + (f o).toNat := by
      rcases next_cases hn with ⟨hc, rfl⟩ | he
      · simp [hother o hc]
      · exact hedge q o p he
    rw [List.countP_append, ih hq, hcount, List.countP_singleton]
    cases f o <;> rfl

/-- The `execute_` pointer in each phase. -/
def execute : Phase → Option ExecuteFn
  | idle => none
  | travelling | scheduled => some .onScheduleComplete
  | submitted | returned | completed | delivering _ | finished => some .onRequestComplete

/-- The receiver has been given its value. -/
def delivered : Phase → Bool
  | delivering _ | finished => true
  | _ => false

/-- `Next` has returned the tag. -/
def cameBack : Phase → Bool
  | returned | completed | delivering _ | finished => true
  | _ => false

/-- The receiver has returned. -/
def isOver : Phase → Bool
  | finished => true
  | _ => false

end Phase

namespace Observation

def isRpcInvoked (id : ℕ) : Observation → Bool
  | rpcInvoked k => k == id
  | _ => false

def isReturned (id : ℕ) : Observation → Bool
  | nextReturned tag _ => tag == some id
  | _ => false

def isSetValue (id : ℕ) : Observation → Bool
  | setValue k _ => k == id
  | _ => false

def isSetError (id : ℕ) : Observation → Bool
  | setError k => k == id
  | _ => false

def isCompleted (id : ℕ) : Observation → Bool
  | completed k _ => k == id
  | _ => false

/-- The receiver returned with the value it was given. -/
def isCompletedValue (id : ℕ) : Observation → Bool
  | completed k (.value _) => k == id
  | _ => false

end Observation

/-- What the receiver of operation `id` is given in the end: the value of the one
`set_value` call, or the error of the one `set_error` call that follows it. -/
structure GivenOnce (h : List Observation) (id : ℕ) : Prop where
  valueOnce : h.countP (·.isSetValue id) ≤ 1
  errorOnce : h.countP (·.isSetError id) ≤ 1
  /-- `set_error` is called after a `set_value` only -/
  errorAfterValue : ∀ h₁ h₂, h = h₁ ++ .setError id :: h₂ → ∃ ok, .setValue id ok ∈ h₁
  completedOnce : h.countP (·.isCompleted id) ≤ 1
  /-- it is completed by the value, if `set_error` was not called -/
  completedByValue : ∀ ok, .completed id (.value ok) ∈ h →
    .setValue id ok ∈ h ∧ .setError id ∉ h
  /-- or by the error, if it was -/
  completedByError : .completed id .error ∈ h → .setError id ∈ h

namespace Phase

variable {id : ℕ} {h : List Observation} {p : Phase}

/-- `rpc_` was invoked once if `execute_` is `OnRequestComplete`, else never. -/
theorem rpcInvocations_eq (hrun : Phase.idle.run id h = some p) :
    h.countP (·.isRpcInvoked id) = (p.execute == some .onRequestComplete).toNat := by
  refine countP_of_run (n := fun p => (p.execute == some .onRequestComplete).toNat) rfl ?_ ?_ hrun
  · intro o hc
    cases o <;> first | rfl | exact hc
  · intro p o p' he
    cases he <;> simp [Observation.isRpcInvoked, execute]

/-- `Next` has returned the tag once or not yet. -/
theorem returns_eq (hrun : Phase.idle.run id h = some p) :
    h.countP (·.isReturned id) = p.cameBack.toNat := by
  refine countP_of_run (n := fun p => p.cameBack.toNat) rfl ?_ ?_ hrun
  · intro o hc
    cases o <;> first | rfl | exact hc
  · intro p o p' he
    cases he <;> simp [Observation.isReturned, cameBack]

/-- The tag came back with one `ok`. -/
theorem returned_unique (hrun : Phase.idle.run id h = some p) {ok ok' : Bool}
    (hm : .nextReturned (some id) ok ∈ h) (hm' : .nextReturned (some id) ok' ∈ h) : ok' = ok := by
  have hone : h.countP (·.isReturned id) ≤ 1 := by
    rw [returns_eq hrun]
    exact Bool.toNat_le _
  have hsame := eq_of_countP_le_one hone hm' hm (by simp [Observation.isReturned])
    (by simp [Observation.isReturned])
  exact (Observation.nextReturned.inj hsame).2

/-- `set_value` was called once or not yet. -/
theorem setValues_eq (hrun : Phase.idle.run id h = some p) :
    h.countP (·.isSetValue id) = p.delivered.toNat := by
  refine countP_of_run (n := fun p => p.delivered.toNat) rfl ?_ ?_ hrun
  · intro o hc
    cases o <;> first | rfl | exact hc
  · intro p o p' he
    cases he <;> simp [Observation.isSetValue, delivered]

/-- The receiver has been completed once or not yet. -/
theorem completions_eq (hrun : Phase.idle.run id h = some p) :
    h.countP (·.isCompleted id) = p.isOver.toNat := by
  refine countP_of_run (n := fun p => p.isOver.toNat) rfl ?_ ?_ hrun
  · intro o hc
    cases o <;> first | rfl | exact hc
  · intro p o p' he
    cases he <;> simp [Observation.isCompleted, isOver]

/-- **`rpc_` is invoked before the result is delivered.** -/
theorem rpcInvoked_before_setValue (hrun : Phase.idle.run id h = some p)
    {h₁ h₂ : List Observation} {ok : Bool} (hsplit : h = h₁ ++ .setValue id ok :: h₂) :
    .rpcInvoked id ∈ h₁ := by
  rw [hsplit, run_append] at hrun
  obtain ⟨q, hq, hrest⟩ := Option.bind_eq_some_iff.mp hrun
  rw [run_cons] at hrest
  obtain ⟨q', hq', -⟩ := Option.bind_eq_some_iff.mp hrest
  -- the run is at `completed` when it reads the `setValue`
  have hcount : h₁.countP (·.isRpcInvoked id) = 1 := by
    rw [rpcInvocations_eq hq]
    rcases next_cases hq' with ⟨hc, -⟩ | he
    · simp [Observation.concerns] at hc
    · cases he
      rfl
  obtain ⟨o, ho, hrpc⟩ := List.countP_pos_iff.mp (by omega : 0 < h₁.countP (·.isRpcInvoked id))
  cases o <;> simp [Observation.isRpcInvoked] at hrpc
  exact hrpc ▸ ho

/-! ### What the receiver is given -/

/-- It did not take the value. -/
def failed : Phase → Bool
  | delivering .error => true
  | _ => false

/-- A receiver that runs with a value was given that value. -/
theorem setValue_of_delivering {ok : Bool}
    (hrun : Phase.idle.run id h = some (.delivering (.value ok))) : .setValue id ok ∈ h := by
  induction h using List.reverseRecOn with
  | nil => cases hrun
  | append_singleton h o ih =>
    rw [run_append] at hrun
    obtain ⟨q, hq, hlast⟩ := Option.bind_eq_some_iff.mp hrun
    have hn : q.next id o = some (.delivering (.value ok)) := by simpa using hlast
    rcases next_cases hn with ⟨-, rfl⟩ | he
    · exact List.mem_append_left _ (ih hq)
    · cases he with
      | setValue => exact List.mem_append_right _ (List.mem_singleton_self _)

/-- **`set_error` is called after `set_value`.** -/
theorem setValue_before_setError (hrun : Phase.idle.run id h = some p)
    {h₁ h₂ : List Observation} (hsplit : h = h₁ ++ .setError id :: h₂) :
    ∃ ok, .setValue id ok ∈ h₁ := by
  rw [hsplit, run_append] at hrun
  obtain ⟨q, hq, hrest⟩ := Option.bind_eq_some_iff.mp hrun
  rw [run_cons] at hrest
  obtain ⟨q', hq', -⟩ := Option.bind_eq_some_iff.mp hrest
  rcases next_cases hq' with ⟨hc, -⟩ | he
  · simp [Observation.concerns] at hc
  · cases he with
    | @setError ok => exact ⟨ok, setValue_of_delivering hq⟩

/-- The value the receiver returned with is the one it was given. -/
theorem setValue_of_completed (hrun : Phase.idle.run id h = some p) {ok : Bool}
    (hm : .completed id (.value ok) ∈ h) : .setValue id ok ∈ h := by
  obtain ⟨h₁, h₂, rfl⟩ := List.append_of_mem hm
  rw [run_append] at hrun
  obtain ⟨q, hq, hrest⟩ := Option.bind_eq_some_iff.mp hrun
  rw [run_cons] at hrest
  obtain ⟨q', hq', -⟩ := Option.bind_eq_some_iff.mp hrest
  rcases next_cases hq' with ⟨hc, -⟩ | he
  · simp [Observation.concerns] at hc
  · cases he with
    | finished => exact List.mem_append_left _ (setValue_of_delivering hq)

/-- `set_error` was called or the receiver returned with a value: one of them,
where the value was not taken and where it is over. -/
theorem endings_eq (hrun : Phase.idle.run id h = some p) :
    h.countP (fun o => o.isSetError id || o.isCompletedValue id)
      = (p.failed || p.isOver).toNat := by
  refine countP_of_run (n := fun p => (p.failed || p.isOver).toNat) rfl ?_ ?_ hrun
  · intro o hc
    cases o with
    | completed k r =>
      cases r with
      | value ok => exact hc
      | error => rfl
    | setError k =>
      show (k == id || false) = false
      rw [Bool.or_false]
      exact hc
    | _ => rfl
  · intro p o p' he
    cases he with
    | @finished r =>
      cases r <;> simp [Observation.isSetError, Observation.isCompletedValue, failed, isOver]
    | _ => simp [Observation.isSetError, Observation.isCompletedValue, failed, isOver]

/-- **The receiver is given one result.** -/
theorem givenOnce_of_run (hrun : Phase.idle.run id h = some p) : GivenOnce h id := by
  have hvalue : h.countP (·.isSetValue id) ≤ 1 := by
    rw [setValues_eq hrun]
    exact Bool.toNat_le _
  have hcompleted : h.countP (·.isCompleted id) ≤ 1 := by
    rw [completions_eq hrun]
    exact Bool.toNat_le _
  have hending : h.countP (fun o => o.isSetError id || o.isCompletedValue id) ≤ 1 := by
    rw [endings_eq hrun]
    exact Bool.toNat_le _
  refine ⟨hvalue, ?_, fun h₁ h₂ => setValue_before_setError hrun, hcompleted, ?_, ?_⟩
  · refine Nat.le_trans (List.countP_mono_left fun o _ ho => ?_) hending
    rw [ho, Bool.true_or]
  · intro ok hm
    refine ⟨setValue_of_completed hrun hm, fun herror => ?_⟩
    have hsame := eq_of_countP_le_one hending hm herror
      (by simp [Observation.isCompletedValue]) (by simp [Observation.isSetError])
    cases hsame
  · intro hm
    -- it is over, so one of the two endings occurred, and it was not the value
    have hover : p.isOver = true := by
      have hpos : 0 < h.countP (·.isCompleted id) :=
        List.countP_pos_iff.mpr ⟨_, hm, by simp [Observation.isCompleted]⟩
      rw [completions_eq hrun] at hpos
      by_contra hne
      rw [Bool.not_eq_true] at hne
      rw [hne] at hpos
      exact absurd hpos (Nat.lt_irrefl 0)
    have hone := endings_eq hrun
    rw [hover, Bool.or_true, Bool.toNat_true] at hone
    obtain ⟨o, ho, hend⟩ := List.countP_pos_iff.mp (hone ▸ Nat.one_pos)
    cases o with
    | setError k =>
      obtain rfl : k = id := by simpa [Observation.isSetError, Observation.isCompletedValue]
        using hend
      exact ho
    | completed k r =>
      cases r with
      | value ok =>
        have hk : k = id := by
          simpa [Observation.isSetError, Observation.isCompletedValue] using hend
        have hsame := eq_of_countP_le_one hcompleted hm ho
          (by simp [Observation.isCompleted]) (by simp [Observation.isCompleted, hk])
        cases hsame
      | error => simp [Observation.isSetError, Observation.isCompletedValue] at hend
    | _ => simp [Observation.isSetError, Observation.isCompletedValue] at hend

end Phase

end Agrpc
