/-
Agrpc/Base/LogOnce.lean

`AGRPC_LOG_*_ONCE` and its `_IF_` form (`agrpc/base/logging.h`): one site of
`AGRPC_INTERNAL_DETAIL_LOG_ONCE` and the threads that call it.

An action is one atomic operation.  The first test is a relaxed load, which may
see an old value: that the flag is clear although another thread has set it.
What a thread has seen once it goes on seeing, so the load is free to see
`false` as long as the thread has not seen `true` (`seen`).

* `logs_once`: however late the flag is seen, the site writes one message and
  no more, and a thread comes to the exchange at most once.
-/
import Agrpc.Lib.Machine
import Mathlib.Data.List.Perm.Subperm
import Mathlib.Logic.Function.Basic

namespace Agrpc

open Interleaving

/-! ### The state -/

/-- Where a thread stands in the macro. -/
inductive OncePc where
  /-- not in a call -/
  | outside
  /-- before the load of `logged` -/
  | loading
  /-- the load returned false; before the exchange -/
  | exchanging
  /-- the exchange returned false; before the message is written -/
  | writing
  deriving DecidableEq, Repr

structure OnceSite where
  /-- `agrpc_anonymous_logged` -/
  logged : Bool := false
  /-- the thread has seen that `logged` is set -/
  seen : ℕ → Bool := fun _ => false
  pc : ℕ → OncePc := fun _ => .outside

inductive OnceAction where
  /-- the thread calls the macro, with the condition of the `_IF_` form -/
  | call (thread : ℕ) (expr : Bool)
  /-- the load returns `value` -/
  | load (thread : ℕ) (value : Bool)
  /-- the exchange -/
  | exchange (thread : ℕ)
  /-- the message is written -/
  | write (thread : ℕ)
  deriving DecidableEq, Repr

inductive OnceObservation where
  /-- the exchange returned `was` -/
  | exchanged (thread : ℕ) (was : Bool)
  /-- the message was written -/
  | written (thread : ℕ)
  /-- a call whose condition holds has returned -/
  | returned (thread : ℕ)
  deriving DecidableEq, Repr

/-! ### The macro -/

namespace OnceSite

def setPc (s : OnceSite) (t : ℕ) (pc : OncePc) : OnceSite :=
  { s with pc := Function.update s.pc t pc }

/-- The thread sees that the flag is set. -/
def see (s : OnceSite) (t : ℕ) : OnceSite := { s with seen := Function.update s.seen t true }

def step (s : OnceSite) : OnceAction → Option (OnceSite × List OnceObservation)
  | .call t expr =>
      if s.pc t = .outside then some (if expr then s.setPc t .loading else s, []) else none
  | .load t value =>
      if s.pc t = .loading ∧ (value = true → s.logged = true) ∧ (s.seen t = true → value = true)
      then
        if !value then some (s.setPc t .exchanging, [])
        else some ((s.see t).setPc t .outside, [.returned t])
      else none
  | .exchange t =>
      if s.pc t = .exchanging then
        if !s.logged then
          some (({ s with logged := true }.see t).setPc t .writing, [.exchanged t false])
        else some ((s.see t).setPc t .outside, [.exchanged t true, .returned t])
      else none
  | .write t =>
      if s.pc t = .writing then some (s.setPc t .outside, [.written t, .returned t]) else none

section Fields

variable (s : OnceSite) (t u : ℕ) (pc : OncePc)

@[simp] theorem setPc_pc : (s.setPc t pc).pc u = if u = t then pc else s.pc u :=
  Function.update_apply ..

@[simp] theorem setPc_logged : (s.setPc t pc).logged = s.logged := rfl

@[simp] theorem setPc_seen : (s.setPc t pc).seen = s.seen := rfl

@[simp] theorem see_seen : (s.see t).seen u = if u = t then true else s.seen u :=
  Function.update_apply ..

@[simp] theorem see_logged : (s.see t).logged = s.logged := rfl

@[simp] theorem see_pc : (s.see t).pc = s.pc := rfl

end Fields

end OnceSite

/-- One site, with any number of threads. -/
def onceSite : Machine OnceSite OnceAction OnceObservation where
  init := {}
  step := OnceSite.step

def OnceAction.thread : OnceAction → ℕ
  | call t _ | load t _ | exchange t | write t => t

/-! ### The outcomes of a step -/

/-- `OnceStep s a s' e`: the action `a` takes `s` to `s'` and emits `e`. -/
inductive OnceStep (s : OnceSite) : OnceAction → OnceSite → List OnceObservation → Prop
  | skip {t} (hpc : s.pc t = .outside) : OnceStep s (.call t false) s []
  | call {t} (hpc : s.pc t = .outside) : OnceStep s (.call t true) (s.setPc t .loading) []
  | loadFalse {t} (hpc : s.pc t = .loading) (hseen : s.seen t = false) :
      OnceStep s (.load t false) (s.setPc t .exchanging) []
  | loadTrue {t} (hpc : s.pc t = .loading) (hlogged : s.logged = true) :
      OnceStep s (.load t true) ((s.see t).setPc t .outside) [.returned t]
  | win {t} (hpc : s.pc t = .exchanging) (hlogged : s.logged = false) :
      OnceStep s (.exchange t) (({ s with logged := true }.see t).setPc t .writing)
        [.exchanged t false]
  | lose {t} (hpc : s.pc t = .exchanging) (hlogged : s.logged = true) :
      OnceStep s (.exchange t) ((s.see t).setPc t .outside) [.exchanged t true, .returned t]
  | write {t} (hpc : s.pc t = .writing) :
      OnceStep s (.write t) (s.setPc t .outside) [.written t, .returned t]

theorem onceStep_cases {s s' : OnceSite} {a : OnceAction} {e : List OnceObservation}
    (h : onceSite.step s a = some (s', e)) : OnceStep s a s' e := by
  change s.step a = some (s', e) at h
  cases a with
  | call t expr =>
    rw [OnceSite.step, Option.ite_none_right_eq_some] at h
    obtain ⟨hpc, h⟩ := h
    cases expr with
    | true => cases h; exact .call hpc
    | false => cases h; exact .skip hpc
  | load t value =>
    rw [OnceSite.step, Option.ite_none_right_eq_some] at h
    obtain ⟨⟨hpc, hlogged, hseen⟩, h⟩ := h
    cases value with
    | true => cases h; exact .loadTrue hpc (hlogged rfl)
    | false =>
      cases h
      exact .loadFalse hpc (Bool.eq_false_iff.mpr fun hs => Bool.false_ne_true (hseen hs))
  | exchange t =>
    rw [OnceSite.step, Option.ite_none_right_eq_some] at h
    obtain ⟨hpc, h⟩ := h
    cases hlogged : s.logged with
    | true =>
      rw [hlogged] at h
      cases h
      exact .lose hpc hlogged
    | false =>
      rw [hlogged] at h
      cases h
      exact .win hpc hlogged
  | write t =>
    rw [OnceSite.step, Option.ite_none_right_eq_some] at h
    obtain ⟨hpc, h⟩ := h
    cases h
    exact .write hpc

/-! ### Messages -/

namespace OnceObservation

def winner? : OnceObservation → Option ℕ
  | exchanged t false => some t
  | _ => none

def writer? : OnceObservation → Option ℕ
  | written t => some t
  | _ => none

end OnceObservation

/-- The threads whose exchange returned false. -/
def winners (h : List OnceObservation) : List ℕ := h.filterMap OnceObservation.winner?

/-- The threads that wrote the message. -/
def writers (h : List OnceObservation) : List ℕ := h.filterMap OnceObservation.writer?

theorem winners_append (h e : List OnceObservation) :
    winners (h ++ e) = winners h ++ winners e := List.filterMap_append ..

/-! ### The invariant -/

/-- What a thread that stands at `pc` has done: how often its exchange returned
false and true, and how often it has written. -/
structure OnceThreadOk (seen : Bool) (pc : OncePc) (won lost written : ℕ) : Prop where
  owed : won = written + (if pc = .writing then 1 else 0)
  unseen : pc = .exchanging → seen = false
  exchanges : won + lost ≤ seen.toNat

structure OnceOk (s : OnceSite) (h : List OnceObservation) : Prop where
  won : (winners h).length = s.logged.toNat
  seen : ∀ t, s.seen t = true → s.logged = true
  returned : ∀ t, .returned t ∈ h → s.logged = true
  threads : ∀ t, OnceThreadOk (s.seen t) (s.pc t) (h.count (.exchanged t false))
    (h.count (.exchanged t true)) (h.count (.written t))

section Step

variable {s s' : OnceSite} {a : OnceAction} {h e : List OnceObservation}

/-- A step is one of its thread's only. -/
theorem OnceStep.other (hs : OnceStep s a s' e) {u : ℕ} (hu : u ≠ a.thread) :
    s'.pc u = s.pc u ∧ s'.seen u = s.seen u ∧ e.count (.exchanged u false) = 0 ∧
      e.count (.exchanged u true) = 0 ∧ e.count (.written u) = 0 := by
  have hu' := hu.symm
  cases hs <;> simp [OnceAction.thread] at hu hu' <;> simp [hu, hu']

theorem OnceStep.acting (hs : OnceStep s a s' e) {won lost written : ℕ}
    (ht : OnceThreadOk (s.seen a.thread) (s.pc a.thread) won lost written) :
    OnceThreadOk (s'.seen a.thread) (s'.pc a.thread) (won + e.count (.exchanged a.thread false))
      (lost + e.count (.exchanged a.thread true)) (written + e.count (.written a.thread)) := by
  obtain ⟨howed, hunseen, hexch⟩ := ht
  cases hs with
  | skip => exact ⟨howed, hunseen, hexch⟩
  | @call t hpc =>
    change won = written + (if s.pc t = .writing then 1 else 0) at howed
    rw [hpc] at howed
    exact ⟨by simpa [OnceAction.thread] using howed, by simp [OnceAction.thread], hexch⟩
  | @loadFalse t hpc hfalse =>
    change won = written + (if s.pc t = .writing then 1 else 0) at howed
    rw [hpc] at howed
    exact ⟨by simpa [OnceAction.thread] using howed, fun _ => hfalse, hexch⟩
  | @loadTrue t hpc =>
    change won = written + (if s.pc t = .writing then 1 else 0) at howed
    rw [hpc] at howed
    refine ⟨by simpa [OnceAction.thread] using howed, by simp [OnceAction.thread], ?_⟩
    simpa [OnceAction.thread] using Nat.le_trans hexch (Bool.toNat_le _)
  | @win t hpc | @lose t hpc =>
    change won = written + (if s.pc t = .writing then 1 else 0) at howed
    change won + lost ≤ (s.seen t).toNat at hexch
    rw [hpc] at howed
    rw [show s.seen t = false from hunseen hpc] at hexch
    obtain ⟨rfl, rfl⟩ : won = 0 ∧ lost = 0 := by simpa using hexch
    obtain rfl : written = 0 := by simpa using howed.symm
    constructor <;> simp [OnceAction.thread]
  | @write t hpc =>
    change won = written + (if s.pc t = .writing then 1 else 0) at howed
    rw [hpc] at howed
    exact ⟨by simpa [OnceAction.thread] using howed, by simp [OnceAction.thread],
      by simpa [OnceAction.thread] using hexch⟩

/-- The flag is set by the exchange that returns false. -/
theorem OnceStep.logged (hs : OnceStep s a s' e) :
    s'.logged.toNat = s.logged.toNat + (winners e).length ∧
      (∀ t, s'.seen t = true → s.seen t = true ∨ s'.logged = true) ∧
      ∀ t, .returned t ∈ e → s'.logged = true ∨ s.pc t = .writing := by
  cases hs with
  | skip | call | loadFalse => exact ⟨rfl, fun _ => Or.inl, nofun⟩
  | loadTrue hpc hlogged =>
    exact ⟨rfl, fun _ _ => Or.inr hlogged, fun _ _ => Or.inl hlogged⟩
  | lose hpc hlogged =>
    exact ⟨rfl, fun _ _ => Or.inr hlogged, fun _ _ => Or.inl hlogged⟩
  | win hpc hlogged => exact ⟨by rw [hlogged]; rfl, fun _ _ => Or.inr rfl, nofun⟩
  | write hpc =>
    refine ⟨rfl, fun _ => Or.inl, ?_⟩
    intro u hu
    obtain rfl : u = _ := by simpa using hu
    exact Or.inr hpc

/-- Who is about to write has won. -/
theorem OnceOk.logged_of_writing (hs : OnceOk s h) {t : ℕ} (hpc : s.pc t = .writing) :
    s.logged = true := by
  apply hs.seen t
  have ht := hs.threads t
  have howed := ht.owed
  have hexch := ht.exchanges
  rw [hpc, if_pos rfl] at howed
  cases hseen : s.seen t with
  | true => rfl
  | false =>
    rw [hseen] at hexch
    change _ ≤ 0 at hexch
    omega

theorem OnceOk.step (hs : OnceOk s h) (hstep : OnceStep s a s' e) : OnceOk s' (h ++ e) := by
  obtain ⟨hlogged, hseen, hreturned⟩ := hstep.logged
  have hstays : s.logged = true → s'.logged = true := by
    intro hl
    rw [hl] at hlogged
    cases h' : s'.logged with
    | true => rfl
    | false =>
      rw [h'] at hlogged
      change 0 = 1 + _ at hlogged
      omega
  refine ⟨?_, ?_, ?_, ?_⟩
  · rw [winners_append, List.length_append, hs.won, hlogged]
  · intro t ht
    exact (hseen t ht).elim (fun ht => hstays (hs.seen t ht)) id
  · intro t ht
    rcases List.mem_append.mp ht with ht | ht
    · exact hstays (hs.returned t ht)
    · exact (hreturned t ht).elim id fun hpc => hstays (hs.logged_of_writing hpc)
  · intro t
    rw [List.count_append, List.count_append, List.count_append]
    by_cases ht : t = a.thread
    · subst ht
      exact hstep.acting (hs.threads a.thread)
    · obtain ⟨hpc, hseen, hwon, hlost, hwritten⟩ := hstep.other ht
      rw [hpc, hseen, hwon, hlost, hwritten]
      exact hs.threads t

end Step

/-! ### Whole runs -/

section Runs

variable {as : List OnceAction} {s : OnceSite} {h : List OnceObservation}

theorem onceOk_of_exec (hrun : onceSite.exec as = some (s, h)) : OnceOk s h := by
  refine Machine.exec_induction (I := OnceOk) ?_ ?_ hrun
  · exact ⟨rfl, nofun, nofun, fun t => ⟨rfl, nofun, Nat.le_refl 0⟩⟩
  · exact fun s h a s' e hs hstep => hs.step (onceStep_cases hstep)

theorem count_winners (t : ℕ) (h : List OnceObservation) :
    (winners h).count t = h.count (.exchanged t false) := by
  rw [winners, List.count_filterMap]
  congr 1
  funext o
  apply Bool.eq_iff_iff.mpr
  cases o with
  | exchanged u was => cases was <;> simp [OnceObservation.winner?]
  | _ => simp [OnceObservation.winner?]

theorem count_writers (t : ℕ) (h : List OnceObservation) :
    (writers h).count t = h.count (.written t) := by
  rw [writers, List.count_filterMap]
  congr 1
  funext o
  apply Bool.eq_iff_iff.mpr
  cases o <;> simp [OnceObservation.writer?]

/-- The winners are those who have written or are about to. -/
theorem OnceOk.mem_winners (hs : OnceOk s h) (t : ℕ) :
    t ∈ winners h ↔ .written t ∈ h ∨ s.pc t = .writing := by
  rw [← List.count_pos_iff, count_winners, (hs.threads t).owed, ← List.count_pos_iff]
  by_cases hpc : s.pc t = .writing <;> simp [hpc]

/-- **A site logs once.**  In every interleaving, however late the threads see
the flag:

* the message is written at most once;
* if any call has come back, one thread has written the message or is about to,
  and it has won;
* a thread comes to the exchange at most once. -/
theorem logs_once (hrun : onceSite.exec as = some (s, h)) :
    (writers h).length ≤ 1 ∧
      (∀ t, .returned t ∈ h → ∃! u, .written u ∈ h ∨ s.pc u = .writing) ∧
      ∀ t, h.count (.exchanged t false) + h.count (.exchanged t true) ≤ 1 := by
  have hs := onceOk_of_exec hrun
  refine ⟨?_, ?_, ?_⟩
  · calc (writers h).length ≤ (winners h).length := by
          apply List.Subperm.length_le
          apply List.subperm_ext_iff.mpr
          intro t _
          rw [count_writers, count_winners, (hs.threads t).owed]
          exact Nat.le_add_right _ _
      _ ≤ 1 := hs.won ▸ Bool.toNat_le _
  · intro t ht
    have hwon := hs.won
    rw [hs.returned t ht] at hwon
    obtain ⟨u, hu⟩ := List.length_eq_one_iff.mp hwon
    refine ⟨u, (hs.mem_winners u).mp (by simp [hu]), ?_⟩
    intro v hv
    have hmem := (hs.mem_winners v).mpr hv
    rw [hu] at hmem
    exact List.mem_singleton.mp hmem
  · exact fun t => Nat.le_trans (hs.threads t).exchanges (Bool.toNat_le _)

/-- Both threads pass the first test; thread `1` sees the flag when it comes
back, and thread `2` still does not. -/
def lateLoads : List OnceAction :=
  [.call 0 true, .call 1 true, .load 1 false, .load 0 false, .exchange 0, .exchange 1, .call 2 true,
    .write 0, .load 2 false, .call 1 true, .load 1 true, .exchange 2, .call 0 false]

theorem logs_once_lateLoads :
    ∃ s h, onceSite.exec lateLoads = some (s, h) ∧ writers h = [0] ∧ (writers h).length ≤ 1 ∧
      (∀ t, .returned t ∈ h → ∃! u, .written u ∈ h ∨ s.pc u = .writing) ∧
      ∀ t, h.count (.exchanged t false) + h.count (.exchanged t true) ≤ 1 := by
  obtain ⟨s, h, hrun⟩ := onceSite.exec_of_isSome lateLoads rfl
  have hseen : (onceSite.exec lateLoads).map (fun p => writers p.2) = some [0] := rfl
  rw [hrun, Option.map_some] at hseen
  exact ⟨s, h, hrun, Option.some.inj hseen, logs_once hrun⟩

end Runs

end Agrpc
