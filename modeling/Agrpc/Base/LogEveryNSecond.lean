/-
Agrpc/Base/LogEveryNSecond.lean

`AGRPC_LOG_*_EVERY_SECOND` (`agrpc/base/logging.h`): one site of
`AGRPC_DETAIL_LOGGING_LOG_EVERY_N_SECOND_IMPL` and the threads that call it.

The state has the two static atomics of the site and where every thread stands.
An action is one atomic operation, so every interleaving of them is a run: the
load of the coarse clock begins a call with any value, and every other step of
a thread is determined by the state.

Times are 64-bit counts of nanoseconds; where adding the window to one
overflows the step has no result.
-/
import Agrpc.Lib.FixedWidth
import Agrpc.Lib.Machine
import Agrpc.Lib.TryLock
import Mathlib.Logic.Function.Basic

namespace Agrpc

open FixedWidth Interleaving TryLock

/-! ### The state -/

/-- Where a thread stands in the macro; `now` is `agrpc_anonymous_now`. -/
inductive LogPc where
  /-- not in a call -/
  | outside
  /-- before the first load of `log_last_occurs` -/
  | readNow (now : ℤ)
  /-- the first test passed; before the exchange -/
  | firstTestPassed (now : ℤ)
  /-- the exchange returned false; before the second load -/
  | entered (now : ℤ)
  /-- `really_write` is true; before the store of `log_last_occurs` -/
  | storing (now : ℤ)
  /-- before the store that clears `logging` -/
  | leaving (now : ℤ) (reallyWrite : Bool)
  /-- before the message is written -/
  | writing (now : ℤ)
  deriving DecidableEq, Repr

namespace LogPc

/-- Between the exchange that returned false and the store that clears
`logging`. -/
@[simp] def inSection : LogPc → Bool
  | entered _ | storing _ | leaving _ _ => true
  | _ => false

/-- The time the call has read. -/
@[simp] def now? : LogPc → Option ℤ
  | outside => none
  | readNow now | firstTestPassed now | entered now | storing now | leaving now _
  | writing now => some now

/-- The thread has been admitted with the time `t` and has not written its
message yet. -/
@[simp] def owesMessage (t : ℤ) : LogPc → Bool
  | leaving now true | writing now => now = t
  | _ => false

end LogPc

structure LogSite where
  /-- `agrpc_anonymous_log_last_occurs` -/
  logLastOccurs : ℤ := 0
  /-- `agrpc_anonymous_logging` -/
  logging : Bool := false
  pc : ℕ → LogPc := fun _ => .outside

inductive LogAction where
  /-- the thread calls the macro and reads `now` from the coarse clock -/
  | call (thread : ℕ) (now : ℤ)
  /-- the thread goes on with its next atomic operation -/
  | goOn (thread : ℕ)
  deriving DecidableEq, Repr

inductive LogObservation where
  /-- `log_last_occurs` was set to `now` -/
  | admitted (thread : ℕ) (now : ℤ)
  /-- the message was written -/
  | written (thread : ℕ) (now : ℤ)
  deriving DecidableEq, Repr

/-! ### The macro -/

/-- `std::chrono::seconds(n)`, as nanoseconds. -/
def seconds (n : ℕ) : Option ℤ := IntType.int64.mul n 1000000000

/-- `last + std::chrono::seconds(n) < now`. -/
def isDue (n : ℕ) (last now : ℤ) : Option Bool :=
  (seconds n).bind fun window =>
    (IntType.int64.add last window).map fun bound => decide (bound < now)

namespace LogSite

def setPc (s : LogSite) (t : ℕ) (pc : LogPc) : LogSite :=
  { s with pc := Function.update s.pc t pc }

/-- One atomic operation. -/
def step (n : ℕ) (s : LogSite) : LogAction → Option (LogSite × List LogObservation)
  | .call t now => if s.pc t = .outside then some (s.setPc t (.readNow now), []) else none
  | .goOn t =>
      match s.pc t with
      | .outside => none
      | .readNow now =>
          (isDue n s.logLastOccurs now).map fun due =>
            (s.setPc t (if due then .firstTestPassed now else .outside), [])
      | .firstTestPassed now =>
          some ({ s with logging := true }.setPc t (if !s.logging then .entered now else .outside),
            [])
      | .entered now =>
          (isDue n s.logLastOccurs now).map fun reallyWrite =>
            (s.setPc t (if reallyWrite then .storing now else .leaving now false), [])
      | .storing now =>
          some ({ s with logLastOccurs := now }.setPc t (.leaving now true), [.admitted t now])
      | .leaving now reallyWrite =>
          some ({ s with logging := false }.setPc t
            (if reallyWrite then .writing now else .outside), [])
      | .writing now => some (s.setPc t .outside, [.written t now])

end LogSite

/-- One site, with any number of threads. -/
def everyNSecondSite (n : ℕ) : Machine LogSite LogAction LogObservation where
  init := {}
  step := LogSite.step n

/-! ### The outcomes of a step -/

/-- `LogStep n s a s' e`: the action `a` takes `s` to `s'` and emits `e`. -/
inductive LogStep (n : ℕ) (s : LogSite) : LogAction → LogSite → List LogObservation → Prop
  | call {t now} (hpc : s.pc t = .outside) :
      LogStep n s (.call t now) (s.setPc t (.readNow now)) []
  | firstTest {t now due} (hpc : s.pc t = .readNow now)
      (hdue : isDue n s.logLastOccurs now = some due) :
      LogStep n s (.goOn t) (s.setPc t (if due then .firstTestPassed now else .outside)) []
  | lockTaken {t now} (hpc : s.pc t = .firstTestPassed now) (hlog : s.logging = true) :
      LogStep n s (.goOn t) (s.setPc t .outside) []
  | lock {t now} (hpc : s.pc t = .firstTestPassed now) (hlog : s.logging = false) :
      LogStep n s (.goOn t) ({ s with logging := true }.setPc t (.entered now)) []
  | secondTest {t now due} (hpc : s.pc t = .entered now)
      (hdue : isDue n s.logLastOccurs now = some due) :
      LogStep n s (.goOn t) (s.setPc t (if due then .storing now else .leaving now false)) []
  | store {t now} (hpc : s.pc t = .storing now) :
      LogStep n s (.goOn t) ({ s with logLastOccurs := now }.setPc t (.leaving now true))
        [.admitted t now]
  | unlock {t now reallyWrite} (hpc : s.pc t = .leaving now reallyWrite) :
      LogStep n s (.goOn t)
        ({ s with logging := false }.setPc t (if reallyWrite then .writing now else .outside)) []
  | write {t now} (hpc : s.pc t = .writing now) :
      LogStep n s (.goOn t) (s.setPc t .outside) [.written t now]

theorem logStep_cases {n : ℕ} {s s' : LogSite} {a : LogAction} {e : List LogObservation}
    (h : (everyNSecondSite n).step s a = some (s', e)) : LogStep n s a s' e := by
  change LogSite.step n s a = some (s', e) at h
  cases a with
  | call t now =>
    rw [LogSite.step, Option.ite_none_right_eq_some] at h
    obtain ⟨hpc, h⟩ := h
    cases h
    exact .call hpc
  | goOn t =>
    rw [LogSite.step] at h
    cases hpc : s.pc t with
    | outside => simp [hpc] at h
    | readNow now =>
      simp only [hpc, Option.map_eq_some_iff] at h
      obtain ⟨due, hdue, heq⟩ := h
      cases heq
      exact .firstTest hpc hdue
    | firstTestPassed now =>
      simp only [hpc] at h
      cases hlog : s.logging with
      | true =>
        simp only [hlog] at h
        cases h
        have hs : { s with logging := true } = s := by rw [← hlog]
        simp only [hs]
        exact .lockTaken hpc hlog
      | false =>
        simp only [hlog] at h
        cases h
        exact .lock hpc hlog
    | entered now =>
      simp only [hpc, Option.map_eq_some_iff] at h
      obtain ⟨due, hdue, heq⟩ := h
      cases heq
      exact .secondTest hpc hdue
    | storing now =>
      simp only [hpc] at h
      cases h
      exact .store hpc
    | leaving now reallyWrite =>
      simp only [hpc] at h
      cases h
      exact .unlock hpc
    | writing now =>
      simp only [hpc] at h
      cases h
      exact .write hpc

end Agrpc
