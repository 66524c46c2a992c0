/-
Agrpc/Base/CoarseClock.lean

The coarse clocks (`agrpc/base/chrono.h` and `chrono.cc`): the two timestamps
`CoarseClockInitializer` keeps up to date, the thread that constructs and
destroys it, the worker it starts, and anybody who reads.

The state has the real clocks beside the timestamps.  Time passes by an action
of its own: the steady clock goes on, the system clock goes anywhere.  Every
other action is one load or store of an atomic, or one look at a real clock.
Times are nanoseconds since the clock's epoch.
-/
import Agrpc.Lib.Potential
import Mathlib.Algebra.Order.Ring.Int
import Mathlib.Data.List.Chain

namespace Agrpc

open Interleaving

/-! ### The state -/

/-- Where a thread stands in `UpdateCoarseTimestamps`. -/
inductive UpdatePc where
  /-- before `steady_clock::now()` -/
  | readSteady
  /-- before the store of its result -/
  | storeSteady (now : ℤ)
  /-- before `system_clock::now()` -/
  | readSystem
  /-- before the store of its result -/
  | storeSystem (now : ℤ)
  deriving DecidableEq, Repr

/-- The thread `coarse_clock_initializer` lives on. -/
inductive OwnerPc where
  /-- in the first update, in the constructor -/
  | constructing (pc : UpdatePc)
  /-- before `worker_` is started -/
  | starting
  /-- the constructor has returned -/
  | running
  /-- the destructor has set `exiting_` and is in `join` -/
  | joining
  | destroyed
  deriving DecidableEq, Repr

inductive WorkerPc where
  | notStarted
  /-- before the load of `exiting_` -/
  | testing
  /-- in `sleep_for(4ms)` -/
  | sleeping
  | updating (pc : UpdatePc)
  | finished
  deriving DecidableEq, Repr

structure CoarseClock where
  /-- `std::chrono::steady_clock` -/
  steady : ℤ
  /-- `std::chrono::system_clock` -/
  system : ℤ
  /-- `steady_clock_time_since_epoch` -/
  steadyTime : ℤ := 0
  /-- `system_clock_time_since_epoch` -/
  systemTime : ℤ := 0
  /-- `exiting_` -/
  exiting : Bool := false
  /-- when the thread that updates came to its program point; read by
  `sleep_for` only -/
  since : ℤ
  owner : OwnerPc := .constructing .readSteady
  worker : WorkerPc := .notStarted
  deriving DecidableEq, Repr

inductive ClockAction where
  /-- the steady clock goes on by `d`, the system clock is set to `system` -/
  | tick (d : ℕ) (system : ℤ)
  /-- the constructor goes on -/
  | construct
  /-- the worker goes on -/
  | work
  /-- the destructor is called -/
  | destroy
  /-- `worker_.join()` returns -/
  | join
  /-- `ReadCoarseSteadyClock()` -/
  | readSteady
  /-- `ReadCoarseSystemClock()` -/
  | readSystem
  deriving DecidableEq, Repr

inductive ClockObservation where
  | storedSteady (now : ℤ)
  | storedSystem (now : ℤ)
  | readSteady (time : ℤ)
  | readSystem (time : ℤ)
  deriving DecidableEq, Repr

/-! ### The code -/

/-- `sleep_for(4ms)`. -/
def period : ℤ := 4000000

namespace CoarseClock

/-- `UpdateCoarseTimestamps`, on to its next program point, if there is one. -/
def updateCoarseTimestamps (c : CoarseClock) :
    UpdatePc → CoarseClock × Option UpdatePc × List ClockObservation
  | .readSteady => (c, some (.storeSteady c.steady), [])
  | .storeSteady now => ({ c with steadyTime := now }, some .readSystem, [.storedSteady now])
  | .readSystem => (c, some (.storeSystem c.system), [])
  | .storeSystem now => ({ c with systemTime := now }, none, [.storedSystem now])

/-- The constructor. -/
def construct (c : CoarseClock) : Option (CoarseClock × List ClockObservation) :=
  match c.owner with
  | .constructing pc =>
      let (c, next, e) := c.updateCoarseTimestamps pc
      let owner := match next with
        | some pc => .constructing pc
        | none => .starting
      some ({ c with since := c.steady, owner := owner }, e)
  | .starting =>
      some ({ c with since := c.steady, owner := .running, worker := .testing }, [])
  | _ => none

/-- The loop of the worker. -/
def work (c : CoarseClock) : Option (CoarseClock × List ClockObservation) :=
  match c.worker with
  | .testing =>
      let worker := if !c.exiting then .sleeping else .finished
      some ({ c with since := c.steady, worker := worker }, [])
  | .sleeping =>
      if c.since + period ≤ c.steady then
        some ({ c with since := c.steady, worker := .updating .readSteady }, [])
      else none
  | .updating pc =>
      let (c, next, e) := c.updateCoarseTimestamps pc
      let worker := match next with
        | some pc => .updating pc
        | none => .testing
      some ({ c with since := c.steady, worker := worker }, e)
  | _ => none

def step (c : CoarseClock) : ClockAction → Option (CoarseClock × List ClockObservation)
  | .tick d system => some ({ c with steady := c.steady + d, system := system }, [])
  | .construct => c.construct
  | .work => c.work
  | .destroy =>
      if c.owner = .running then some ({ c with exiting := true, owner := .joining }, []) else none
  | .join =>
      if c.owner = .joining ∧ c.worker = .finished then
        some ({ c with owner := .destroyed }, [])
      else none
  | .readSteady => some (c, [.readSteady c.steadyTime])
  | .readSystem => some (c, [.readSystem c.systemTime])

end CoarseClock

/-- The coarse clocks of a process that starts at time `steady` of the steady
clock and `system` of the system clock. -/
def coarseClockMachine (steady system : ℤ) : Machine CoarseClock ClockAction ClockObservation where
  init := { steady := steady, system := system, since := steady }
  step := CoarseClock.step

/-! ### The outcomes of a step -/

/-- `ClockStep c a c' e`: the action `a` takes `c` to `c'` and emits `e`. -/
inductive ClockStep (c : CoarseClock) :
    ClockAction → CoarseClock → List ClockObservation → Prop
  | tick {d : ℕ} {system : ℤ} :
      ClockStep c (.tick d system) { c with steady := c.steady + d, system := system } []
  | readSteady : ClockStep c .readSteady c [.readSteady c.steadyTime]
  | readSystem : ClockStep c .readSystem c [.readSystem c.systemTime]
  -- the first update, and the start of the worker
  | lookSteady (ho : c.owner = .constructing .readSteady) :
      ClockStep c .construct
        { c with since := c.steady, owner := .constructing (.storeSteady c.steady) } []
  | setSteady {now : ℤ} (ho : c.owner = .constructing (.storeSteady now)) :
      ClockStep c .construct
        { c with steadyTime := now, since := c.steady, owner := .constructing .readSystem }
        [.storedSteady now]
  | lookSystem (ho : c.owner = .constructing .readSystem) :
      ClockStep c .construct
        { c with since := c.steady, owner := .constructing (.storeSystem c.system) } []
  | setSystem {now : ℤ} (ho : c.owner = .constructing (.storeSystem now)) :
      ClockStep c .construct
        { c with systemTime := now, since := c.steady, owner := .starting } [.storedSystem now]
  | start (ho : c.owner = .starting) :
      ClockStep c .construct
        { c with since := c.steady, owner := .running, worker := .testing } []
  -- the worker
  | sleep (hw : c.worker = .testing) (hx : c.exiting = false) :
      ClockStep c .work { c with since := c.steady, worker := .sleeping } []
  | finish (hw : c.worker = .testing) (hx : c.exiting = true) :
      ClockStep c .work { c with since := c.steady, worker := .finished } []
  | wake (hw : c.worker = .sleeping) (ht : c.since + period ≤ c.steady) :
      ClockStep c .work { c with since := c.steady, worker := .updating .readSteady } []
  | relookSteady (hw : c.worker = .updating .readSteady) :
      ClockStep c .work
        { c with since := c.steady, worker := .updating (.storeSteady c.steady) } []
  | resetSteady {now : ℤ} (hw : c.worker = .updating (.storeSteady now)) :
      ClockStep c .work
        { c with steadyTime := now, since := c.steady, worker := .updating .readSystem }
        [.storedSteady now]
  | relookSystem (hw : c.worker = .updating .readSystem) :
      ClockStep c .work
        { c with since := c.steady, worker := .updating (.storeSystem c.system) } []
  | resetSystem {now : ℤ} (hw : c.worker = .updating (.storeSystem now)) :
      ClockStep c .work
        { c with systemTime := now, since := c.steady, worker := .testing } [.storedSystem now]
  -- the destructor
  | destroy (ho : c.owner = .running) :
      ClockStep c .destroy { c with exiting := true, owner := .joining } []
  | join (ho : c.owner = .joining) (hw : c.worker = .finished) :
      ClockStep c .join { c with owner := .destroyed } []

theorem clockStep_cases {c c' : CoarseClock} {a : ClockAction} {e : List ClockObservation}
    (h : c.step a = some (c', e)) : ClockStep c a c' e := by
  cases a with
  | tick d system =>
    cases h
    exact .tick
  | readSteady =>
    cases h
    exact .readSteady
  | readSystem =>
    cases h
    exact .readSystem
  | destroy =>
    simp only [CoarseClock.step, Option.ite_none_right_eq_some, Option.some.injEq,
      Prod.mk.injEq] at h
    obtain ⟨ho, rfl, rfl⟩ := h
    exact .destroy ho
  | join =>
    simp only [CoarseClock.step, Option.ite_none_right_eq_some, Option.some.injEq,
      Prod.mk.injEq] at h
    obtain ⟨⟨ho, hw⟩, rfl, rfl⟩ := h
    exact .join ho hw
  | construct =>
    change c.construct = some (c', e) at h
    cases ho : c.owner with
    | running | joining | destroyed => simp [CoarseClock.construct, ho] at h
    | starting =>
      simp only [CoarseClock.construct, ho] at h
      cases h
      exact .start ho
    | constructing pc =>
      simp only [CoarseClock.construct, ho] at h
      cases pc with
      | readSteady => cases h; exact .lookSteady ho
      | storeSteady now => cases h; exact .setSteady ho
      | readSystem => cases h; exact .lookSystem ho
      | storeSystem now => cases h; exact .setSystem ho
  | work =>
    change c.work = some (c', e) at h
    cases hw : c.worker with
    | notStarted | finished => simp [CoarseClock.work, hw] at h
    | testing =>
      simp only [CoarseClock.work, hw] at h
      cases h
      cases hx : c.exiting with
      | true => simpa [hx] using ClockStep.finish hw hx
      | false => simpa [hx] using ClockStep.sleep hw hx
    | sleeping =>
      simp only [CoarseClock.work, hw, Option.ite_none_right_eq_some, Option.some.injEq,
        Prod.mk.injEq] at h
      obtain ⟨ht, rfl, rfl⟩ := h
      exact .wake hw ht
    | updating pc =>
      simp only [CoarseClock.work, hw] at h
      cases pc with
      | readSteady => cases h; exact .relookSteady hw
      | storeSteady now => cases h; exact .resetSteady hw
      | readSystem => cases h; exact .relookSystem hw
      | storeSystem now => cases h; exact .resetSystem hw

end Agrpc
