/-
Agrpc/Base/CoarseTime.lean

What the coarse steady clock is worth.

* `coarse_times`: what is read never goes back and is never ahead of the steady
  clock, and the timestamps that are stored are four milliseconds apart;
* `coarse_lag`: if the thread that updates is never held up by more than `σ`, it
  is at most four milliseconds and `8 * σ` behind;
* `ends_after_exit`: from the destructor's store on, the worker stores each
  timestamp at most once more and comes to its end.
-/
import Agrpc.Base.CoarseClock
import Mathlib.Data.List.Infix

namespace Agrpc

open Interleaving

/-! ### Stores and reads -/

namespace ClockObservation

def storedSteady? : ClockObservation → Option ℤ
  | storedSteady now => some now
  | _ => none

def readSteady? : ClockObservation → Option ℤ
  | readSteady time => some time
  | _ => none

end ClockObservation

/-- The values stored in `steady_clock_time_since_epoch`, in order. -/
def storedTimes (h : List ClockObservation) : List ℤ := h.filterMap ClockObservation.storedSteady?

/-- What `ReadCoarseSteadyClock()` returned, in order. -/
def readTimes (h : List ClockObservation) : List ℤ := h.filterMap ClockObservation.readSteady?

theorem storedTimes_append (h e : List ClockObservation) :
    storedTimes (h ++ e) = storedTimes h ++ storedTimes e := List.filterMap_append ..

theorem readTimes_append (h e : List ClockObservation) :
    readTimes (h ++ e) = readTimes h ++ readTimes e := List.filterMap_append ..

/-! ### The timestamp -/

/-- What has been stored and read, in a process that started at time `start`. -/
structure TimesOk (start : ℤ) (c : CoarseClock) (h : List ClockObservation) : Prop where
  started : start ≤ c.steady
  behind : c.steadyTime ≤ c.steady
  last : storedTimes h = [] ∧ c.steadyTime = 0 ∨
    (storedTimes h).getLast? = some c.steadyTime ∧ start ≤ c.steadyTime
  spaced : (storedTimes h).IsChain fun x y => x + period ≤ y
  reads : (readTimes h ++ [c.steadyTime]).IsChain (· ≤ ·)
  origin : ∀ t ∈ readTimes h, t = 0 ∨ t ∈ storedTimes h

namespace TimesOk

variable {start : ℤ} {c c' : CoarseClock} {h e : List ClockObservation}

/-- A step that neither stores nor reads the timestamp. -/
theorem keep (hc : TimesOk start c h) (hle : c.steady ≤ c'.steady)
    (ht : c'.steadyTime = c.steadyTime) (hs : storedTimes e = []) (hr : readTimes e = []) :
    TimesOk start c' (h ++ e) := by
  have hstored : storedTimes (h ++ e) = storedTimes h := by
    rw [storedTimes_append, hs, List.append_nil]
  have hread : readTimes (h ++ e) = readTimes h := by
    rw [readTimes_append, hr, List.append_nil]
  refine ⟨hc.started.trans hle, ?_, ?_, ?_, ?_, ?_⟩
  · rw [ht]
    exact hc.behind.trans hle
  · rw [hstored, ht]
    exact hc.last
  · rw [hstored]
    exact hc.spaced
  · rw [hread, ht]
    exact hc.reads
  · rw [hread, hstored]
    exact hc.origin

/-- A store. -/
theorem store (hc : TimesOk start c h) (hstart : 0 ≤ start) {now : ℤ} (hnow : start ≤ now)
    (hle : now ≤ c.steady) (hgap : storedTimes h = [] ∨ c.steadyTime + period ≤ now)
    (ht : c'.steadyTime = now) (hsteady : c'.steady = c.steady) :
    TimesOk start c' (h ++ [.storedSteady now]) := by
  have hstored : storedTimes (h ++ [.storedSteady now]) = storedTimes h ++ [now] :=
    storedTimes_append h [.storedSteady now]
  have hread : readTimes (h ++ [.storedSteady now]) = readTimes h := by
    rw [readTimes_append]
    exact List.append_nil _
  -- the timestamp does not go back
  have hforward : c.steadyTime ≤ now := by
    rcases hc.last with ⟨-, hzero⟩ | ⟨hlast, -⟩
    · rw [hzero]
      exact hstart.trans hnow
    · rcases hgap with hnil | hgap
      · simp [hnil] at hlast
      · exact le_trans (by simp [period]) hgap
  refine ⟨by rw [hsteady]; exact hc.started, by rw [ht, hsteady]; exact hle, ?_, ?_, ?_, ?_⟩
  · rw [hstored, ht]
    exact Or.inr ⟨List.getLast?_concat, hnow⟩
  · rw [hstored]
    apply hc.spaced.append (List.isChain_singleton now)
    intro x hx y hy
    obtain rfl := Option.some.inj hy
    rcases hc.last with ⟨hnil, -⟩ | ⟨hlast, -⟩
    · simp [hnil] at hx
    · obtain rfl := Option.some.inj (hlast.symm.trans hx)
      exact hgap.resolve_left fun hnil => by simp [hnil] at hlast
  · rw [hread, ht]
    obtain ⟨hreads, -, hmax⟩ := List.isChain_append.mp hc.reads
    apply hreads.append (List.isChain_singleton now)
    intro x hx y hy
    obtain rfl := Option.some.inj hy
    exact (hmax x hx c.steadyTime rfl).trans hforward
  · rw [hread, hstored]
    intro t hm
    exact (hc.origin t hm).imp_right (List.mem_append_left _)

/-- A read. -/
theorem read (hc : TimesOk start c h) : TimesOk start c (h ++ [.readSteady c.steadyTime]) := by
  have hstored : storedTimes (h ++ [.readSteady c.steadyTime]) = storedTimes h := by
    rw [storedTimes_append]
    exact List.append_nil _
  have hread : readTimes (h ++ [.readSteady c.steadyTime]) = readTimes h ++ [c.steadyTime] :=
    readTimes_append h [.readSteady c.steadyTime]
  refine ⟨hc.started, hc.behind, ?_, ?_, ?_, ?_⟩
  · rw [hstored]
    exact hc.last
  · rw [hstored]
    exact hc.spaced
  · rw [hread]
    apply hc.reads.append (List.isChain_singleton c.steadyTime)
    intro x hx y hy
    obtain rfl := Option.some.inj (List.getLast?_concat.symm.trans hx)
    obtain rfl := Option.some.inj hy
    exact le_rfl
  · rw [hread, hstored]
    intro t hm
    rcases List.mem_append.mp hm with hm | hm
    · exact hc.origin t hm
    · rw [List.mem_singleton.mp hm]
      exact hc.last.imp (fun hz => hz.2) fun hl => List.mem_of_getLast? hl.1

end TimesOk

/-! ### The one thread that updates -/

/-- Where the constructor and the worker stand: only one of them updates, and
what it is about to store it has read since the last store. -/
structure UpdaterOk (start : ℤ) (c : CoarseClock) (h : List ClockObservation) : Prop where
  since : c.since ≤ c.steady
  notStarted : c.worker = .notStarted →
    (∃ pc, c.owner = .constructing pc) ∨ c.owner = .starting
  constructing : ∀ pc, c.owner = .constructing pc → c.worker = .notStarted
  starting : c.owner = .starting → c.worker = .notStarted
  first : c.owner = .constructing .readSteady → storedTimes h = []
  storing : ∀ now, c.owner = .constructing (.storeSteady now) →
    storedTimes h = [] ∧ start ≤ now ∧ now ≤ c.steady
  asleep : c.worker = .sleeping → c.steadyTime ≤ c.since
  woken : c.worker = .updating .readSteady → c.steadyTime + period ≤ c.steady
  restoring : ∀ now, c.worker = .updating (.storeSteady now) →
    start ≤ now ∧ c.steadyTime + period ≤ now ∧ now ≤ c.steady

structure ClockOk (start : ℤ) (c : CoarseClock) (h : List ClockObservation) : Prop where
  times : TimesOk start c h
  updater : UpdaterOk start c h

/-- **Every step keeps the invariant.** -/
theorem ClockOk.step {start : ℤ} {c c' : CoarseClock} {a : ClockAction}
    {h e : List ClockObservation} (hstart : 0 ≤ start) (hc : ClockOk start c h)
    (hs : ClockStep c a c' e) : ClockOk start c' (h ++ e) := by
  obtain ⟨ht, hu⟩ := hc
  have hbehind := ht.behind
  have hstarted := ht.started
  have hsince := hu.since
  cases hs with
  | @tick d system =>
    have hle : c.steady ≤ c.steady + d := le_add_of_nonneg_right (Int.natCast_nonneg d)
    refine ⟨ht.keep hle rfl rfl rfl, ?_⟩
    rw [List.append_nil]
    refine ⟨hu.since.trans hle, hu.notStarted, hu.constructing, hu.starting, hu.first, ?_,
      hu.asleep, ?_, ?_⟩
    · intro now ho
      exact (hu.storing now ho).imp_right fun hn => hn.imp_right fun hl => hl.trans hle
    · intro hw
      exact (hu.woken hw).trans hle
    · intro now hw
      obtain ⟨h₁, h₂, h₃⟩ := hu.restoring now hw
      exact ⟨h₁, h₂, h₃.trans hle⟩
  | readSteady =>
    refine ⟨ht.read, hu.since, hu.notStarted, hu.constructing, hu.starting, ?_, ?_, hu.asleep,
      hu.woken, hu.restoring⟩
    · intro ho
      rw [storedTimes_append, hu.first ho]
      rfl
    · intro now ho
      rw [storedTimes_append, (hu.storing now ho).1]
      exact ⟨rfl, (hu.storing now ho).2⟩
  | readSystem =>
    refine ⟨ht.keep le_rfl rfl rfl rfl, hu.since, hu.notStarted, hu.constructing, hu.starting, ?_,
      ?_, hu.asleep, hu.woken, hu.restoring⟩
    · intro ho
      rw [storedTimes_append, hu.first ho]
      rfl
    · intro now ho
      rw [storedTimes_append, (hu.storing now ho).1]
      exact ⟨rfl, (hu.storing now ho).2⟩
  | @setSteady now ho =>
    obtain ⟨hnil, hnow, hle⟩ := hu.storing now ho
    refine ⟨ht.store hstart hnow hle (Or.inl hnil) rfl rfl, ?_⟩
    have hw := hu.constructing _ ho
    constructor <;> simp [hw]
  | @resetSteady now hw =>
    obtain ⟨hnow, hgap, hle⟩ := hu.restoring now hw
    refine ⟨ht.store hstart hnow hle (Or.inr hgap) rfl rfl, ?_⟩
    have ho := hu.constructing
    have hst := hu.starting
    constructor <;> grind
  | lookSteady ho =>
    refine ⟨ht.keep le_rfl rfl rfl rfl, ?_⟩
    have hw := hu.constructing _ ho
    have hn := hu.first ho
    constructor <;> simp [hw, hn, hstarted]
  | lookSystem ho | setSystem ho =>
    refine ⟨ht.keep le_rfl rfl rfl rfl, ?_⟩
    have hw := hu.constructing _ ho
    constructor <;> simp [hw]
  | start ho =>
    refine ⟨ht.keep le_rfl rfl rfl rfl, ?_⟩
    constructor <;> simp
  -- steps of the worker are none of the constructor's, nor of the destructor's
  | sleep hw | finish hw | wake hw | relookSteady hw | relookSystem hw | resetSystem hw
  | destroy hw | join hw =>
    refine ⟨ht.keep le_rfl rfl rfl rfl, ?_⟩
    constructor <;> grind [UpdaterOk]

/-! ### Whole runs -/

section Runs

variable {start system : ℤ} {as : List ClockAction} {c : CoarseClock} {h : List ClockObservation}

theorem clockOk_init (hstart : 0 ≤ start) (system : ℤ) :
    ClockOk start (coarseClockMachine start system).init [] where
  times := ⟨le_rfl, hstart, Or.inl ⟨rfl, rfl⟩, .nil, List.isChain_singleton 0,
    fun _ hm => absurd hm List.not_mem_nil⟩
  updater := by
    constructor <;> simp [coarseClockMachine, storedTimes]

theorem clockOk_of_exec (hstart : 0 ≤ start)
    (hrun : (coarseClockMachine start system).exec as = some (c, h)) : ClockOk start c h :=
  Machine.exec_induction (I := fun c h => ClockOk start c h) (clockOk_init hstart system)
    (fun _ _ _ _ _ hI hs => hI.step hstart (clockStep_cases hs)) hrun

/-- Time does not go back. -/
theorem ClockStep.steady_le {c c' : CoarseClock} {a : ClockAction} {e : List ClockObservation}
    (hs : ClockStep c a c' e) : c.steady ≤ c'.steady := by
  cases hs with
  | @tick d => exact le_add_of_nonneg_right (Int.natCast_nonneg d)
  | _ => exact le_rfl

theorem steady_mono {bs : List ClockAction} {c' : CoarseClock} {h' : List ClockObservation}
    (hrun : (coarseClockMachine start system).exec as = some (c, h))
    (hrun' : (coarseClockMachine start system).exec (as ++ bs) = some (c', h')) :
    c.steady ≤ c'.steady := by
  obtain ⟨c₁, h₁, e, hl, hr, -⟩ := Machine.execFrom_append.mp hrun'
  obtain ⟨rfl, rfl⟩ := Prod.mk.inj (Option.some.inj (hrun.symm.trans hl))
  exact Machine.execFrom_induction (I := fun c' _ => c.steady ≤ c'.steady) le_rfl
    (fun _ _ _ _ _ hle hs => hle.trans (clockStep_cases hs).steady_le) hr

/-- **What the coarse steady clock shows.**  In every run, whatever reads it and
whenever: the readings never go back and are never ahead of the steady clock,
every one of them is one that was stored or, before the first update, the epoch,
and every timestamp that is stored is at least four milliseconds after the one
stored before it. -/
theorem coarse_times (hstart : 0 ≤ start)
    (hrun : (coarseClockMachine start system).exec as = some (c, h)) :
    (readTimes h ++ [c.steadyTime, c.steady]).IsChain (· ≤ ·) ∧
      (∀ t ∈ readTimes h, t = 0 ∨ t ∈ storedTimes h) ∧
      (storedTimes h).IsChain fun x y => x + period ≤ y := by
  obtain ⟨ht, -⟩ := clockOk_of_exec hstart hrun
  refine ⟨?_, ht.origin, ht.spaced⟩
  rw [show readTimes h ++ [c.steadyTime, c.steady]
      = (readTimes h ++ [c.steadyTime]) ++ [c.steady] by simp]
  apply ht.reads.append (List.isChain_singleton c.steady)
  intro x hx y hy
  obtain rfl := Option.some.inj (List.getLast?_concat.symm.trans hx)
  obtain rfl := Option.some.inj hy
  exact ht.behind

/-- The first update and the next, which is held up a little before it sleeps,
and again between the look at the clock and the store. -/
def twoUpdates : List ClockAction := List.flatten
  [List.replicate 5 .construct, [.readSteady, .tick 7 50, .work, .tick 4000010 60],
    [.work, .work, .tick 5 70, .work, .readSteady]]

theorem coarse_times_twoUpdates :
    ∃ c h, (coarseClockMachine 100 40).exec twoUpdates = some (c, h) ∧
      readTimes h = [100, 4000117] ∧ storedTimes h = [100, 4000117] ∧
      (readTimes h ++ [c.steadyTime, c.steady]).IsChain (· ≤ ·) ∧
      (∀ t ∈ readTimes h, t = 0 ∨ t ∈ storedTimes h) ∧
      (storedTimes h).IsChain fun x y => x + period ≤ y := by
  obtain ⟨c, h, hrun⟩ := (coarseClockMachine 100 40).exec_of_isSome twoUpdates (by decide +kernel)
  have hseen : ((coarseClockMachine 100 40).exec twoUpdates).map
      (fun p => (readTimes p.2, storedTimes p.2)) = some ([100, 4000117], [100, 4000117]) := by
    decide +kernel
  rw [hrun, Option.map_some] at hseen
  obtain ⟨hread, hstored⟩ := Prod.mk.inj (Option.some.inj hseen)
  exact ⟨c, h, hrun, hread, hstored, coarse_times (by decide) hrun⟩

/-! ### How far it is behind -/

/-- The thread that updates was not held up for more than `σ` at the program
point it stands at, but for the sleep. -/
def Prompt (σ : ℕ) (c : CoarseClock) : Prop :=
  c.worker = .finished ∨
    c.steady ≤ c.since + (if c.worker = .sleeping then period else 0) + σ

instance (σ : ℕ) (c : CoarseClock) : Decidable (Prompt σ c) := inferInstanceAs (Decidable (_ ∨ _))

/-- How long ago the timestamp was read from the steady clock when the thread
that updates came to its program point: `k` points of at most `σ` ago, and a
sleep. -/
structure LagOk (σ : ℕ) (c : CoarseClock) : Prop where
  storing : ∀ now, c.owner = .constructing (.storeSteady now) → c.since = now
  readSystem : c.owner = .constructing .readSystem → c.since ≤ c.steadyTime + σ
  storeSystem : ∀ now, c.owner = .constructing (.storeSystem now) → c.since ≤ c.steadyTime + 2 * σ
  starting : c.owner = .starting → c.since ≤ c.steadyTime + 3 * σ
  testing : c.worker = .testing → c.since ≤ c.steadyTime + 4 * σ
  asleep : c.worker = .sleeping → c.since ≤ c.steadyTime + 5 * σ
  woken : c.worker = .updating .readSteady → c.since ≤ c.steadyTime + period + 6 * σ
  restoring : ∀ now, c.worker = .updating (.storeSteady now) →
    c.since = now ∧ now ≤ c.steadyTime + period + 7 * σ
  rereadSystem : c.worker = .updating .readSystem → c.since ≤ c.steadyTime + σ
  restoreSystem : ∀ now, c.worker = .updating (.storeSystem now) →
    c.since ≤ c.steadyTime + 2 * σ

theorem LagOk.step {σ : ℕ} {c c' : CoarseClock} {a : ClockAction} {h e : List ClockObservation}
    (hu : UpdaterOk start c h) (hl : LagOk σ c) (hp : Prompt σ c) (hs : ClockStep c a c' e) :
    LagOk σ c' := by
  unfold Prompt at hp
  cases hs with
  | tick | readSteady | readSystem => exact ⟨hl.storing, hl.readSystem, hl.storeSystem,
      hl.starting, hl.testing, hl.asleep, hl.woken, hl.restoring, hl.rereadSystem,
      hl.restoreSystem⟩
  | _ => constructor <;> grind [UpdaterOk, LagOk]

theorem lagOk_of_exec (hstart : 0 ≤ start) {σ : ℕ}
    (hprompt : ∀ c h, (coarseClockMachine start system).Visits as c h → Prompt σ c)
    (hrun : (coarseClockMachine start system).exec as = some (c, h)) :
    UpdaterOk start c h ∧ LagOk σ c := by
  have hinv : ClockOk start c h ∧ LagOk σ c := by
    refine Machine.visits_induction (I := fun c h => ClockOk start c h ∧ LagOk σ c)
      (P := fun c _ _ => Prompt σ c) ⟨clockOk_init hstart system, ?_⟩ ?_ ?_
      (Machine.Visits.last hrun)
    · constructor <;> simp [coarseClockMachine]
    · rintro c h a c' e ⟨hc, hl⟩ hp hs
      exact ⟨hc.step hstart (clockStep_cases hs), hl.step hc.updater hp (clockStep_cases hs)⟩
    · exact fun c h a ht => hprompt c h ht.visits
  exact ⟨hinv.1.updater, hinv.2⟩

theorem steady_le_of_prompt (hstart : 0 ≤ start) {σ : ℕ}
    (hprompt : ∀ c h, (coarseClockMachine start system).Visits as c h → Prompt σ c)
    (hrun : (coarseClockMachine start system).exec as = some (c, h))
    (hw : c.worker ≠ .notStarted ∧ c.worker ≠ .finished) :
    c.steady ≤ c.steadyTime + period + 8 * σ := by
  obtain ⟨-, hl⟩ := lagOk_of_exec hstart hprompt hrun
  have hp := (hprompt c h (Machine.Visits.last hrun)).resolve_left hw.2
  have hperiod : 0 ≤ period := by decide
  cases hc : c.worker with
  | notStarted => exact absurd hc hw.1
  | finished => exact absurd hc hw.2
  | testing =>
    have hlag := hl.testing hc
    rw [hc, if_neg (by simp)] at hp
    omega
  | sleeping =>
    have hlag := hl.asleep hc
    rw [hc, if_pos rfl] at hp
    omega
  | updating pc =>
    rw [hc, if_neg (by simp)] at hp
    cases pc with
    | readSteady =>
      have hlag := hl.woken hc
      omega
    | storeSteady now =>
      obtain ⟨hsince, hlag⟩ := hl.restoring now hc
      omega
    | readSystem =>
      have hlag := hl.rereadSystem hc
      omega
    | storeSystem now =>
      have hlag := hl.restoreSystem now hc
      omega

/-- **How far the coarse steady clock is behind**: while the worker runs, four
milliseconds and eight times what the thread that updates was ever held up at a
program point, and no more.  That is less than the ten milliseconds `chrono.h`
promises if no hold-up comes to 750 microseconds. -/
theorem coarse_lag (hstart : 0 ≤ start) {σ : ℕ}
    (hprompt : ∀ c h, (coarseClockMachine start system).Visits as c h → Prompt σ c)
    (hrun : (coarseClockMachine start system).exec as = some (c, h))
    (hw : c.worker ≠ .notStarted ∧ c.worker ≠ .finished) :
    c.steadyTime ≤ c.steady ∧ c.steady ≤ c.steadyTime + period + 8 * σ :=
  ⟨(clockOk_of_exec hstart hrun).times.behind, steady_le_of_prompt hstart hprompt hrun hw⟩

theorem coarse_lag_twoUpdates :
    ∃ c h, (coarseClockMachine 100 40).exec twoUpdates = some (c, h) ∧
      c.steadyTime ≤ c.steady ∧ c.steady ≤ c.steadyTime + period + 8 * 10 := by
  obtain ⟨c, h, hrun, hworker⟩ := (coarseClockMachine 100 40).exec_of_test twoUpdates
    (fun c => c.worker = .updating .readSystem) (by decide +kernel)
  refine ⟨c, h, hrun, coarse_lag (by decide) (σ := 10) ?_ hrun ?_⟩
  · rintro c h ⟨bs, hp, hbs⟩
    have hall : ∀ bs ∈ twoUpdates.inits, ((coarseClockMachine 100 40).exec bs).all
        (fun p => Prompt 10 p.1) = true := by decide +kernel
    have hb := hall bs ((List.mem_inits bs twoUpdates).mpr hp)
    rw [hbs] at hb
    exact of_decide_eq_true hb
  · rw [of_decide_eq_true hworker]
    exact ⟨nofun, nofun⟩

/-! ### The end -/

/-- What is left to the worker once `exiting_` is set. -/
def WorkerPc.left : WorkerPc → ℕ
  | notStarted | finished => 0
  | testing => 1
  | updating (.storeSystem _) => 2
  | updating .readSystem => 3
  | updating (.storeSteady _) => 4
  | updating .readSteady => 5
  | sleeping => 6

theorem WorkerPc.left_le (pc : WorkerPc) : pc.left ≤ 6 := by
  cases pc with
  | updating pc => cases pc <;> simp [left]
  | _ => simp [left]

/-- The destructor has set `exiting_`. -/
def Ending (c : CoarseClock) : Prop :=
  c.exiting = true ∧ (c.owner = .joining ∨ c.owner = .destroyed)

/-- While the destructor waits, the worker uses up what is left to it. -/
theorem left_pays (start system : ℤ) :
    Machine.Pays (coarseClockMachine start system) Ending (fun c => c.worker.left)
      (fun a => if a = .work then 1 else 0) fun _ => 0 := by
  rintro c a c' e ⟨hx, ho⟩ hs
  cases clockStep_cases hs with
  | lookSteady ho' | setSteady ho' | lookSystem ho' | setSystem ho' | start ho' | destroy ho' =>
    rcases ho with ho | ho <;> simp [ho] at ho'
  | sleep hw hx' => simp [hx] at hx'
  | tick | readSteady | readSystem => exact ⟨⟨hx, ho⟩, Nat.le_of_eq (Nat.zero_add _)⟩
  | join => exact ⟨⟨hx, Or.inr rfl⟩, Nat.le_of_eq (Nat.zero_add _)⟩
  | finish hw | wake hw | relookSteady hw | resetSteady hw | relookSystem hw | resetSystem hw =>
    refine ⟨⟨hx, ho⟩, ?_⟩
    simp [hw, WorkerPc.left]

/-- Nor does it wait for anything but time. -/
theorem work_isSome {start system : ℤ} {c : CoarseClock}
    (hw : c.worker ≠ .notStarted ∧ c.worker ≠ .finished)
    (ht : c.worker = .sleeping → c.since + period ≤ c.steady) :
    ((coarseClockMachine start system).step c .work).isSome = true := by
  show c.work.isSome = true
  unfold CoarseClock.work
  cases hc : c.worker with
  | notStarted => exact absurd hc hw.1
  | finished => exact absurd hc hw.2
  | sleeping => simp [ht hc]
  | testing | updating => rfl

/-- What is stored while the destructor waits. -/
theorem stores_step {c c' : CoarseClock} {a : ClockAction} {e : List ClockObservation}
    (hend : Ending c) (hs : ClockStep c a c' e) :
    (storedTimes e).length + (if 4 ≤ c'.worker.left then 1 else 0)
      ≤ if 4 ≤ c.worker.left then 1 else 0 := by
  obtain ⟨hx, ho⟩ := hend
  cases hs with
  | lookSteady ho' | setSteady ho' | lookSystem ho' | setSystem ho' | start ho' | destroy ho' =>
    rcases ho with ho | ho <;> simp [ho] at ho'
  | sleep hw hx' => simp [hx] at hx'
  | tick | readSteady | readSystem | join => exact Nat.le_of_eq (Nat.zero_add _)
  | finish hw | wake hw | relookSteady hw | resetSteady hw | relookSystem hw | resetSystem hw =>
    simp [hw, WorkerPc.left, storedTimes, ClockObservation.storedSteady?]

theorem stores_of_exec {start system : ℤ} {c c' : CoarseClock} {bs : List ClockAction}
    {e : List ClockObservation} (hend : Ending c)
    (hrun : (coarseClockMachine start system).execFrom c bs = some (c', e)) :
    Ending c' ∧ (storedTimes e).length + (if 4 ≤ c'.worker.left then 1 else 0)
      ≤ if 4 ≤ c.worker.left then 1 else 0 := by
  refine Machine.execFrom_induction
    (I := fun c' e => Ending c' ∧ (storedTimes e).length + (if 4 ≤ c'.worker.left then 1 else 0)
      ≤ if 4 ≤ c.worker.left then 1 else 0) ⟨hend, Nat.le_of_eq (Nat.zero_add _)⟩ ?_ hrun
  rintro c₁ e₁ a c₂ e₂ ⟨h₁, hle⟩ hs
  have hstep := stores_step h₁ (clockStep_cases hs)
  refine ⟨(left_pays start system c₁ a c₂ e₂ h₁ hs).1, ?_⟩
  rw [storedTimes_append, List.length_append]
  omega

/-- **The destructor comes to its end.**  From its store of `exiting_` on the
worker makes at most six steps more and stores the timestamp at most once, and
until it has finished it can go on, unless it sleeps out its four
milliseconds. -/
theorem ends_after_exit (hstart : 0 ≤ start) {bs : List ClockAction} {c' : CoarseClock}
    {e : List ClockObservation} (hrun : (coarseClockMachine start system).exec as = some (c, h))
    (hend : Ending c)
    (hrun' : (coarseClockMachine start system).exec (as ++ bs) = some (c', h ++ e)) :
    bs.count .work ≤ 6 ∧ (storedTimes e).length ≤ 1 ∧
      (c'.worker = .finished ∨
        ((coarseClockMachine start system).step c' .work).isSome = true ∨
        c'.worker = .sleeping ∧ c'.steady < c'.since + period) := by
  obtain ⟨c₁, h₁, e₁, h₁run, hrest, he⟩ := Machine.execFrom_append.mp hrun'
  obtain ⟨rfl, rfl⟩ : c₁ = c ∧ h₁ = h := by simpa using h₁run.symm.trans hrun
  obtain rfl := List.append_cancel_left he
  obtain ⟨⟨-, hexit⟩, hwork⟩ := (left_pays start system).execFrom_le hend hrest
  obtain ⟨-, hstores⟩ := stores_of_exec hend hrest
  refine ⟨?_, ?_, ?_⟩
  · rw [total_count, total_zero] at hwork
    have hleft := c₁.worker.left_le
    omega
  · split_ifs at hstores <;> omega
  · -- the destructor runs after the constructor, so there is a worker
    have hstarted : c'.worker ≠ .notStarted := by
      intro hw
      rcases (clockOk_of_exec hstart hrun').updater.notStarted hw with ⟨pc, ho⟩ | ho <;>
        rcases hexit with hexit | hexit <;> simp [ho] at hexit
    by_cases hw : c'.worker = .finished
    · exact Or.inl hw
    · refine Or.inr (or_iff_not_imp_right.mpr fun hsleep => work_isSome ⟨hstarted, hw⟩ ?_)
      intro hc
      exact not_lt.mp fun hlt => hsleep ⟨hc, hlt⟩

/-- The destructor is called while the worker is in an update. -/
theorem ends_after_exit_twoUpdates :
    ∃ c e, (coarseClockMachine 100 40).exec (twoUpdates ++ [.destroy] ++
        [.work, .work, .readSteady, .work, .join]) = some (c, e) ∧
      [ClockAction.work, .work, .readSteady, .work, .join].count .work ≤ 6 ∧
      (c.worker = .finished ∨ ((coarseClockMachine 100 40).step c .work).isSome = true ∨
        c.worker = .sleeping ∧ c.steady < c.since + period) := by
  obtain ⟨c, h, hrun, hend⟩ := (coarseClockMachine 100 40).exec_of_test (twoUpdates ++ [.destroy])
    (fun c => c.exiting = true ∧ c.owner = .joining) (by decide +kernel)
  obtain ⟨hx, ho⟩ := of_decide_eq_true hend
  obtain ⟨c', h', hrun'⟩ := (coarseClockMachine 100 40).exec_of_isSome (twoUpdates ++ [.destroy]
    ++ [.work, .work, .readSteady, .work, .join]) (by decide +kernel)
  obtain ⟨_, _, e, hfirst, -, rfl⟩ := Machine.execFrom_append.mp hrun'
  obtain ⟨rfl, rfl⟩ := Prod.mk.inj (Option.some.inj (hrun.symm.trans hfirst))
  have hall := ends_after_exit (by decide) hrun ⟨hx, Or.inl ho⟩ hrun'
  exact ⟨c', _, hrun', hall.1, hall.2.2⟩

end Runs

end Agrpc
