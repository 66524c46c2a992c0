/-
Agrpc/Base/ClockedLog.lean

A site of `AGRPC_LOG_*_EVERY_SECOND` that reads the coarse clock.

`LogWindow` takes the times the calls read as given; here they are what
`ReadCoarseSteadyClock()` returns, in a process whose coarse clock is kept by
`CoarseClockInitializer` while any number of threads log.  So what the limiter
promises in timestamps it promises in the time of the steady clock:

* `written_le`: in time `T` the site writes at most one message, and one more
  for every window in `T`;
* `admits_after_window`: a call that is made when the last admission is a window
  past, and as much as the coarse clock may be behind, and that runs
  uninterrupted, writes its message.
-/
import Agrpc.Lib.ReadBy
import Agrpc.Base.CoarseTime
import Agrpc.Base.LogWindow

namespace Agrpc

open Interleaving

/-! ### The site and its clock -/

/-- What a thread does at the site. -/
inductive SiteAction where
  /-- the thread calls the macro and reads the coarse clock -/
  | call (thread : ℕ)
  /-- the thread goes on with its next atomic operation -/
  | goOn (thread : ℕ)
  deriving DecidableEq, Repr

/-- `ReadCoarseSteadyClock().time_since_epoch()`. -/
def SiteAction.read (c : CoarseClock) : SiteAction → LogAction
  | call t => .call t c.steadyTime
  | goOn t => .goOn t

def clockedSite (n : ℕ) (start system : ℤ) :
    Machine (CoarseClock × LogSite) (ClockAction ⊕ SiteAction)
      (ClockObservation ⊕ LogObservation) :=
  (coarseClockMachine start system).readBy (everyNSecondSite n) SiteAction.read

namespace LogObservation

def admitted? : LogObservation → Option (ℕ × ℤ)
  | admitted t now => some (t, now)
  | _ => none

def written? : LogObservation → Option (ℕ × ℤ)
  | written t now => some (t, now)
  | _ => none

end LogObservation

/-- The messages that were written, each with its thread and the time it was
admitted with. -/
def messages (h : List LogObservation) : List (ℕ × ℤ) := h.filterMap LogObservation.written?

/-! ### Counting -/

theorem pairwise_of_spaced {w : ℤ} (hw : 0 ≤ w) {l : List ℤ}
    (h : l.IsChain fun x y => x + w < y) : l.Pairwise fun x y => x + w < y := by
  have htrans : IsTrans ℤ fun x y => x + w < y := ⟨fun x y z hxy hyz => by omega⟩
  exact List.isChain_iff_pairwise.mp h

/-- Members of an interval that are more than `w` apart. -/
theorem length_mul_le {w lo hi : ℤ} {l : List ℤ} (hspaced : l.Pairwise fun x y => x + w < y)
    (hlo : ∀ x ∈ l, lo ≤ x) (hhi : ∀ x ∈ l, x ≤ hi) (hle : lo ≤ hi + w + 1) :
    l.length * (w + 1) ≤ hi - lo + (w + 1) := by
  induction l generalizing lo with
  | nil =>
    rw [List.length_nil, Nat.cast_zero, zero_mul]
    omega
  | cons x l ih =>
    obtain ⟨hnext, hrest⟩ := List.pairwise_cons.mp hspaced
    have hx := hlo x List.mem_cons_self
    have hxhi := hhi x List.mem_cons_self
    have hlen := ih hrest hnext (fun y hy => hhi y (List.mem_cons_of_mem x hy)) (by omega)
    rw [List.length_cons, Nat.cast_succ, add_mul, one_mul]
    omega

/-- No more is written than was admitted. -/
theorem length_messages_le {h : List LogObservation}
    (howed : ∀ t x, h.count (.written t x) ≤ h.count (.admitted t x)) :
    (messages h).length ≤ (admissions h).length := by
  have hadmissions : admissions h = (h.filterMap LogObservation.admitted?).map Prod.snd := by
    rw [List.map_filterMap, admissions]
    congr 1
    funext o
    cases o <;> rfl
  rw [hadmissions, List.length_map]
  apply List.Subperm.length_le
  apply List.subperm_ext_iff.mpr
  rintro ⟨t, x⟩ -
  rw [messages, List.count_filterMap, List.count_filterMap]
  have hwritten : (fun o => LogObservation.written? o == some (t, x))
      = (· == LogObservation.written t x) := by
    funext o
    apply Bool.eq_iff_iff.mpr
    cases o <;> simp [LogObservation.written?]
  have hadmitted : (fun o => LogObservation.admitted? o == some (t, x))
      = (· == LogObservation.admitted t x) := by
    funext o
    apply Bool.eq_iff_iff.mpr
    cases o <;> simp [LogObservation.admitted?]
  rw [hwritten, hadmitted]
  exact howed t x

/-! ### The times of the calls -/

section Site

variable {n : ℕ} {C : ℤ → Prop}

/-- Where a thread goes it takes a time it has. -/
theorem now_setPc {s : LogSite} {t u : ℕ} {pc : LogPc} {now : ℤ}
    (hpc : ∀ x, pc.now? = some x → (s.pc t).now? = some x)
    (hu : ((s.setPc t pc).pc u).now? = some now) : (s.pc u).now? = some now := by
  by_cases h : u = t
  · subst h
    rw [setPc_pc_self] at hu
    exact hpc now hu
  · rw [setPc_pc_of_ne h] at hu
    exact hu

/-- A time is read before it is used. -/
theorem LogStep.times {s s' : LogSite} {a : LogAction} {e : List LogObservation}
    (hs : LogStep n s a s' e) :
    (∀ t now, (s'.pc t).now? = some now → (s.pc t).now? = some now ∨ a = .call t now) ∧
      ∀ x ∈ admissions e, ∃ t, (s.pc t).now? = some x := by
  cases hs with
  | @call t now hpc =>
    refine ⟨?_, fun x hx => absurd hx List.not_mem_nil⟩
    intro u x hu
    by_cases h : u = t
    · subst h
      rw [setPc_pc_self] at hu
      cases hu
      exact Or.inr rfl
    · rw [setPc_pc_of_ne h] at hu
      exact Or.inl hu
  | firstTest hpc | secondTest hpc | unlock hpc =>
    refine ⟨fun u x hu => Or.inl (now_setPc ?_ hu), fun x hx => absurd hx List.not_mem_nil⟩
    rw [hpc]
    split <;> simp
  | lockTaken hpc | write hpc =>
    exact ⟨fun u x hu => Or.inl (now_setPc (by simp) hu), fun x hx => absurd hx List.not_mem_nil⟩
  | lock hpc =>
    refine ⟨fun u x hu => Or.inl (now_setPc (s := s) ?_ hu),
      fun x hx => absurd hx List.not_mem_nil⟩
    rw [hpc]
    exact fun _ hx => hx
  | @store t now hpc =>
    refine ⟨fun u x hu => Or.inl (now_setPc (s := s) ?_ hu), ?_⟩
    · rw [hpc]
      exact fun _ hx => hx
    · intro x hx
      obtain rfl := List.mem_singleton.mp hx
      exact ⟨t, by rw [hpc]; rfl⟩

/-- The threads at a site use only times they have read: what is true of these
is true of the admissions. -/
theorem times_of_exec {as : List LogAction} {s : LogSite} {h : List LogObservation}
    (hcalls : ∀ t now, .call t now ∈ as → C now)
    (hrun : (everyNSecondSite n).exec as = some (s, h)) : ∀ x ∈ admissions h, C x := by
  have hinv : (∀ t now, (s.pc t).now? = some now → C now) ∧ ∀ x ∈ admissions h, C x := by
    refine Machine.visits_induction
      (I := fun s h => (∀ t now, (s.pc t).now? = some now → C now) ∧ ∀ x ∈ admissions h, C x)
      (P := fun _ _ a => ∀ t now, a = .call t now → C now) ⟨nofun, nofun⟩ ?_ ?_
      (Machine.Visits.last hrun)
    · rintro s h a s' e ⟨hpc, hadm⟩ hcall hs
      obtain ⟨htimes, hnew⟩ := (logStep_cases hs).times
      refine ⟨?_, ?_⟩
      · intro t now hnow
        exact (htimes t now hnow).elim (hpc t now) (hcall t now)
      · intro x hx
        rw [admissions, List.filterMap_append] at hx
        rcases List.mem_append.mp hx with hx | hx
        · exact hadm x hx
        · obtain ⟨t, ht⟩ := hnew x hx
          exact hpc t x ht
    · rintro s h a ht t now rfl
      exact hcalls t now ht.mem
  exact hinv.2

end Site

/-! ### In the time of the steady clock -/

section Runs

variable {n : ℕ} {start system : ℤ} {as : List (ClockAction ⊕ SiteAction)} {c : CoarseClock}
variable {s : LogSite} {h : List (ClockObservation ⊕ LogObservation)}

/-- A run of the site in a process with a coarse clock: the times its calls read
are the epoch or between the start and now. -/
theorem exec_site (hstart : 0 ≤ start)
    (hrun : (clockedSite n start system).exec as = some ((c, s), h)) :
    ∃ bs, (everyNSecondSite n).exec bs = some (s, h.filterMap Sum.getRight?) ∧
      ∀ t now, .call t now ∈ bs → (now = 0 ∨ start ≤ now) ∧ now ≤ c.steady := by
  obtain ⟨bs, hbs, hread⟩ := Machine.exec_right hrun
  refine ⟨bs, hbs, ?_⟩
  intro t now hmem
  obtain ⟨c₁, s₁, h₁, g, ⟨cs, ⟨ds, rfl⟩, hcs⟩, hg⟩ := hread _ hmem
  obtain rfl : now = c₁.steadyTime := by
    cases g with
    | call u => exact (LogAction.call.inj hg).2
    | goOn u => exact LogAction.noConfusion hg
  have hclock := clockOk_of_exec hstart (Machine.exec_left hcs)
  have hfull := Machine.exec_left hrun
  rw [List.filterMap_append] at hfull
  refine ⟨?_, hclock.times.behind.trans (steady_mono (Machine.exec_left hcs) hfull)⟩
  exact hclock.times.last.imp (fun hl => hl.2) fun hl => hl.2

theorem siteOk_of_clock (hstart : 0 ≤ start) (hend : c.steady + window n < 2 ^ 63)
    (hrun : (clockedSite n start system).exec as = some ((c, s), h)) :
    SiteOk n s (h.filterMap Sum.getRight?) := by
  obtain ⟨bs, hbs, hcalls⟩ := exec_site hstart hrun
  refine siteOk_of_visits ?_ (Machine.Visits.last hbs)
  intro t now hmem
  obtain ⟨hlow, hle⟩ := hcalls t now hmem
  refine ⟨?_, by omega⟩
  rcases hlow with h0 | hlow
  · exact h0.ge
  · exact hstart.trans hlow

/-- **The limiter limits the rate.**  Whatever the threads do, a site writes at
most one message, and one more for every `N` seconds that have passed since the
process started. -/
theorem written_le (hstart : 0 ≤ start) (hend : c.steady + window n < 2 ^ 63)
    (hrun : (clockedSite n start system).exec as = some ((c, s), h)) :
    (messages (h.filterMap Sum.getRight?)).length ≤ 1 + (c.steady - start) / (window n + 1) := by
  have hs := siteOk_of_clock hstart hend hrun
  have hw := window_nonneg n
  obtain ⟨bs, hbs, hcalls⟩ := exec_site hstart hrun
  have htimes := times_of_exec hcalls hbs
  -- nothing is admitted at the epoch
  obtain ⟨hfirst, hspaced⟩ := List.pairwise_cons.mp (pairwise_of_spaced hw hs.spaced)
  have hlow : ∀ x ∈ admissions (h.filterMap Sum.getRight?), start ≤ x := by
    intro x hx
    have hpos := hfirst x hx
    exact (htimes x hx).1.resolve_left (by omega)
  have hstarted := (clockOk_of_exec hstart (Machine.exec_left hrun)).times.started
  have hlen : ((admissions (h.filterMap Sum.getRight?)).length : ℤ) * (window n + 1)
      ≤ c.steady - start + (window n + 1) :=
    length_mul_le hspaced hlow (fun x hx => (htimes x hx).2) (by omega)
  have hmessages := length_messages_le fun t x => by
    rw [← (hs.threads t).owed x]
    exact Nat.le_add_right _ _
  have hadmitted : ((admissions (h.filterMap Sum.getRight?)).length : ℤ) - 1
      ≤ (c.steady - start) / (window n + 1) := by
    apply (Int.le_ediv_iff_mul_le (by omega)).mpr
    rw [sub_mul, one_mul]
    omega
  omega

/-- **Nor does it limit more.**  While the worker of the coarse clock runs, has
not been held up for more than `σ`, and the steady clock is more than a window
away from overflowing: a call that is made while no other is in the section, when
the last admission is further back than `N` seconds and what the coarse clock may
be behind, and that runs uninterrupted, is admitted and writes its message. -/
theorem admits_after_window (hstart : 0 ≤ start) (hend : c.steady + window n < 2 ^ 63)
    (hrun : (clockedSite n start system).exec as = some ((c, s), h)) {σ : ℕ}
    (hprompt : ∀ c s h, (clockedSite n start system).Visits as (c, s) h → Prompt σ c)
    (hw : c.worker ≠ .notStarted ∧ c.worker ≠ .finished)
    (hlog : s.logging = false) {t : ℕ} (ht : s.pc t = .outside)
    (hlate : s.logLastOccurs + window n + (period + 8 * σ) < c.steady) :
    (clockedSite n start system).execFrom (c, s)
        (.inr (.call t) :: List.replicate 6 (.inr (.goOn t)))
      = some ((c, { s with logLastOccurs := c.steadyTime }),
          [.inr (.admitted t c.steadyTime), .inr (.written t c.steadyTime)]) := by
  have hs := siteOk_of_clock hstart hend hrun
  have hleft := Machine.exec_left hrun
  have hlag := steady_le_of_prompt hstart (σ := σ) (fun c h hv => by
    obtain ⟨s, l, hv'⟩ := Machine.visits_left hrun hv
    exact hprompt c s l hv') hleft hw
  have hbehind := (clockOk_of_exec hstart hleft).times.behind
  have hw := window_nonneg n
  have hfits : Fits n c.steadyTime := ⟨by have := hs.fits.1; omega, by omega⟩
  have hdue : isDue n s.logLastOccurs c.steadyTime = some true := by
    rw [isDue_of_fits (hs.fits_last hfits), decide_eq_true (by omega)]
  have halone : (everyNSecondSite n).execFrom s
      ((SiteAction.call t :: List.replicate 6 (.goOn t)).map (SiteAction.read c)) = some _ :=
    alone_due ht hlog hdue
  exact Machine.execFrom_right halone

/-- The coarse clock is started and brought up to date once, and two threads
log.  Thread `1` has passed the first test when thread `0` is admitted. -/
def twoLoggers : List (ClockAction ⊕ SiteAction) := List.flatten
  [List.replicate 5 (.inl .construct), [.inl (.tick 3 0), .inl .work, .inr (.call 1),
      .inr (.goOn 1), .inl (.tick 4000002 0)],
    List.replicate 4 (.inl .work), .inr (.call 0) :: List.replicate 6 (.inr (.goOn 0)),
    List.replicate 3 (.inr (.goOn 1))]

theorem written_le_twoLoggers :
    ∃ c s h, (clockedSite 1 2000000000 0).exec twoLoggers = some ((c, s), h) ∧
      messages (h.filterMap Sum.getRight?) = [(0, 2004000005)] ∧
      (messages (h.filterMap Sum.getRight?)).length
        ≤ 1 + (c.steady - 2000000000) / (window 1 + 1) := by
  obtain ⟨⟨c, s⟩, h, hrun, hend⟩ := (clockedSite 1 2000000000 0).exec_of_test twoLoggers
    (fun p => p.1.steady + window 1 < 2 ^ 63) (by decide +kernel)
  have hseen : ((clockedSite 1 2000000000 0).exec twoLoggers).map
      (fun p => messages (p.2.filterMap Sum.getRight?)) = some [(0, 2004000005)] := by
    decide +kernel
  rw [hrun, Option.map_some] at hseen
  exact ⟨c, s, h, hrun, Option.some.inj hseen,
    written_le (by decide) (of_decide_eq_true hend) hrun⟩

/-- Thread `0` logs while the clock is not held up for more than three
nanoseconds; the epoch is two seconds back. -/
theorem admits_after_window_twoLoggers :
    ∃ c s h, (clockedSite 1 2000000000 0).exec (twoLoggers.take 14) = some ((c, s), h) ∧
      (clockedSite 1 2000000000 0).execFrom (c, s)
          (.inr (.call 0) :: List.replicate 6 (.inr (.goOn 0)))
        = some ((c, { s with logLastOccurs := c.steadyTime }),
            [.inr (.admitted 0 c.steadyTime), .inr (.written 0 c.steadyTime)]) := by
  obtain ⟨⟨c, s⟩, h, hrun, htest⟩ := (clockedSite 1 2000000000 0).exec_of_test
    (twoLoggers.take 14) (fun p => p.1.steady + window 1 < 2 ^ 63 ∧
      p.1.worker = .updating (.storeSystem 0) ∧ p.2.logging = false ∧ p.2.pc 0 = .outside ∧
      p.2.logLastOccurs + window 1 + (period + 8 * 3) < p.1.steady) (by decide +kernel)
  obtain ⟨hend, hworker, hlog, ht, hlate⟩ := of_decide_eq_true htest
  refine ⟨c, s, h, hrun, admits_after_window (σ := 3) (by decide) hend hrun ?_ ?_ hlog ht hlate⟩
  · rintro c s h ⟨bs, hp, hbs⟩
    have hall : ∀ bs ∈ (twoLoggers.take 14).inits, ((clockedSite 1 2000000000 0).exec bs).all
        (fun p => Prompt 3 p.1.1) = true := by decide +kernel
    have hb := hall bs ((List.mem_inits bs _).mpr hp)
    rw [hbs] at hb
    exact of_decide_eq_true hb
  · rw [hworker]
    exact ⟨nofun, nofun⟩

end Runs

end Agrpc
