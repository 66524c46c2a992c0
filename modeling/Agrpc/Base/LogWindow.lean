/-
Agrpc/Base/LogWindow.lean

What the log limiter guarantees in every interleaving: admissions are more than
a window apart, `log_last_occurs` is the time of the latest one, and the flag
is set if and only if exactly one thread is between its exchange and its store.

The invariant (`SiteOk`) is told by where the threads stand.  A thread that is
about to store has tested `log_last_occurs` inside the section, so nobody has
changed it since; how old its time and its first test are does not matter.
-/
import Agrpc.Base.LogEveryNSecond
import Mathlib.Data.List.Chain
import Mathlib.Data.List.Count

namespace Agrpc

open FixedWidth Interleaving TryLock

/-! ### Windows and admissions -/

/-- The length of the window, in nanoseconds. -/
def window (n : ℕ) : ℤ := n * 1000000000

/-- A clock value after which a window fits into 64 bits. -/
def Fits (n : ℕ) (now : ℤ) : Prop := 0 ≤ now ∧ now + window n < 2 ^ 63

instance (n : ℕ) (now : ℤ) : Decidable (Fits n now) := inferInstanceAs (Decidable (_ ∧ _))

def LogObservation.admission? : LogObservation → Option ℤ
  | admitted _ now => some now
  | written _ _ => none

/-- The times of the admitted messages, in the order they are admitted. -/
def admissions (h : List LogObservation) : List ℤ := h.filterMap LogObservation.admission?

theorem window_nonneg (n : ℕ) : 0 ≤ window n := by
  unfold window
  omega

/-- Where a window after `last` fits, the test is made in the integers. -/
theorem isDue_of_fits {n : ℕ} {last : ℤ} (h : Fits n last) (now : ℤ) :
    isDue n last now = some (decide (last + window n < now)) := by
  obtain ⟨hlast, hsum⟩ := h
  have hn := window_nonneg n
  have hseconds : seconds n = some (window n) := by
    apply IntType.mul_of_inRange
    rw [IntType.inRange_signed rfl]
    exact ⟨le_trans (by decide) hn, lt_of_le_of_lt (by unfold window; omega) hsum⟩
  have hadd : IntType.int64.add last (window n) = some (last + window n) := by
    apply IntType.add_of_inRange
    rw [IntType.inRange_signed rfl]
    exact ⟨le_trans (by decide) (add_nonneg hlast hn), hsum⟩
  rw [isDue, hseconds, Option.bind_some, hadd, Option.map_some]

/-! ### The invariant -/

/-- What a thread that stands at `pc` has seen and reported. -/
structure ThreadOk (n : ℕ) (last : ℤ) (h : List LogObservation) (t : ℕ) (pc : LogPc) : Prop where
  clock : ∀ now, pc.now? = some now → Fits n now
  storing : ∀ now, pc = .storing now → last + window n < now
  owed : ∀ x, h.count (.written t x) + (pc.owesMessage x).toNat = h.count (.admitted t x)

structure SiteOk (n : ℕ) (s : LogSite) (h : List LogObservation) : Prop where
  guards : Guards s.logging fun t => (s.pc t).inSection = true
  latest : (0 :: admissions h).getLast? = some s.logLastOccurs
  spaced : (0 :: admissions h).IsChain fun x y => x + window n < y
  fits : 0 ≤ s.logLastOccurs ∧ (s.logLastOccurs = 0 ∨ Fits n s.logLastOccurs)
  threads : ∀ t, ThreadOk n s.logLastOccurs h t (s.pc t)

section SetPc

variable {s : LogSite} {t : ℕ} {pc : LogPc}

@[simp] theorem setPc_pc_self : (s.setPc t pc).pc t = pc := Function.update_self _ _ _

@[simp] theorem setPc_logLastOccurs : (s.setPc t pc).logLastOccurs = s.logLastOccurs := rfl

@[simp] theorem setPc_logging : (s.setPc t pc).logging = s.logging := rfl

theorem setPc_pc_of_ne {u : ℕ} (h : u ≠ t) : (s.setPc t pc).pc u = s.pc u :=
  Function.update_of_ne h _ _

/-- What holds of the thread that moved and of the others holds of all. -/
theorem forall_setPc (P : ℕ → LogPc → Prop) (ht : P t pc) (hne : ∀ u, u ≠ t → P u (s.pc u))
    (u : ℕ) : P u ((s.setPc t pc).pc u) := by
  by_cases hu : u = t
  · subst hu
    rw [setPc_pc_self]
    exact ht
  · rw [setPc_pc_of_ne hu]
    exact hne u hu

/-- Who is inside after `t` has moved to `pc`. -/
theorem inSection_setPc (u : ℕ) :
    ((s.setPc t pc).pc u).inSection = true ↔
      (u = t ∧ pc.inSection = true) ∨ (u ≠ t ∧ (s.pc u).inSection = true) :=
  forall_setPc (fun u pc' => pc'.inSection = true ↔
    (u = t ∧ pc.inSection = true) ∨ (u ≠ t ∧ (s.pc u).inSection = true))
    (by simp) (fun u hu => by simp [hu]) u

end SetPc

/-- What another thread does is nothing to this one, as far as it reports. -/
theorem ThreadOk.other {n : ℕ} {last : ℤ} {h : List LogObservation} {t u : ℕ} {pc : LogPc}
    (hu : ThreadOk n last h u pc) (hne : u ≠ t) {o : LogObservation}
    (ho : ∃ x, o = .admitted t x ∨ o = .written t x) : ThreadOk n last (h ++ [o]) u pc where
  clock := hu.clock
  storing := hu.storing
  owed x := by
    obtain ⟨y, rfl | rfl⟩ := ho
    · rw [List.count_append, List.count_append, ← hu.owed]
      simp [Ne.symm hne]
    · rw [List.count_append, List.count_append, ← hu.owed]
      simp [Ne.symm hne]

namespace SiteOk

variable {n : ℕ} {s s' : LogSite} {h e : List LogObservation} {t : ℕ} {pc : LogPc} {now : ℤ}

theorem init (n : ℕ) : SiteOk n {} [] where
  guards := Guards.nobody fun _ => Bool.false_ne_true
  latest := rfl
  spaced := List.isChain_singleton _
  fits := ⟨le_rfl, .inl rfl⟩
  threads _ := ⟨by simp, by simp, fun _ => rfl⟩

/-- While some thread is in a call, a window after `log_last_occurs` fits. -/
theorem fits_last (hs : SiteOk n s h) (hnow : Fits n now) : Fits n s.logLastOccurs := by
  obtain ⟨h₀, hzero | hfits⟩ := hs.fits
  · refine ⟨h₀, ?_⟩
    rw [hzero, zero_add]
    exact lt_of_le_of_lt (le_add_of_nonneg_left hnow.1) hnow.2
  · exact hfits

theorem isDue_eq (hs : SiteOk n s h) (hnow : (s.pc t).now? = some now) :
    isDue n s.logLastOccurs now = some (decide (s.logLastOccurs + window n < now)) :=
  isDue_of_fits (hs.fits_last ((hs.threads t).clock now hnow)) now

/-- A thread moves and neither enters nor leaves the section. -/
theorem move (hs : SiteOk n s h) (hsec : pc.inSection = (s.pc t).inSection)
    (ht : ThreadOk n s.logLastOccurs h t pc) : SiteOk n (s.setPc t pc) h where
  guards := hs.guards.stay fun u => by
    rw [inSection_setPc, hsec]
    by_cases hu : u = t <;> simp [hu]
  latest := hs.latest
  spaced := hs.spaced
  fits := hs.fits
  threads := forall_setPc _ ht fun u _ => hs.threads u

/-- The exchange that returns false. -/
theorem lock (hs : SiteOk n s h) (hpc : s.pc t = .firstTestPassed now)
    (hlog : s.logging = false) :
    SiteOk n ({ s with logging := true }.setPc t (.entered now)) h where
  guards := by
    have hguards := hs.guards
    rw [hlog] at hguards
    apply hguards.acquire (t := t)
    intro u
    rw [inSection_setPc]
    by_cases hu : u = t <;> simp [hu]
  latest := hs.latest
  spaced := hs.spaced
  fits := hs.fits
  threads := by
    have ht := hs.threads t
    rw [hpc] at ht
    exact forall_setPc _ ⟨ht.clock, by simp, ht.owed⟩ fun u _ => hs.threads u

/-- The store of `log_last_occurs`, which the thread has tested inside the
section. -/
theorem store (hs : SiteOk n s h) (hpc : s.pc t = .storing now) :
    SiteOk n ({ s with logLastOccurs := now }.setPc t (.leaving now true))
      (h ++ [.admitted t now]) where
  guards := hs.guards.stay fun u => by
    rw [inSection_setPc]
    by_cases hu : u = t <;> simp [hu, hpc]
  latest := by
    rw [admissions, List.filterMap_append, ← List.cons_append]
    exact List.getLast?_concat
  spaced := by
    rw [admissions, List.filterMap_append, ← List.cons_append]
    apply hs.spaced.append (List.isChain_singleton now)
    intro x hx y hy
    have hlatest := hs.latest
    obtain rfl := Option.some.inj (hlatest.symm.trans hx)
    obtain rfl := Option.some.inj hy
    exact (hs.threads t).storing _ hpc
  fits := by
    have hfits := (hs.threads t).clock now (by rw [hpc]; rfl)
    exact ⟨hfits.1, .inr hfits⟩
  threads := by
    have ht := hs.threads t
    rw [hpc] at ht
    refine forall_setPc _ ⟨ht.clock, by simp, ?_⟩ ?_
    · intro x
      rw [List.count_append, List.count_append, ← ht.owed]
      by_cases hx : now = x <;> simp [hx]
    · intro u hu
      have hu' := (hs.threads u).other hu (o := .admitted t now) ⟨now, .inl rfl⟩
      refine ⟨hu'.clock, ?_, hu'.owed⟩
      -- nobody else is in the section
      intro now' hst
      change s.pc u = .storing now' at hst
      exact absurd (hs.guards.unique u t (by simp [hst]) (by simp [hpc])) hu

/-- The store that clears the flag. -/
theorem unlock (hs : SiteOk n s h) {reallyWrite : Bool} (hpc : s.pc t = .leaving now reallyWrite) :
    SiteOk n ({ s with logging := false }.setPc t
      (if reallyWrite then .writing now else .outside)) h where
  guards := hs.guards.release (t := t) (by simp [hpc]) fun u => by
    rw [inSection_setPc]
    cases reallyWrite <;> simp
  latest := hs.latest
  spaced := hs.spaced
  fits := hs.fits
  threads := by
    have ht := hs.threads t
    rw [hpc] at ht
    refine forall_setPc _ ?_ fun u _ => hs.threads u
    cases reallyWrite with
    | true => exact ⟨ht.clock, by simp, ht.owed⟩
    | false => exact ⟨by simp, by simp, ht.owed⟩

/-- The message is written. -/
theorem write (hs : SiteOk n s h) (hpc : s.pc t = .writing now) :
    SiteOk n (s.setPc t .outside) (h ++ [.written t now]) where
  guards := hs.guards.stay fun u => by
    rw [inSection_setPc]
    by_cases hu : u = t <;> simp [hu, hpc]
  latest := by
    rw [admissions, List.filterMap_append]
    exact (List.append_nil (admissions h)).symm ▸ hs.latest
  spaced := by
    rw [admissions, List.filterMap_append]
    exact (List.append_nil (admissions h)).symm ▸ hs.spaced
  fits := hs.fits
  threads := by
    have ht := hs.threads t
    rw [hpc] at ht
    refine forall_setPc _ ⟨by simp, by simp, ?_⟩ ?_
    · intro x
      rw [List.count_append, List.count_append, ← ht.owed]
      by_cases hx : now = x <;> simp [hx]
    · intro u hu
      exact (hs.threads u).other hu ⟨now, .inr rfl⟩

/-- **Every step keeps the invariant**, if every call reads a clock value after
which a window fits. -/
theorem step (hs : SiteOk n s h) {a : LogAction} (hcall : ∀ t now, a = .call t now → Fits n now)
    (hstep : LogStep n s a s' e) : SiteOk n s' (h ++ e) := by
  cases hstep with
  | @call t now hpc =>
    rw [List.append_nil]
    have ht := hs.threads t
    rw [hpc] at ht
    refine hs.move (by simp [hpc]) ⟨?_, by simp, ht.owed⟩
    intro _ hnow
    cases hnow
    exact hcall t now rfl
  | @firstTest t now due hpc hdue =>
    rw [List.append_nil]
    have ht := hs.threads t
    rw [hpc] at ht
    cases due with
    | true => exact hs.move (by simp [hpc]) ⟨ht.clock, by simp, ht.owed⟩
    | false =>
      exact hs.move (by simp [hpc])
        ⟨by simp, by simp, ht.owed⟩
  | @lockTaken t now hpc hlog =>
    rw [List.append_nil]
    have ht := hs.threads t
    rw [hpc] at ht
    exact hs.move (by simp [hpc])
      ⟨by simp, by simp, ht.owed⟩
  | @lock t now hpc hlog =>
    rw [List.append_nil]
    exact hs.lock hpc hlog
  | @secondTest t now due hpc hdue =>
    rw [List.append_nil]
    have hnow : (s.pc t).now? = some now := by rw [hpc]; rfl
    rw [hs.isDue_eq hnow] at hdue
    have ht := hs.threads t
    rw [hpc] at ht
    cases due with
    | true =>
      refine hs.move (by simp [hpc]) ⟨ht.clock, ?_, ht.owed⟩
      intro _ hst
      cases hst
      exact of_decide_eq_true (Option.some.inj hdue)
    | false => exact hs.move (by simp [hpc]) ⟨ht.clock, by simp, ht.owed⟩
  | store hpc => exact hs.store hpc
  | unlock hpc =>
    rw [List.append_nil]
    exact hs.unlock hpc
  | write hpc => exact hs.write hpc

/-- The time of the latest admission does not go back. -/
theorem logLastOccurs_le (hs : SiteOk n s h) {a : LogAction} (hstep : LogStep n s a s' e) :
    s.logLastOccurs ≤ s'.logLastOccurs := by
  cases hstep with
  | @store t now hpc =>
    have hlt := (hs.threads t).storing now hpc
    exact le_of_lt (lt_of_le_of_lt (le_add_of_nonneg_right (window_nonneg n)) hlt)
  | _ => exact le_rfl

/-- A thread in a call can go on. -/
theorem goOn_isSome (hs : SiteOk n s h) (ht : s.pc t ≠ .outside) :
    ((everyNSecondSite n).step s (.goOn t)).isSome = true := by
  show (LogSite.step n s (.goOn t)).isSome = true
  cases hpc : s.pc t with
  | outside => exact absurd hpc ht
  | readNow now =>
    have hnow : (s.pc t).now? = some now := by rw [hpc]; rfl
    have hdue := hs.isDue_eq hnow
    simp only [LogSite.step, hpc, hdue, Option.map_some, Option.isSome_some]
  | entered now =>
    have hnow : (s.pc t).now? = some now := by rw [hpc]; rfl
    have hdue := hs.isDue_eq hnow
    simp only [LogSite.step, hpc, hdue, Option.map_some, Option.isSome_some]
  | firstTestPassed now | storing now | leaving now reallyWrite | writing now =>
    simp only [LogSite.step, hpc, Option.isSome_some]

end SiteOk

/-! ### Runs -/

/-- Every call of the schedule reads a clock value after which a window fits. -/
def ClockFits (n : ℕ) (as : List LogAction) : Prop := ∀ t now, .call t now ∈ as → Fits n now

section Runs

variable {n : ℕ} {as : List LogAction} {s : LogSite} {h : List LogObservation}

theorem siteOk_of_visits (hclock : ClockFits n as) (hv : (everyNSecondSite n).Visits as s h) :
    SiteOk n s h := by
  refine Machine.visits_induction
    (P := fun _ _ a => ∀ t now, a = .call t now → Fits n now) (SiteOk.init n) ?_ ?_ hv
  · intro s h a s' e hs hcall hstep
    exact hs.step hcall (logStep_cases hstep)
  · rintro s h a ht t now rfl
    exact hclock t now ht.mem

/-- The time of the latest admission never decreases. -/
theorem logLastOccurs_mono {as bs : List LogAction} {s s' : LogSite} {h h' : List LogObservation}
    (hclock : ClockFits n (as ++ bs)) (hrun : (everyNSecondSite n).exec as = some (s, h))
    (hrun' : (everyNSecondSite n).exec (as ++ bs) = some (s', h')) :
    s.logLastOccurs ≤ s'.logLastOccurs := by
  induction bs using List.reverseRecOn generalizing s' h' with
  | nil =>
    rw [List.append_nil, hrun] at hrun'
    cases hrun'
    exact le_rfl
  | append_singleton bs a ih =>
    rw [← List.append_assoc] at hrun' hclock
    obtain ⟨s₁, h₁, e, hl, hstep, -⟩ := Machine.exec_concat.mp hrun'
    have hclock₁ : ClockFits n (as ++ bs) := fun t now hmem =>
      hclock t now (List.mem_append_left [a] hmem)
    have hs₁ := siteOk_of_visits hclock₁ (Machine.Visits.last hl)
    exact le_trans (ih hclock₁ hl) (hs₁.logLastOccurs_le (logStep_cases hstep))

/-! ### A call that runs alone -/

/-- A thread that comes back from the macro leaves the threads as they were. -/
theorem setPc_outside {t : ℕ} (hpc : s.pc t = .outside) (pc : LogPc) :
    (s.setPc t pc).setPc t .outside = s := by
  have hback : Function.update (Function.update s.pc t pc) t .outside = s.pc := by
    rw [Function.update_idem, ← hpc, Function.update_eq_self]
  show { s with pc := Function.update (Function.update s.pc t pc) t .outside } = s
  rw [hback]

/-- A call that is due, and finds the flag clear, is admitted and writes its
message. -/
theorem alone_due {t : ℕ} {now : ℤ} (hpc : s.pc t = .outside) (hlog : s.logging = false)
    (hdue : isDue n s.logLastOccurs now = some true) :
    (everyNSecondSite n).execFrom s (.call t now :: List.replicate 6 (.goOn t))
      = some ({ s with logLastOccurs := now }, [.admitted t now, .written t now]) := by
  let s₁ := s.setPc t (.readNow now)
  let s₂ := s₁.setPc t (.firstTestPassed now)
  let s₃ := { s₂ with logging := true }.setPc t (.entered now)
  let s₄ := s₃.setPc t (.storing now)
  let s₅ := { s₄ with logLastOccurs := now }.setPc t (.leaving now true)
  let s₆ := { s₅ with logging := false }.setPc t (.writing now)
  have h₁ : (everyNSecondSite n).step s (.call t now) = some (s₁, []) := if_pos hpc
  have h₂ : (everyNSecondSite n).step s₁ (.goOn t) = some (s₂, []) := by
    simp [everyNSecondSite, LogSite.step, s₁, s₂, hdue]
  have h₃ : (everyNSecondSite n).step s₂ (.goOn t) = some (s₃, []) := by
    simp [everyNSecondSite, LogSite.step, s₁, s₂, s₃, hlog]
  have h₄ : (everyNSecondSite n).step s₃ (.goOn t) = some (s₄, []) := by
    simp [everyNSecondSite, LogSite.step, s₁, s₂, s₃, s₄, hdue]
  have h₅ : (everyNSecondSite n).step s₄ (.goOn t) = some (s₅, [.admitted t now]) := by
    simp [everyNSecondSite, LogSite.step, s₄, s₅]
  have h₆ : (everyNSecondSite n).step s₅ (.goOn t) = some (s₆, []) := by
    simp [everyNSecondSite, LogSite.step, s₅, s₆]
  have h₇ : (everyNSecondSite n).step s₆ (.goOn t)
      = some (s₆.setPc t .outside, [.written t now]) := by
    simp [everyNSecondSite, LogSite.step, s₆]
  have hend : s₆.setPc t .outside = { s with logLastOccurs := now } := by
    have hback : s₆.setPc t .outside
        = { s with logLastOccurs := now, logging := false }.setPc t .outside := by
      simp [s₁, s₂, s₃, s₄, s₅, s₆, LogSite.setPc]
    rw [hback, ← hlog]
    show LogSite.mk now s.logging (Function.update s.pc t .outside) = _
    rw [← hpc, Function.update_eq_self]
  rw [hend] at h₇
  have hrun₆ := Machine.execFrom_cons h₆ (Machine.execFrom_cons h₇ Machine.execFrom_nil)
  have hrun₄ := Machine.execFrom_cons h₄ (Machine.execFrom_cons h₅ hrun₆)
  have hrun₂ := Machine.execFrom_cons h₂ (Machine.execFrom_cons h₃ hrun₄)
  exact Machine.execFrom_cons h₁ hrun₂

theorem alone_notDue {t : ℕ} {now : ℤ} (hpc : s.pc t = .outside)
    (hdue : isDue n s.logLastOccurs now = some false) :
    (everyNSecondSite n).execFrom s [.call t now, .goOn t] = some (s, []) := by
  let s₁ := s.setPc t (.readNow now)
  have h₁ : (everyNSecondSite n).step s (.call t now) = some (s₁, []) := if_pos hpc
  have h₂ : (everyNSecondSite n).step s₁ (.goOn t) = some (s₁.setPc t .outside, []) := by
    simp [everyNSecondSite, LogSite.step, s₁, hdue]
  have hend : s₁.setPc t .outside = s := setPc_outside hpc _
  rw [hend] at h₂
  exact Machine.execFrom_cons h₁ (Machine.execFrom_cons h₂ Machine.execFrom_nil)

/-- **The limiter admits at most one message per window and never jams.**  In
every interleaving of any number of threads:

* the admissions are more than a window apart, the first from the epoch;
* `log_last_occurs` is the time of the latest admission and never decreases;
* the flag is set if and only if exactly one thread is in the section;
* a call that runs alone while no thread is in the section is admitted, and
  writes its message, if its time is later than the window, and returns at
  once otherwise; and every thread in a call can always go on;
* what is written was admitted, and is written once. -/
theorem admits_once_per_window (hclock : ClockFits n as)
    (hrun : (everyNSecondSite n).exec as = some (s, h)) :
    ((0 :: admissions h).IsChain fun x y => x + window n < y) ∧
      ((0 :: admissions h).getLast? = some s.logLastOccurs ∧
        ∀ s₀ h₀, (everyNSecondSite n).Visits as s₀ h₀ → s₀.logLastOccurs ≤ s.logLastOccurs) ∧
      ((s.logging = true ↔ ∃! t, (s.pc t).inSection = true) ∧
        (s.logging = false → ∀ t, (s.pc t).inSection = false)) ∧
      ((∀ t, (s.pc t).inSection = false) → ∀ t now, s.pc t = .outside → Fits n now →
        if s.logLastOccurs + window n < now then
          (everyNSecondSite n).execFrom s (.call t now :: List.replicate 6 (.goOn t))
            = some ({ s with logLastOccurs := now }, [.admitted t now, .written t now])
        else (everyNSecondSite n).execFrom s [.call t now, .goOn t] = some (s, [])) ∧
      (∀ t, s.pc t ≠ .outside → ((everyNSecondSite n).step s (.goOn t)).isSome = true) ∧
      ∀ t x, h.count (.written t x) ≤ h.count (.admitted t x) := by
  have hs := siteOk_of_visits hclock (Machine.Visits.last hrun)
  refine ⟨hs.spaced, ⟨hs.latest, ?_⟩, ⟨hs.guards.iff_existsUnique, ?_⟩, ?_,
    fun t => hs.goOn_isSome, ?_⟩
  · rintro s₀ h₀ ⟨as₀, ⟨bs, rfl⟩, hrun₀⟩
    exact logLastOccurs_mono hclock hrun₀ hrun
  · intro hlog t
    have hguards := hs.guards
    rw [hlog] at hguards
    exact Bool.eq_false_iff.mpr (hguards.not_inside t)
  · intro hempty t now hpc hnow
    have hlog : s.logging = false := by
      rw [Bool.eq_false_iff]
      intro hlog
      obtain ⟨u, hu⟩ := hs.guards.holder.mp hlog
      rw [hempty u] at hu
      cases hu
    have hdue := isDue_of_fits (hs.fits_last hnow) now
    split
    next hlate => exact alone_due hpc hlog (by rw [hdue, decide_eq_true hlate])
    next hlate => exact alone_notDue hpc (by rw [hdue, decide_eq_false hlate])
  · intro t x
    rw [← (hs.threads t).owed x]
    exact Nat.le_add_right _ _

/-- Thread `1` reads a time, passes the first test and is overtaken by thread
`0`, which is admitted; thread `1` then finds its time too early. -/
def overtaken : List LogAction :=
  .call 1 2000000000 :: .goOn 1 ::
    (.call 0 2500000000 :: List.replicate 6 (.goOn 0) ++ List.replicate 3 (.goOn 1))

theorem admits_once_per_window_overtaken :
    ∃ s h, (everyNSecondSite 1).exec overtaken = some (s, h) ∧ admissions h = [2500000000] ∧
      (0 :: admissions h).IsChain (fun x y => x + window 1 < y) ∧
      s.logLastOccurs = 2500000000 ∧ ∀ t x, h.count (.written t x) ≤ h.count (.admitted t x) := by
  obtain ⟨s, h, hrun⟩ := Machine.exec_of_isSome (everyNSecondSite 1) overtaken (by decide +kernel)
  have hclock : ClockFits 1 overtaken := by
    intro t now hmem
    have hfits : ∀ a ∈ overtaken, ∀ t now, a = .call t now → Fits 1 now := by
      simp [overtaken, Fits, window]
    exact hfits _ hmem t now rfl
  have hall := admits_once_per_window hclock hrun
  have hadm : ((everyNSecondSite 1).exec overtaken).map (fun p => admissions p.2)
      = some [2500000000] := by decide +kernel
  rw [hrun, Option.map_some] at hadm
  have hadm := Option.some.inj hadm
  have hlast := hall.2.1.1
  rw [hadm] at hlast
  exact ⟨s, h, hrun, hadm, hall.1, (Option.some.inj hlast).symm, hall.2.2.2.2.2⟩

end Runs

end Agrpc
