/-
Agrpc/Lib/Machine.lean

Interleaved machines with observations.

A machine is a partial, deterministic step function: every choice an
interleaving makes (which party moves, what the environment answers) is part
of the *action*, so a run is the list of its actions, its *schedule*.  A step
also emits observations; the *history* of a run is what its steps emitted, in
order.

* `exec as` — the state and the history after the schedule `as`, if every
  action of it is enabled;
* `Visits as s h` — the run passes through state `s` with history `h`;
* `Takes as s h a` — the run takes action `a` in state `s` with history `h`;
* `Since P Q as` — the run has taken a step with `P`, and none with `Q` after it;
* `checkFrom` — a computed test of a condition on every step of a run.

`Visits` and `Takes` let one say of a single run that a property holds in
every state it passes through, exactly when a condition holds before every
step it takes.  `visits_induction` is the invariant rule for such statements,
and `Simulation` the forward simulation into a machine whose actions are read
off the observations.
-/
import Mathlib.Data.List.Basic
import Mathlib.Data.List.Induction

namespace Interleaving

/-- A partial, deterministic step function with observations. -/
structure Machine (σ α ε : Type*) where
  init : σ
  step : σ → α → Option (σ × List ε)

namespace Machine

variable {σ α ε : Type*} (M : Machine σ α ε)

/-! ### Runs -/

/-- Run a schedule from `s`, collecting the observations. -/
def execFrom (s : σ) : List α → Option (σ × List ε)
  | [] => some (s, [])
  | a :: as => (M.step s a).bind fun p =>
      (execFrom p.1 as).map fun q => (q.1, p.2 ++ q.2)

/-- Run a schedule from the initial state. -/
def exec (as : List α) : Option (σ × List ε) := M.execFrom M.init as

@[simp] theorem exec_nil : M.exec [] = some (M.init, []) := rfl

variable {M}

theorem execFrom_nil {s : σ} : M.execFrom s [] = some (s, []) := rfl

/-- One step, and the run of the rest. -/
theorem execFrom_cons {s s₁ s' : σ} {e h : List ε} {a : α} {as : List α}
    (hs : M.step s a = some (s₁, e)) (hrest : M.execFrom s₁ as = some (s', h)) :
    M.execFrom s (a :: as) = some (s', e ++ h) := by
  rw [execFrom, hs, Option.bind_some, hrest, Option.map_some]

/-- A run splits at every point of its schedule. -/
theorem execFrom_append {s s' : σ} {h : List ε} {as bs : List α} :
    M.execFrom s (as ++ bs) = some (s', h) ↔
      ∃ s₁ h₁ h₂, M.execFrom s as = some (s₁, h₁) ∧
        M.execFrom s₁ bs = some (s', h₂) ∧ h = h₁ ++ h₂ := by
  induction as generalizing s h with
  | nil => simp [execFrom]
  | cons a as ih =>
    rcases e : M.step s a with - | ⟨s₁, o⟩
    · simp [execFrom, e]
    · simp only [List.cons_append, execFrom, e, Option.bind_some, Option.map_eq_some_iff,
        Prod.exists, Prod.mk.injEq]
      constructor
      · rintro ⟨t, k, hrun, rfl, rfl⟩
        obtain ⟨s₂, h₁, h₂, hl, hr, rfl⟩ := ih.mp hrun
        exact ⟨s₂, o ++ h₁, h₂, ⟨s₂, h₁, hl, rfl, rfl⟩, hr, by simp⟩
      · rintro ⟨s₂, _, h₂, ⟨_, h₁, hl, rfl, rfl⟩, hr, rfl⟩
        exact ⟨s', h₁ ++ h₂, ih.mpr ⟨_, h₁, h₂, hl, hr, rfl⟩, rfl, by simp⟩

/-- The last step of a run from `s`. -/
theorem execFrom_concat {s s' : σ} {h : List ε} {as : List α} {a : α} :
    M.execFrom s (as ++ [a]) = some (s', h) ↔
      ∃ s₁ h₁ e, M.execFrom s as = some (s₁, h₁) ∧ M.step s₁ a = some (s', e) ∧
        h = h₁ ++ e := by
  rw [execFrom_append]
  constructor
  · rintro ⟨s₁, h₁, h₂, hl, hr, rfl⟩
    rcases e : M.step s₁ a with - | ⟨s₂, o⟩
    · simp [execFrom, e] at hr
    · obtain ⟨rfl, rfl⟩ : s₂ = s' ∧ o = h₂ := by simpa [execFrom, e] using hr
      exact ⟨s₁, h₁, o, hl, e, rfl⟩
  · rintro ⟨s₁, h₁, e, hl, hr, rfl⟩
    exact ⟨s₁, h₁, e, hl, by simp [execFrom, hr], rfl⟩

/-- The last step of a run from the initial state. -/
theorem exec_concat {s' : σ} {h : List ε} {as : List α} {a : α} :
    M.exec (as ++ [a]) = some (s', h) ↔
      ∃ s h₁ e, M.exec as = some (s, h₁) ∧ M.step s a = some (s', e) ∧ h = h₁ ++ e :=
  execFrom_concat

/-- A schedule all of whose actions are enabled has a run. -/
theorem exec_of_isSome (M : Machine σ α ε) (as : List α) (h : (M.exec as).isSome = true) :
    ∃ s hist, M.exec as = some (s, hist) := by
  obtain ⟨⟨s, hist⟩, hrun⟩ := Option.isSome_iff_exists.mp h
  exact ⟨s, hist, hrun⟩

/-- A run whose last state passes a computed test. -/
theorem exec_of_test (M : Machine σ α ε) (as : List α) (f : σ → Bool)
    (h : ((M.exec as).any fun p => f p.1) = true) :
    ∃ s hist, M.exec as = some (s, hist) ∧ f s = true := by
  rcases e : M.exec as with - | ⟨s, hist⟩
  · simp [e] at h
  · exact ⟨s, hist, rfl, by simpa [e] using h⟩

/-- The invariant rule for the runs that start in `s₀`. -/
theorem execFrom_induction {I : σ → List ε → Prop} {s₀ : σ} (hinit : I s₀ [])
    (hstep : ∀ s h a s' e, I s h → M.step s a = some (s', e) → I s' (h ++ e))
    {as : List α} {s : σ} {h : List ε} (hrun : M.execFrom s₀ as = some (s, h)) : I s h := by
  induction as using List.reverseRecOn generalizing s h with
  | nil =>
    obtain ⟨rfl, rfl⟩ : s₀ = s ∧ [] = h := by simpa [execFrom] using hrun
    exact hinit
  | append_singleton as a ih =>
    obtain ⟨s₁, h₁, e, hl, hs, rfl⟩ := execFrom_concat.mp hrun
    exact hstep _ _ _ _ _ (ih hl) hs

/-- **The invariant rule.**  What holds initially and is preserved by every
step holds, of the state and the history, after every run. -/
theorem exec_induction {I : σ → List ε → Prop} (hinit : I M.init [])
    (hstep : ∀ s h a s' e, I s h → M.step s a = some (s', e) → I s' (h ++ e))
    {as : List α} {s : σ} {h : List ε} (hrun : M.exec as = some (s, h)) : I s h :=
  execFrom_induction hinit hstep hrun

/-! ### The states a run visits and the steps it takes -/

variable (M)

/-- The run of `as` passes through the state `s` with history `h`. -/
def Visits (as : List α) (s : σ) (h : List ε) : Prop :=
  ∃ as', as' <+: as ∧ M.exec as' = some (s, h)

/-- The run of `as` takes the action `a` in the state `s` with history `h`. -/
def Takes (as : List α) (s : σ) (h : List ε) (a : α) : Prop :=
  ∃ as', as' ++ [a] <+: as ∧ M.exec as' = some (s, h) ∧ (M.step s a).isSome

variable {M}

theorem Visits.init (as : List α) : M.Visits as M.init [] := ⟨[], List.nil_prefix, rfl⟩

/-- The state a completed run ends in is one it visits. -/
theorem Visits.last {as : List α} {s : σ} {h : List ε} (hrun : M.exec as = some (s, h)) :
    M.Visits as s h := ⟨as, List.prefix_rfl, hrun⟩

theorem Takes.mono {as bs : List α} {s : σ} {h : List ε} {a : α} (hp : as <+: bs)
    (ht : M.Takes as s h a) : M.Takes bs s h a := by
  obtain ⟨as', hp', hrun, hs⟩ := ht
  exact ⟨as', hp'.trans hp, hrun, hs⟩

theorem Takes.visits {as : List α} {s : σ} {h : List ε} {a : α} (ht : M.Takes as s h a) :
    M.Visits as s h := by
  obtain ⟨as', hp, hrun, -⟩ := ht
  exact ⟨as', (List.prefix_append _ _).trans hp, hrun⟩

theorem Takes.mem {as : List α} {s : σ} {h : List ε} {a : α} (ht : M.Takes as s h a) :
    a ∈ as := by
  obtain ⟨as', hp, -, -⟩ := ht
  exact hp.subset (List.mem_append_right as' (List.mem_singleton_self a))

/-- The state after a step a run takes is one the run visits. -/
theorem Takes.visits_next {as : List α} {s s' : σ} {h e : List ε} {a : α}
    (ht : M.Takes as s h a) (hs : M.step s a = some (s', e)) : M.Visits as s' (h ++ e) := by
  obtain ⟨as', hp, hrun, -⟩ := ht
  exact ⟨as' ++ [a], hp, exec_concat.mpr ⟨s, h, e, hrun, hs, rfl⟩⟩

/-- What a run has emitted when it passes through a state, it has emitted in the
end. -/
theorem Visits.history_mono {as : List α} {s s' : σ} {h h' : List ε}
    (hv : M.Visits as s h) (hrun : M.exec as = some (s', h')) : h <+: h' := by
  obtain ⟨as', ⟨bs, rfl⟩, hrun₁⟩ := hv
  obtain ⟨s₁, h₁, h₂, hl, -, rfl⟩ := execFrom_append.mp hrun
  obtain ⟨-, rfl⟩ := Prod.mk.inj (Option.some.inj (hrun₁.symm.trans hl))
  exact List.prefix_append _ _

/-- Whatever a run has emitted, one of its steps did. -/
theorem mem_history_iff {as : List α} {s : σ} {h : List ε} (hrun : M.exec as = some (s, h))
    {o : ε} : o ∈ h ↔
      ∃ s₀ h₀ a s₁ e, M.Takes as s₀ h₀ a ∧ M.step s₀ a = some (s₁, e) ∧ o ∈ e := by
  constructor
  · intro ho
    induction as using List.reverseRecOn generalizing s h with
    | nil =>
      cases hrun
      exact absurd ho List.not_mem_nil
    | append_singleton as a ih =>
      obtain ⟨s₀, h₀, e, hl, hs, rfl⟩ := exec_concat.mp hrun
      rcases List.mem_append.mp ho with ho | ho
      · obtain ⟨s₁, h₁, b, s₂, e', ht, hb, ho'⟩ := ih hl ho
        exact ⟨s₁, h₁, b, s₂, e', ht.mono (List.prefix_append _ _), hb, ho'⟩
      · exact ⟨s₀, h₀, a, s, e, ⟨as, List.prefix_rfl, hl, by rw [hs]; rfl⟩, hs, ho⟩
  · rintro ⟨s₀, h₀, a, s₁, e, ht, hs, ho⟩
    exact ((ht.visits_next hs).history_mono hrun).subset (List.mem_append_right h₀ ho)

/-- **The invariant rule along one run.**  An invariant that every step
preserves *when the condition `P` holds before it* holds in every state
visited by a run all of whose steps meet `P`. -/
theorem visits_induction {I : σ → List ε → Prop} {P : σ → List ε → α → Prop}
    (hinit : I M.init [])
    (hstep : ∀ s h a s' e, I s h → P s h a → M.step s a = some (s', e) → I s' (h ++ e))
    {as : List α} (hP : ∀ s h a, M.Takes as s h a → P s h a)
    {s : σ} {h : List ε} (hv : M.Visits as s h) : I s h := by
  obtain ⟨as', hp, hrun⟩ := hv
  induction as' using List.reverseRecOn generalizing s h with
  | nil =>
    obtain ⟨rfl, rfl⟩ : M.init = s ∧ [] = h := by simpa using hrun
    exact hinit
  | append_singleton as' a ih =>
    obtain ⟨s₀, h₀, e, hl, hs, rfl⟩ := exec_concat.mp hrun
    have ht : M.Takes as s₀ h₀ a := ⟨as', hp, hl, by simp [hs]⟩
    exact hstep _ _ _ _ _ (ih ((List.prefix_append _ _).trans hp) hl) (hP _ _ _ ht) hs

/-! ### Since the last step of a kind -/

/-- The run of `as` has taken a step that satisfies `P`, and none that satisfies
`Q` after it. -/
def Since (M : Machine σ α ε) (P Q : σ → α → Prop) (as : List α) : Prop :=
  ∃ as₁ a s h, as₁ ++ [a] <+: as ∧ M.exec as₁ = some (s, h) ∧ P s a ∧
    ∀ as₂ b t k, as₁ ++ [a] <+: as₂ → as₂ ++ [b] <+: as → M.exec as₂ = some (t, k) → ¬ Q t b

theorem not_since_nil {P Q : σ → α → Prop} : ¬ M.Since P Q [] := by
  rintro ⟨as₁, a, -, -, hp, -⟩
  exact absurd (List.prefix_nil.mp hp) (by simp)

/-- One step more: it satisfies `P`, or an earlier one did and it is none with `Q`. -/
theorem since_concat {P Q : σ → α → Prop} {as : List α} {a : α} {s : σ} {h : List ε}
    (hrun : M.exec as = some (s, h)) :
    M.Since P Q (as ++ [a]) ↔ P s a ∨ M.Since P Q as ∧ ¬ Q s a := by
  -- a step of the longer run is its last one or a step of the shorter run
  have hlast : ∀ {as' : List α} {b : α}, as' ++ [b] <+: as ++ [a] →
      as' = as ∧ b = a ∨ as' ++ [b] <+: as := by
    intro as' b hp
    rcases List.prefix_concat_iff.mp hp with heq | hp
    · obtain ⟨has, hb⟩ := List.append_inj' heq rfl
      exact Or.inl ⟨has, List.singleton_inj.mp hb⟩
    · exact Or.inr hp
  constructor
  · rintro ⟨as₁, b, t, k, hp, hrun₁, hP, hnone⟩
    rcases hlast hp with ⟨rfl, rfl⟩ | hp'
    · obtain ⟨rfl, -⟩ := Prod.mk.inj (Option.some.inj (hrun.symm.trans hrun₁))
      exact Or.inl hP
    · refine Or.inr ⟨⟨as₁, b, t, k, hp', hrun₁, hP, fun as₂ c u l h₁ h₂ => ?_⟩, ?_⟩
      · exact hnone as₂ c u l h₁ (h₂.trans (List.prefix_append as [a]))
      · exact hnone as a s h hp' List.prefix_rfl hrun
  · rintro (hP | ⟨⟨as₁, b, t, k, hp, hrun₁, hP, hnone⟩, hQ⟩)
    · refine ⟨as, a, s, h, List.prefix_rfl, hrun, hP, fun as₂ c u l h₁ h₂ => ?_⟩
      -- no step is taken after the last one
      have hle₁ := h₁.length_le
      have hle₂ := h₂.length_le
      simp only [List.length_append, List.length_singleton] at hle₁ hle₂
      omega
    · refine ⟨as₁, b, t, k, hp.trans (List.prefix_append as [a]), hrun₁, hP,
        fun as₂ c u l h₁ h₂ hrun₂ => ?_⟩
      rcases hlast h₂ with ⟨rfl, rfl⟩ | h₂'
      · obtain ⟨rfl, -⟩ := Prod.mk.inj (Option.some.inj (hrun.symm.trans hrun₂))
        exact hQ
      · exact hnone as₂ c u l h₁ h₂' hrun₂

/-! ### Computed tests -/

/-- Test a condition before every step of the run of a schedule from `s`. -/
def checkFrom (M : Machine σ α ε) (P : σ → α → Bool) (s : σ) : List α → Bool
  | [] => true
  | a :: as =>
      match M.step s a with
      | none => true
      | some p => P s a && checkFrom M P p.1 as

theorem check_step {P : σ → α → Bool} {s₀ s : σ} {h : List ε} {as bs : List α} {a : α}
    (hc : M.checkFrom P s₀ (as ++ a :: bs) = true) (hrun : M.execFrom s₀ as = some (s, h))
    (hs : (M.step s a).isSome) : P s a = true := by
  induction as generalizing s₀ h with
  | nil =>
    obtain ⟨rfl, -⟩ : s₀ = s ∧ [] = h := by simpa [execFrom] using hrun
    obtain ⟨p, hp⟩ := Option.isSome_iff_exists.mp hs
    simp only [List.nil_append, checkFrom, hp, Bool.and_eq_true] at hc
    exact hc.1
  | cons b as ih =>
    rcases e : M.step s₀ b with - | p
    · simp [execFrom, e] at hrun
    · simp only [List.cons_append, checkFrom, e, Bool.and_eq_true] at hc
      simp only [execFrom, e, Option.bind_some, Option.map_eq_some_iff, Prod.exists,
        Prod.mk.injEq] at hrun
      obtain ⟨t, k, hrest, rfl, -⟩ := hrun
      exact ih hc.2 hrest

/-- What a run is checked for holds before every step it takes. -/
theorem check_takes {P : σ → α → Bool} {as : List α} (hc : M.checkFrom P M.init as = true)
    {s : σ} {h : List ε} {a : α} (ht : M.Takes as s h a) : P s a = true := by
  obtain ⟨as', ⟨bs, rfl⟩, hrun, hs⟩ := ht
  rw [List.append_assoc] at hc
  exact check_step hc hrun hs

/-! ### Forward simulation -/

/-- A forward simulation of `M` by a machine `A` whose actions are read off
the observations of `M`, for steps that meet `P` and states that meet `I`. -/
structure Simulation {τ β δ : Type*} (M : Machine σ α ε) (A : Machine τ β δ)
    (I : σ → List ε → Prop) (P : σ → List ε → α → Prop) where
  abs : σ → τ
  view : ε → List β
  init : abs M.init = A.init
  step : ∀ s h a s' e, I s h → P s h a → M.step s a = some (s', e) →
    ∃ o, A.execFrom (abs s) (e.flatMap view) = some (abs s', o)

/-- **Simulation transfers runs**: the observations of a run, read as actions
of `A`, are a run of `A` that ends in the abstraction of the final state. -/
theorem Simulation.exec {τ β δ : Type*} {A : Machine τ β δ} {I : σ → List ε → Prop}
    {P : σ → List ε → α → Prop} (S : Simulation M A I P)
    {as : List α} (hI : ∀ s h, M.Visits as s h → I s h)
    (hP : ∀ s h a, M.Takes as s h a → P s h a)
    {s : σ} {h : List ε} (hv : M.Visits as s h) :
    ∃ o, A.exec (h.flatMap S.view) = some (S.abs s, o) := by
  -- every step the run takes is, by `Takes`, one whose states it visits
  have key : M.Visits as s h ∧ ∃ o, A.exec (h.flatMap S.view) = some (S.abs s, o) := by
    refine visits_induction (P := M.Takes as)
      (I := fun s h => M.Visits as s h ∧ ∃ o, A.exec (h.flatMap S.view) = some (S.abs s, o))
      ?_ ?_ (fun _ _ _ ht => ht) hv
    · exact ⟨Visits.init _, [], by simp [S.init]⟩
    · rintro s h a s' e ⟨hv, o₀, hr₀⟩ ht hs
      obtain ⟨o, hr⟩ := S.step _ _ _ _ _ (hI _ _ hv) (hP _ _ _ ht) hs
      refine ⟨ht.visits_next hs, o₀ ++ o, ?_⟩
      rw [List.flatMap_append, Machine.exec, execFrom_append]
      exact ⟨_, o₀, o, hr₀, hr, rfl⟩
  exact key.2

end Machine

end Interleaving
