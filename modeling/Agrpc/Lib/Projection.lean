/-
Agrpc/Lib/Projection.lean

One party's view of a machine of many.

A machine `M` in which many parties act is seen by one of them as a machine
`A` of its own: every step of `M` is one step of `A` (`action`) or none, what is
observed of `A` is part of what is observed of `M` (`observe`), and the states
are related (`R`).  `exec_projects`: every run of `M` is then a run of `A`, with
the observations of `A` in the order in which `M` has them, and every step that
run of `A` takes is one that the run of `M` takes.  So a result about all runs
of `A`, under a condition on the steps they take, is one about all runs of `M`.

The step rule may use everything that is known of the run so far: it is asked
only for the steps that the given run of `M` takes.
-/
import Agrpc.Lib.Machine

namespace Interleaving

namespace Machine

variable {σ α ε τ β δ : Type*} {M : Machine σ α ε} {A : Machine τ β δ}

/-! ### Schedules that grow at the end -/

/-- What the run of a schedule and one more action takes. -/
theorem takes_concat {bs : List β} {b b' : β} {x y : τ} {k l : List δ}
    (hrun : A.exec bs = some (x, k)) (ht : A.Takes (bs ++ [b]) y l b') :
    A.Takes bs y l b' ∨ (b' = b ∧ y = x ∧ l = k) := by
  obtain ⟨cs, hp, hcs, hs⟩ := ht
  rcases List.prefix_concat_iff.mp hp with heq | hp
  · obtain ⟨rfl, hb⟩ := List.append_inj' heq rfl
    rw [hrun] at hcs
    obtain ⟨rfl, rfl⟩ := Prod.mk.inj (Option.some.inj hcs)
    exact .inr ⟨List.head_eq_of_cons_eq hb, rfl, rfl⟩
  · exact .inl ⟨cs, hp, hcs, hs⟩

/-- Every action of a schedule that has a run is taken. -/
theorem takes_of_mem {bs : List β} {x : τ} {k : List δ} (hrun : A.exec bs = some (x, k)) {b : β}
    (hb : b ∈ bs) : ∃ y l, A.Takes bs y l b := by
  induction bs using List.reverseRecOn generalizing x k with
  | nil => exact absurd hb List.not_mem_nil
  | append_singleton bs b' ih =>
    obtain ⟨y, l, e, hl, hs, -⟩ := exec_concat.mp hrun
    rcases List.mem_append.mp hb with hb | hb
    · obtain ⟨y', l', ht⟩ := ih hl hb
      exact ⟨y', l', ht.mono (List.prefix_append bs [b'])⟩
    · rw [List.mem_singleton.mp hb]
      exact ⟨y, l, bs, List.prefix_rfl, hl, by rw [hs]; rfl⟩

/-! ### Projections -/

section Projection

variable (A) (action : σ → α → Option β) (observe : ε → Option δ) (R : σ → τ → Prop)

/-- The step of `M` that takes `s` to `s'` with the action `a` and emits `e` is
a step of `A` from `x`, or none. -/
def StepProjects (s : σ) (a : α) (s' : σ) (e : List ε) (x : τ) : Prop :=
  match action s a with
  | none => R s' x ∧ e.filterMap observe = []
  | some b => ∃ x', A.step x b = some (x', e.filterMap observe) ∧ R s' x'

variable {A action observe R}

theorem StepProjects.skip {s s' : σ} {a : α} {e : List ε} {x : τ} (ha : action s a = none)
    (hR : R s' x) (he : e.filterMap observe = []) :
    StepProjects A action observe R s a s' e x := by
  unfold StepProjects
  rw [ha]
  exact ⟨hR, he⟩

theorem StepProjects.move {s s' : σ} {a : α} {e : List ε} {x x' : τ} {b : β} {k : List δ}
    (ha : action s a = some b) (he : e.filterMap observe = k) (hs : A.step x b = some (x', k))
    (hR : R s' x') : StepProjects A action observe R s a s' e x := by
  unfold StepProjects
  rw [ha, he]
  exact ⟨x', hs, hR⟩

/-- **Every run of `M` is a run of `A`.** -/
theorem exec_projects {as : List α} (hinit : R M.init A.init)
    (hstep : ∀ s h a s' e x, M.Takes as s h a → M.step s a = some (s', e) → R s x →
      StepProjects A action observe R s a s' e x)
    {s : σ} {h : List ε} (hrun : M.exec as = some (s, h)) :
    ∃ bs x, A.exec bs = some (x, h.filterMap observe) ∧ R s x ∧
      ∀ y k b, A.Takes bs y k b →
        ∃ s₁ h₁ a, M.Takes as s₁ h₁ a ∧ action s₁ a = some b ∧ R s₁ y := by
  induction as using List.reverseRecOn generalizing s h with
  | nil =>
    obtain ⟨rfl, rfl⟩ : M.init = s ∧ [] = h := by simpa using hrun
    refine ⟨[], A.init, rfl, hinit, ?_⟩
    intro y k b ht
    exact absurd ht.mem List.not_mem_nil
  | append_singleton as a ih =>
    obtain ⟨s₁, h₁, e, hl, hs, rfl⟩ := exec_concat.mp hrun
    have hp : as <+: as ++ [a] := List.prefix_append as [a]
    obtain ⟨bs, x, hbs, hR, htakes⟩ :=
      ih (fun s h b s' e x ht => hstep s h b s' e x (ht.mono hp)) hl
    have ha : M.Takes (as ++ [a]) s₁ h₁ a := ⟨as, List.prefix_rfl, hl, by rw [hs]; rfl⟩
    have hproj := hstep s₁ h₁ a s e x ha hs hR
    have hearlier : ∀ y k b, A.Takes bs y k b →
        ∃ s₂ h₂ a', M.Takes (as ++ [a]) s₂ h₂ a' ∧ action s₂ a' = some b ∧ R s₂ y := by
      intro y k b ht
      obtain ⟨s₂, h₂, a', ht', hact, hR'⟩ := htakes y k b ht
      exact ⟨s₂, h₂, a', ht'.mono hp, hact, hR'⟩
    unfold StepProjects at hproj
    rw [List.filterMap_append]
    cases hact : action s₁ a with
    | none =>
      rw [hact] at hproj
      refine ⟨bs, x, ?_, hproj.1, hearlier⟩
      rw [hproj.2, List.append_nil]
      exact hbs
    | some b =>
      rw [hact] at hproj
      obtain ⟨x', hx', hR'⟩ := hproj
      refine ⟨bs ++ [b], x', exec_concat.mpr ⟨x, _, _, hbs, hx', rfl⟩, hR', ?_⟩
      intro y k b' ht
      rcases takes_concat hbs ht with ht | ⟨rfl, rfl, -⟩
      · exact hearlier y k b' ht
      · exact ⟨s₁, h₁, a, ha, hact, hR⟩

end Projection

end Machine

end Interleaving
