/-
Agrpc/Lib/ReadBy.lean

Two machines side by side, the second of which reads the first.

`A.readBy B input` takes the steps of `A` and of `B` in any order.  What `B` is
given to do may depend on the state `A` is in at that moment (`input`), and that
is all they have to do with each other.  So every run is a run of `A`
(`exec_left`) and a run of `B`, each of whose actions was read off a state `A`
was in (`exec_right`), and `B` can do next to `A` what it can do on its own
(`execFrom_right`).
-/
import Agrpc.Lib.Projection

namespace Interleaving

namespace Machine

variable {σ α ε τ β δ γ : Type*}

/-- `A`, and `B` that reads it. -/
def readBy (A : Machine σ α ε) (B : Machine τ β δ) (input : σ → γ → β) :
    Machine (σ × τ) (α ⊕ γ) (ε ⊕ δ) where
  init := (A.init, B.init)
  step p
    | .inl a => (A.step p.1 a).map fun (s, e) => ((s, p.2), e.map Sum.inl)
    | .inr g => (B.step p.2 (input p.1 g)).map fun (x, e) => ((p.1, x), e.map Sum.inr)

variable {A : Machine σ α ε} {B : Machine τ β δ} {input : σ → γ → β}

/-! ### What was observed of either -/

theorem lefts_map_inl (e : List ε) :
    (e.map (Sum.inl : ε → ε ⊕ δ)).filterMap Sum.getLeft? = e := by
  rw [List.filterMap_map]
  exact List.filterMap_some

theorem lefts_map_inr (e : List δ) :
    (e.map (Sum.inr : δ → ε ⊕ δ)).filterMap Sum.getLeft? = [] := by
  rw [List.filterMap_map]
  exact List.filterMap_eq_nil_iff.mpr fun _ _ => rfl

theorem rights_map_inr (e : List δ) :
    (e.map (Sum.inr : δ → ε ⊕ δ)).filterMap Sum.getRight? = e := by
  rw [List.filterMap_map]
  exact List.filterMap_some

theorem rights_map_inl (e : List ε) :
    (e.map (Sum.inl : ε → ε ⊕ δ)).filterMap Sum.getRight? = [] := by
  rw [List.filterMap_map]
  exact List.filterMap_eq_nil_iff.mpr fun _ _ => rfl

/-! ### The steps -/

theorem readBy_step_left {s s' : σ} {x x' : τ} {a : α} {e : List (ε ⊕ δ)}
    (hs : (A.readBy B input).step (s, x) (.inl a) = some ((s', x'), e)) :
    ∃ e₁, A.step s a = some (s', e₁) ∧ x' = x ∧ e = e₁.map Sum.inl := by
  obtain ⟨⟨s₁, e₁⟩, h, heq⟩ := Option.map_eq_some_iff.mp hs
  obtain ⟨hp, rfl⟩ := Prod.mk.inj heq
  obtain ⟨rfl, rfl⟩ := Prod.mk.inj hp
  exact ⟨e₁, h, rfl, rfl⟩

theorem readBy_step_right {s s' : σ} {x x' : τ} {g : γ} {e : List (ε ⊕ δ)}
    (hs : (A.readBy B input).step (s, x) (.inr g) = some ((s', x'), e)) :
    ∃ e₁, B.step x (input s g) = some (x', e₁) ∧ s' = s ∧ e = e₁.map Sum.inr := by
  obtain ⟨⟨x₁, e₁⟩, h, heq⟩ := Option.map_eq_some_iff.mp hs
  obtain ⟨hp, rfl⟩ := Prod.mk.inj heq
  obtain ⟨rfl, rfl⟩ := Prod.mk.inj hp
  exact ⟨e₁, h, rfl, rfl⟩

/-- Seen by `B`, a step of `A` is none. -/
theorem readBy_projects {p p' : σ × τ} {a : α ⊕ γ} {e : List (ε ⊕ δ)} {y : τ}
    (hs : (A.readBy B input).step p a = some (p', e)) (hR : p.2 = y) :
    StepProjects B (fun p a => a.getRight?.map (input p.1)) Sum.getRight? (fun p y => p.2 = y)
      p a p' e y := by
  obtain ⟨s, x⟩ := p
  obtain ⟨s', x'⟩ := p'
  subst hR
  cases a with
  | inl a =>
    obtain ⟨e₁, -, rfl, rfl⟩ := readBy_step_left hs
    exact .skip rfl rfl (rights_map_inl e₁)
  | inr g =>
    obtain ⟨e₁, hstep, rfl, rfl⟩ := readBy_step_right hs
    exact .move rfl (rights_map_inr e₁) hstep rfl

/-! ### The runs -/

/-- Every run is a run of `A`. -/
theorem exec_left {as : List (α ⊕ γ)} {s : σ} {x : τ} {h : List (ε ⊕ δ)}
    (hrun : (A.readBy B input).exec as = some ((s, x), h)) :
    A.exec (as.filterMap Sum.getLeft?) = some (s, h.filterMap Sum.getLeft?) := by
  induction as using List.reverseRecOn generalizing s x h with
  | nil =>
    cases hrun
    rfl
  | append_singleton as a ih =>
    obtain ⟨⟨s₁, x₁⟩, h₁, e, hl, hs, rfl⟩ := exec_concat.mp hrun
    rw [List.filterMap_append, List.filterMap_append]
    cases a with
    | inl a =>
      obtain ⟨e₁, hstep, -, rfl⟩ := readBy_step_left hs
      exact exec_concat.mpr ⟨s₁, _, e₁, ih hl, hstep, by rw [lefts_map_inl]⟩
    | inr g =>
      obtain ⟨e₁, -, rfl, rfl⟩ := readBy_step_right hs
      rw [lefts_map_inr, List.append_nil, List.filterMap_cons_none rfl, List.filterMap_nil,
        List.append_nil]
      exact ih hl

/-- What `A` visits in it, it visits. -/
theorem visits_left {as : List (α ⊕ γ)} {p : σ × τ} {h : List (ε ⊕ δ)}
    (hrun : (A.readBy B input).exec as = some (p, h)) {s : σ} {k : List ε}
    (hv : A.Visits (as.filterMap Sum.getLeft?) s k) :
    ∃ x l, (A.readBy B input).Visits as (s, x) l := by
  obtain ⟨bs, hp, hbs⟩ := hv
  obtain ⟨cs, ⟨ds, rfl⟩, rfl⟩ := List.prefix_filterMap_iff.mp hp
  obtain ⟨⟨s₁, x₁⟩, l, -, hcs, -, -⟩ := execFrom_append.mp hrun
  obtain ⟨rfl, -⟩ := Prod.mk.inj (Option.some.inj ((exec_left hcs).symm.trans hbs))
  exact ⟨x₁, l, cs, List.prefix_append cs ds, hcs⟩

/-- **Every run is a run of `B`**, and every action of it was read off `A`. -/
theorem exec_right {as : List (α ⊕ γ)} {s : σ} {x : τ} {h : List (ε ⊕ δ)}
    (hrun : (A.readBy B input).exec as = some ((s, x), h)) :
    ∃ bs, B.exec bs = some (x, h.filterMap Sum.getRight?) ∧
      ∀ b ∈ bs, ∃ s₁ x₁ h₁ g, (A.readBy B input).Visits as (s₁, x₁) h₁ ∧ b = input s₁ g := by
  obtain ⟨bs, y, hbs, rfl, htakes⟩ := exec_projects (R := fun p y => p.2 = y) rfl
    (fun p _ _ _ _ _ _ hs hR => readBy_projects hs hR) hrun
  refine ⟨bs, hbs, ?_⟩
  intro b hb
  obtain ⟨y, k, ht⟩ := takes_of_mem hbs hb
  obtain ⟨⟨s₁, x₁⟩, h₁, a, ht', hact, -⟩ := htakes y k b ht
  obtain ⟨g, -, hg⟩ := Option.map_eq_some_iff.mp hact
  exact ⟨s₁, x₁, h₁, g, ht'.visits, hg.symm⟩

/-- `B` on its own, while `A` stands still. -/
theorem execFrom_right {s : σ} {x x' : τ} {gs : List γ} {e : List δ}
    (hrun : B.execFrom x (gs.map (input s)) = some (x', e)) :
    (A.readBy B input).execFrom (s, x) (gs.map Sum.inr) = some ((s, x'), e.map Sum.inr) := by
  induction gs generalizing x e with
  | nil =>
    cases hrun
    rfl
  | cons g gs ih =>
    rw [List.map_cons, execFrom, Option.bind_eq_some_iff] at hrun
    obtain ⟨⟨x₁, e₁⟩, hstep, hrest⟩ := hrun
    obtain ⟨⟨x₂, e₂⟩, hlast, heq⟩ := Option.map_eq_some_iff.mp hrest
    obtain ⟨rfl, rfl⟩ := Prod.mk.inj heq
    rw [List.map_append]
    refine execFrom_cons ?_ (ih hlast)
    show (B.step x (input s g)).map _ = _
    rw [hstep]
    rfl

end Machine

end Interleaving
