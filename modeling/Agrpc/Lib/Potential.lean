/-
Agrpc/Lib/Potential.lean

Amortised accounting for machines.

Every action of a schedule has a cost and a credit.  A *potential* is a number
that every state has, such that a step costs no more than what it takes off the
potential, its own credit included (`Pays`); it may do so under an invariant
only.  Then a whole run costs no more than the potential it began with and the
credits it was given (`Pays.execFrom_le`), however it interleaves.

A party that takes one step after the other, each of which costs something and
has no credit, comes to rest within as many steps as the potential says
(`Pays.follow_rests`).
-/
import Agrpc.Lib.Machine

namespace Interleaving

/-! ### Weights -/

section Weights

variable {α β : Type*}

/-- What the members of a list weigh together. -/
def total (w : α → ℕ) : List α → ℕ
  | [] => 0
  | a :: as => w a + total w as

@[simp] theorem total_nil (w : α → ℕ) : total w [] = 0 := rfl

@[simp] theorem total_cons (w : α → ℕ) (a : α) (as : List α) :
    total w (a :: as) = w a + total w as := rfl

theorem total_append (w : α → ℕ) (as bs : List α) :
    total w (as ++ bs) = total w as + total w bs := by
  induction as with
  | nil => exact (Nat.zero_add _).symm
  | cons a as ih => rw [List.cons_append, total_cons, total_cons, ih, Nat.add_assoc]

theorem total_map (w : β → ℕ) (f : α → β) (as : List α) :
    total w (as.map f) = total (fun a => w (f a)) as := by
  induction as with
  | nil => rfl
  | cons a as ih => rw [List.map_cons, total_cons, total_cons, ih]

theorem total_add (v w : α → ℕ) (as : List α) :
    total (fun a => v a + w a) as = total v as + total w as := by
  induction as with
  | nil => rfl
  | cons a as ih =>
    rw [total_cons, total_cons, total_cons, ih]
    omega

theorem total_mul (k : ℕ) (w : α → ℕ) (as : List α) :
    total (fun a => k * w a) as = k * total w as := by
  induction as with
  | nil => rfl
  | cons a as ih => rw [total_cons, total_cons, ih, Nat.mul_add]

theorem total_count [DecidableEq α] (a : α) (as : List α) :
    total (fun b => if b = a then 1 else 0) as = as.count a := by
  induction as with
  | nil => rfl
  | cons b as ih =>
    rw [total_cons, ih, List.count_cons, Nat.add_comm]
    simp only [beq_iff_eq]

theorem total_eq_zero {w : α → ℕ} {as : List α} (h : ∀ a ∈ as, w a = 0) : total w as = 0 := by
  induction as with
  | nil => rfl
  | cons a as ih =>
    rw [total_cons, h a List.mem_cons_self, ih fun b hb => h b (List.mem_cons_of_mem a hb)]

theorem total_zero (as : List α) : total (fun _ => 0) as = 0 :=
  total_eq_zero fun _ _ => rfl

theorem length_le_total {w : α → ℕ} {as : List α} (h : ∀ a ∈ as, 1 ≤ w a) :
    as.length ≤ total w as := by
  induction as with
  | nil => exact Nat.le_refl 0
  | cons a as ih =>
    have hone := h a List.mem_cons_self
    have hrest := ih fun b hb => h b (List.mem_cons_of_mem a hb)
    rw [List.length_cons, total_cons]
    omega

end Weights

namespace Machine

variable {σ α ε : Type*} {M : Machine σ α ε} {I : σ → Prop} {Φ : σ → ℕ}
variable {cost credit : α → ℕ}

/-! ### Potentials -/

/-- While the invariant `I` holds, which it keeps doing, the potential `Φ` pays
for every step. -/
def Pays (M : Machine σ α ε) (I : σ → Prop) (Φ : σ → ℕ) (cost credit : α → ℕ) : Prop :=
  ∀ s a s' e, I s → M.step s a = some (s', e) → I s' ∧ cost a + Φ s' ≤ Φ s + credit a

namespace Pays

/-- **A run costs what it took off the potential, and its credits.** -/
theorem execFrom_le (hpays : Pays M I Φ cost credit) {s s' : σ} {h : List ε} {as : List α}
    (hs : I s) (hrun : M.execFrom s as = some (s', h)) :
    I s' ∧ total cost as + Φ s' ≤ Φ s + total credit as := by
  induction as using List.reverseRecOn generalizing s' h with
  | nil =>
    obtain ⟨rfl, -⟩ : s = s' ∧ [] = h := by simpa [execFrom] using hrun
    exact ⟨hs, Nat.le_of_eq (Nat.add_comm _ _)⟩
  | append_singleton as a ih =>
    obtain ⟨s₁, h₁, e, hl, hlast, -⟩ := execFrom_concat.mp hrun
    obtain ⟨hs₁, hbefore⟩ := ih hl
    obtain ⟨hs', hstep⟩ := hpays s₁ a s' e hs₁ hlast
    refine ⟨hs', ?_⟩
    rw [total_append, total_append, total_cons, total_cons, total_nil, total_nil]
    omega

end Pays

/-! ### A party on its own -/

/-- The next `n` steps of a party that takes the action `next s` in the state
`s`, or fewer, if it comes to rest. -/
def follow (M : Machine σ α ε) (next : σ → α) : ℕ → σ → List α
  | 0, _ => []
  | n + 1, s =>
      match M.step s (next s) with
      | none => []
      | some p => next s :: follow M next n p.1

theorem length_follow_le {next : σ → α} {n : ℕ} {s : σ} :
    (M.follow next n s).length ≤ n := by
  induction n generalizing s with
  | zero => exact Nat.le_refl 0
  | succ n ih =>
    rw [follow]
    split
    · exact Nat.zero_le _
    · exact Nat.succ_le_succ ih

/-- Every action of it is one the party takes. -/
theorem mem_follow {next : σ → α} {n : ℕ} {s : σ} {a : α} (ha : a ∈ M.follow next n s) :
    ∃ t, a = next t := by
  induction n generalizing s with
  | zero => exact absurd ha List.not_mem_nil
  | succ n ih =>
    rw [follow] at ha
    rcases hs : M.step s (next s) with - | ⟨s₁, e⟩
    · simp [hs] at ha
    · rw [hs] at ha
      rcases List.mem_cons.mp ha with rfl | ha
      · exact ⟨s, rfl⟩
      · exact ih ha

/-- What the steps of the party preserve holds when it has made them. -/
theorem follow_induction {next : σ → α} {I : σ → Prop}
    (hstep : ∀ s s' e, I s → M.step s (next s) = some (s', e) → I s') {n : ℕ} {s s' : σ}
    {h : List ε} (hs : I s) (hrun : M.execFrom s (M.follow next n s) = some (s', h)) : I s' := by
  induction n generalizing s h with
  | zero =>
    obtain ⟨rfl, -⟩ : s = s' ∧ [] = h := by simpa [follow, execFrom] using hrun
    exact hs
  | succ n ih =>
    rw [follow] at hrun
    rcases e : M.step s (next s) with - | ⟨s₁, o⟩
    · obtain ⟨rfl, -⟩ : s = s' ∧ [] = h := by simpa [e, execFrom] using hrun
      exact hs
    · simp only [e, execFrom, Option.bind_some, Option.map_eq_some_iff, Prod.exists,
        Prod.mk.injEq] at hrun
      obtain ⟨t, k, hrest, rfl, -⟩ := hrun
      exact ih (hstep s s₁ o hs e) hrest

/-- **A party whose steps are paid for by the potential comes to rest**, within
as many steps as it says. -/
theorem Pays.follow_rests (hpays : Pays M I Φ cost credit) {next : σ → α}
    (hcost : ∀ s, 0 < cost (next s)) (hcredit : ∀ s, credit (next s) = 0) {n : ℕ} {s : σ}
    (hs : I s) (hn : Φ s ≤ n) :
    ∃ s' h, M.execFrom s (M.follow next n s) = some (s', h) ∧ M.step s' (next s') = none := by
  induction n generalizing s with
  | zero =>
    refine ⟨s, [], rfl, ?_⟩
    rcases e : M.step s (next s) with - | ⟨s₁, o⟩
    · rfl
    · obtain ⟨-, hstep⟩ := hpays s (next s) s₁ o hs e
      have hpos := hcost s
      rw [hcredit s] at hstep
      omega
  | succ n ih =>
    rcases e : M.step s (next s) with - | ⟨s₁, o⟩
    · exact ⟨s, [], by rw [follow, e, execFrom_nil], e⟩
    · obtain ⟨hs₁, hstep⟩ := hpays s (next s) s₁ o hs e
      have hpos := hcost s
      rw [hcredit s] at hstep
      obtain ⟨s', h, hrun, hrest⟩ := ih hs₁ (by omega)
      refine ⟨s', o ++ h, ?_, hrest⟩
      rw [follow, e]
      exact execFrom_cons e hrun

end Machine

end Interleaving
