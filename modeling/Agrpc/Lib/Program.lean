/-
Agrpc/Lib/Program.lean

Programs that make one call after another.

What a program does next is read off its state: the call it makes (`call`), and
where it goes on with the call's result (`resume`).  Of each call it is reported
that it was made, what its result is, and what result the program went on with.
`run` reads such reports.  It is stuck on one the program, run on its own, would
not lead to: a call that is not the next one, a call that is made before the last
one is over, a result the program goes on with that is not the one reported.

What a run of `run` implies is proved here once: the calls made are those of the
program, in the order of the program (`calls_of_run`), and it has gone on with
the results that were reported (`results_of_run`).
-/
import Mathlib.Data.List.Induction

namespace Sequential

/-- A program, by what it does next. -/
structure Program (σ γ ρ : Type*) where
  /-- the call it makes; `none` when it is over -/
  call : σ → Option γ
  /-- where it goes on with the result of the call -/
  resume : σ → ρ → σ

inductive Report (γ ρ : Type*) where
  /-- the call is made -/
  | called (c : γ)
  /-- the result of the call is there -/
  | answered (r : ρ)
  /-- the program goes on with the result -/
  | resumed (r : ρ)
  deriving DecidableEq, Repr

/-- Where a program is, with the state it has in its code. -/
inductive Point (σ ρ : Type*) where
  | running (s : σ)
  /-- the call is made -/
  | waiting (s : σ)
  /-- the result is there -/
  | answered (s : σ) (r : ρ)
  deriving DecidableEq, Repr

def Point.state {σ ρ : Type*} : Point σ ρ → σ
  | running s | waiting s | answered s _ => s

/-! ### What is reported -/

section Reports

variable {γ ρ : Type*}

namespace Report

def call? : Report γ ρ → Option γ
  | called c => some c
  | _ => none

def answer? : Report γ ρ → Option ρ
  | answered r => some r
  | _ => none

def result? : Report γ ρ → Option ρ
  | resumed r => some r
  | _ => none

end Report

/-- The calls that were made. -/
def calls (l : List (Report γ ρ)) : List γ := l.filterMap Report.call?

/-- The results that were there. -/
def answers (l : List (Report γ ρ)) : List ρ := l.filterMap Report.answer?

/-- The results the program went on with. -/
def results (l : List (Report γ ρ)) : List ρ := l.filterMap Report.result?

variable (l k : List (Report γ ρ))

theorem calls_append : calls (l ++ k) = calls l ++ calls k := List.filterMap_append ..

theorem answers_append : answers (l ++ k) = answers l ++ answers k := List.filterMap_append ..

theorem results_append : results (l ++ k) = results l ++ results k := List.filterMap_append ..

end Reports

/-! ### Runs -/

namespace Program

variable {σ γ ρ : Type*}

/-- The calls of the program when these are the results. -/
def callsFrom (P : Program σ γ ρ) : σ → List ρ → List γ
  | s, [] => (P.call s).toList
  | s, r :: rs => (P.call s).toList ++ callsFrom P (P.resume s r) rs

variable (P : Program σ γ ρ)

/-- One more result, one more call. -/
theorem callsFrom_concat (s : σ) (rs : List ρ) (r : ρ) :
    P.callsFrom s (rs ++ [r])
      = P.callsFrom s rs ++ (P.call ((rs ++ [r]).foldl P.resume s)).toList := by
  induction rs generalizing s with
  | nil => rfl
  | cons r' rs ih =>
    show (P.call s).toList ++ P.callsFrom (P.resume s r') (rs ++ [r]) = _
    rw [ih, ← List.append_assoc]
    rfl

variable [DecidableEq γ] [DecidableEq ρ]

/-- One report. -/
def next : Point σ ρ → Report γ ρ → Option (Point σ ρ)
  | .running s, .called c => if P.call s = some c then some (.waiting s) else none
  | .waiting s, .answered r => some (.answered s r)
  | .answered s r, .resumed r' => if r = r' then some (.running (P.resume s r)) else none
  | _, _ => none

/-- The reports so far, or a part of them. -/
def run (d : Point σ ρ) (l : List (Report γ ρ)) : Option (Point σ ρ) := l.foldlM P.next d

@[simp] theorem run_nil (d : Point σ ρ) : P.run d [] = some d := rfl

@[simp] theorem run_singleton (d : Point σ ρ) (x : Report γ ρ) : P.run d [x] = P.next d x := by
  show (P.next d x).bind some = _
  rw [Option.bind_fun_some]

theorem run_append (d : Point σ ρ) (l k : List (Report γ ρ)) :
    P.run d (l ++ k) = (P.run d l).bind fun d => P.run d k := List.foldlM_append ..

/-- What one report says. -/
inductive Follows : Point σ ρ → Report γ ρ → Point σ ρ → Prop
  | called {s c} (hc : P.call s = some c) : Follows (.running s) (.called c) (.waiting s)
  | answered {s r} : Follows (.waiting s) (.answered r) (.answered s r)
  | resumed {s r} : Follows (.answered s r) (.resumed r) (.running (P.resume s r))

variable {P}

theorem follows_of_next {d d' : Point σ ρ} {x : Report γ ρ} (h : P.next d x = some d') :
    P.Follows d x d' := by
  unfold next at h
  split at h
  next s c =>
    obtain ⟨hc, h⟩ := Option.ite_none_right_eq_some.mp h
    cases h
    exact .called hc
  next s r =>
    cases h
    exact .answered
  next s r r' =>
    obtain ⟨rfl, h'⟩ := Option.ite_none_right_eq_some.mp h
    cases h'
    exact .resumed
  next => cases h

/-- What is ahead of the program at `d`: the call it makes there. -/
def ahead (P : Program σ γ ρ) : Point σ ρ → List γ
  | .running s => (P.call s).toList
  | _ => []

/-- What has been reported and not gone on with. -/
def unread : Point σ ρ → List ρ
  | .answered _ r => [r]
  | _ => []

/-- **The reports of a run are those of the program.** -/
theorem spec_of_run {s₀ : σ} {l : List (Report γ ρ)} {d : Point σ ρ}
    (hrun : P.run (.running s₀) l = some d) :
    d.state = (results l).foldl P.resume s₀ ∧
      calls l ++ P.ahead d = P.callsFrom s₀ (results l) ∧
      answers l = results l ++ unread d := by
  induction l using List.reverseRecOn generalizing d with
  | nil =>
    cases hrun
    exact ⟨rfl, rfl, rfl⟩
  | append_singleton l x ih =>
    rw [run_append] at hrun
    obtain ⟨d₁, hl, hx⟩ := Option.bind_eq_some_iff.mp hrun
    rw [run_singleton] at hx
    obtain ⟨hstate, hcalls, hanswers⟩ := ih hl
    rw [calls_append, results_append, answers_append]
    cases follows_of_next hx with
    | @called s c hc =>
      have hahead : P.ahead (.running s) = [c] := congrArg Option.toList hc
      have hres : results l ++ results [.called (ρ := ρ) c] = results l := List.append_nil _
      rw [hahead] at hcalls
      rw [hres]
      exact ⟨hstate, (List.append_nil _).trans hcalls, (List.append_nil _).trans hanswers⟩
    | @answered s r =>
      have hres : results l ++ results [.answered (γ := γ) r] = results l := List.append_nil _
      have hmade : calls l ++ calls [.answered (γ := γ) r] = calls l := List.append_nil _
      have hall : answers l = results l := hanswers.trans (List.append_nil _)
      rw [hres, hmade, hall]
      exact ⟨hstate, hcalls, rfl⟩
    | @resumed s r =>
      have hnext : P.resume s r = (results l ++ [r]).foldl P.resume s₀ := by
        rw [List.foldl_append, ← hstate]
        rfl
      refine ⟨hnext, ?_, ?_⟩
      · show calls l ++ [] ++ (P.call (P.resume s r)).toList = P.callsFrom s₀ (results l ++ [r])
        rw [callsFrom_concat, ← hnext, ← hcalls]
        rfl
      · show answers l ++ [] = results l ++ [r] ++ []
        rw [List.append_nil, List.append_nil]
        exact hanswers

/-- **The calls made are the program's**, in its order: all it makes up to
where it is, or all but the one it is about to make. -/
theorem calls_of_run {s₀ : σ} {l : List (Report γ ρ)} {d : Point σ ρ}
    (hrun : P.run (.running s₀) l = some d) : calls l <+: P.callsFrom s₀ (results l) := by
  rw [← (spec_of_run hrun).2.1]
  exact List.prefix_append _ _

/-- **The results it goes on with are those reported**, and at most one is
outstanding. -/
theorem results_of_run {s₀ : σ} {l : List (Report γ ρ)} {d : Point σ ρ}
    (hrun : P.run (.running s₀) l = some d) :
    results l <+: answers l ∧ (answers l).length ≤ (results l).length + 1 := by
  rw [(spec_of_run hrun).2.2]
  refine ⟨List.prefix_append _ _, ?_⟩
  rw [List.length_append]
  apply Nat.add_le_add_left
  cases d <;> simp [unread]

end Program

end Sequential
