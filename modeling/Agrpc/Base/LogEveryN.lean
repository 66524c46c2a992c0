/-
Agrpc/Base/LogEveryN.lean

`AGRPC_LOG_*_EVERY_N` and its `_IF_` form (`agrpc/base/logging.h`), and glog's
`LOG_EVERY_N`, to which `AGRPC_DLOG_*_EVERY_N` forwards in a debug build.

A site is a machine: its state is the site's counter, an action is a call with
the value of its condition, and every call reports whether it emits a message.
Both machines keep the same counter (`counterAfter`), but the macro tests it
only after it has wrapped around, so it is silent where glog first emits
(`logEveryN_agrees_iff`).
-/
import Agrpc.Lib.FixedWidth
import Agrpc.Lib.Machine
import Mathlib.Data.Nat.ModEq

namespace Agrpc

open FixedWidth Interleaving

/-! ### The macro -/

/-- `AGRPC_INTERNAL_DETAIL_LOG_EVERY_N`: the counter after a call and whether
the call emits.  No result if the counter overflows. -/
def logEveryN (n counter : ℤ) : Option (ℤ × Bool) :=
  (IntType.int32.add counter 1).bind fun c =>
    if c > n then (IntType.int32.sub c n).map fun c => (c, decide (c = 1))
    else some (c, false)

/-- `AGRPC_INTERNAL_DETAIL_LOG_IF_EVERY_N`. -/
def logIfEveryN (expr : Bool) (n counter : ℤ) : Option (ℤ × Bool) :=
  if expr then logEveryN n counter else some (counter, false)

/-- A site of the macro. -/
def everyNSite (n : ℕ) : Machine ℤ Bool Bool where
  init := 0
  step counter expr := (logIfEveryN expr n counter).map fun (c, emits) => (c, [emits])

/-! ### glog -/

/-- glog's `LOG_EVERY_N`, which is not part of the repository: the state of a
site, and a call, with whether it emits. -/
structure Glog (γ : Type*) where
  init : γ
  logEveryN : ℤ → γ → γ × Bool

/-- What glog does: a call increments the counter, subtracts `n` if it now
exceeds `n`, and emits if it now is one. -/
structure Glog.Behaves {γ : Type*} (g : Glog γ) (counter : γ → ℤ) : Prop where
  init : counter g.init = 0
  call : ∀ n s, counter (g.logEveryN n s).1 =
    if counter s + 1 > n then counter s + 1 - n else counter s + 1
  emits : ∀ n s, (g.logEveryN n s).2 = true ↔ counter (g.logEveryN n s).1 = 1

/-- A site of `LOG_EVERY_N`, called when the condition holds. -/
def Glog.site {γ : Type*} (g : Glog γ) (n : ℕ) : Machine γ Bool Bool where
  init := g.init
  step s expr :=
    if expr then some ((g.logEveryN n s).1, [(g.logEveryN n s).2]) else some (s, [false])

/-! ### Sites that count -/

/-- What the calls of a site report if the call made after `k` earlier ones
whose condition held reports `emit k`. -/
def marks (emit : ℕ → Bool) : ℕ → List Bool → List Bool
  | _, [] => []
  | k, true :: es => emit k :: marks emit (k + 1) es
  | k, false :: es => false :: marks emit k es

section Marks

variable {emit : ℕ → Bool}

/-- A machine that counts the calls whose condition holds. -/
theorem execFrom_marks {σ : Type*} {M : Machine σ Bool Bool} (state : ℕ → σ)
    (emit : ℕ → Bool)
    (hhit : ∀ k, M.step (state k) true = some (state (k + 1), [emit k]))
    (hskip : ∀ s, M.step s false = some (s, [false])) (es : List Bool) (k : ℕ) :
    M.execFrom (state k) es = some (state (k + es.count true), marks emit k es) := by
  induction es generalizing k with
  | nil => rfl
  | cons e es ih =>
    cases e with
    | true =>
      rw [Machine.execFrom, hhit, Option.bind_some, ih, Option.map_some, List.count_cons_self]
      rw [Nat.add_right_comm, Nat.add_assoc]
      rfl
    | false =>
      rw [Machine.execFrom, hskip, Option.bind_some, ih, Option.map_some]
      rfl

theorem marks_getElem? (es : List Bool) (k i : ℕ) :
    (marks emit k es)[i]? = es[i]?.map fun e => e && emit (k + (es.take i).count true) := by
  induction es generalizing k i with
  | nil => rfl
  | cons e es ih =>
    cases i with
    | zero => cases e <;> rfl
    | succ i =>
      cases e with
      | true =>
        rw [marks, List.getElem?_cons_succ, List.getElem?_cons_succ, ih, List.take_succ_cons,
          List.count_cons_self, Nat.add_right_comm, Nat.add_assoc]
      | false =>
        rw [marks, List.getElem?_cons_succ, List.getElem?_cons_succ, ih]
        rfl

/-- The number of messages, for a count `f` that goes up where a call emits. -/
theorem count_marks {f : ℕ → ℕ} (hf : ∀ k, f (k + 1) = f k + (emit k).toNat) (es : List Bool)
    (k : ℕ) : (marks emit k es).count true + f k = f (k + es.count true) := by
  induction es generalizing k with
  | nil => exact Nat.zero_add _
  | cons e es ih =>
    cases e with
    | true =>
      have h := ih (k + 1)
      rw [hf, Nat.add_right_comm k] at h
      rw [marks, List.count_cons_self, ← Nat.add_assoc, ← h]
      cases emit k with
      | true =>
        rw [List.count_cons_self, Bool.toNat_true]
        omega
      | false => rfl
    | false => exact ih k

end Marks

/-! ### The counter -/

/-- The counter after `k` calls whose condition held. -/
def counterAfter (n k : ℕ) : ℕ := if k = 0 then 0 else (k - 1) % n + 1

theorem counterAfter_succ (n k : ℕ) : counterAfter n (k + 1) = k % n + 1 :=
  if_neg (Nat.succ_ne_zero k)

theorem counterAfter_le {n : ℕ} (hn : 1 ≤ n) (k : ℕ) : counterAfter n k ≤ n := by
  cases k with
  | zero => exact Nat.zero_le n
  | succ k =>
    rw [counterAfter_succ]
    exact Nat.mod_lt k hn

/-- The counter wraps around at every `n`-th call, but not at the first. -/
theorem counterAfter_step {n : ℕ} (hn : 1 ≤ n) (k : ℕ) :
    (counterAfter n k + 1 ≤ n ∧ counterAfter n (k + 1) = counterAfter n k + 1 ∧
        (k = 0 ∨ k % n ≠ 0)) ∨
      (n < counterAfter n k + 1 ∧ counterAfter n (k + 1) + n = counterAfter n k + 1 ∧
        k ≠ 0 ∧ k % n = 0) := by
  cases k with
  | zero =>
    refine .inl ⟨hn, ?_, .inl rfl⟩
    rw [counterAfter_succ, Nat.zero_mod]
    rfl
  | succ j =>
    have hlt : j % n < n := Nat.mod_lt j hn
    rw [counterAfter_succ, counterAfter_succ]
    by_cases h : j % n + 1 < n
    · have hmod : (j + 1) % n = j % n + 1 := by
        rw [← Nat.mod_add_mod, Nat.mod_eq_of_lt h]
      exact .inl ⟨h, by omega, .inr (by omega)⟩
    · have hmod : (j + 1) % n = 0 := by
        have heq : j % n + 1 = n := by omega
        rw [← Nat.mod_add_mod, heq, Nat.mod_self]
      exact .inr ⟨by omega, by omega, Nat.succ_ne_zero j, hmod⟩

theorem inRange_int {x : ℤ} : IntType.int32.InRange x ↔ -2147483648 ≤ x ∧ x < 2147483648 :=
  IntType.inRange_signed rfl

/-- A call of the macro emits if it is not the first and `n` divides the
number of calls before it. -/
theorem logEveryN_counterAfter {n : ℕ} (hn : 1 ≤ n) (hmax : n < 2 ^ 31 - 1) (k : ℕ) :
    logEveryN n (counterAfter n k)
      = some ((counterAfter n (k + 1) : ℤ), decide (k ≠ 0 ∧ k % n = 0)) := by
  have hle := counterAfter_le hn k
  have hle' := counterAfter_le hn (k + 1)
  have hadd : IntType.int32.add (counterAfter n k) 1 = some ((counterAfter n k : ℤ) + 1) := by
    apply IntType.add_of_inRange
    rw [inRange_int]
    omega
  rw [logEveryN, hadd, Option.bind_some]
  rcases counterAfter_step hn k with ⟨hin, hnext, hk⟩ | ⟨hout, hnext, hk, hmod⟩
  · rw [if_neg (by omega), hnext]
    have hno : decide (k ≠ 0 ∧ k % n = 0) = false := decide_eq_false (by omega)
    rw [hno]
    rfl
  · have hsub : IntType.int32.sub ((counterAfter n k : ℤ) + 1) n
        = some (counterAfter n (k + 1) : ℤ) := by
      have heq : (counterAfter n k : ℤ) + 1 - n = counterAfter n (k + 1) := by omega
      rw [← heq]
      apply IntType.sub_of_inRange
      rw [heq, inRange_int]
      omega
    rw [if_pos (by omega), hsub, Option.map_some]
    have hone : counterAfter n (k + 1) = 1 := by
      rw [counterAfter_succ, hmod]
    have hyes : decide (k ≠ 0 ∧ k % n = 0) = true := decide_eq_true ⟨hk, hmod⟩
    rw [hone, hyes]
    rfl

/-! ### Runs of a site -/

theorem everyNSite_hit (n : ℕ) (counter : ℤ) :
    (everyNSite n).step counter true
      = (logEveryN n counter).map fun (c, emits) => (c, [emits]) := rfl

theorem everyNSite_exec {n : ℕ} (hn : 1 ≤ n) (hmax : n < 2 ^ 31 - 1) (es : List Bool) :
    (everyNSite n).exec es
      = some ((counterAfter n (es.count true) : ℤ),
          marks (fun k => decide (k ≠ 0 ∧ k % n = 0)) 0 es) := by
  have hhit : ∀ k, (everyNSite n).step (counterAfter n k) true
      = some ((counterAfter n (k + 1) : ℤ), [decide (k ≠ 0 ∧ k % n = 0)]) := by
    intro k
    rw [everyNSite_hit, logEveryN_counterAfter hn hmax k, Option.map_some]
  have h := execFrom_marks (fun k => (counterAfter n k : ℤ))
    (fun k => decide (k ≠ 0 ∧ k % n = 0)) hhit (fun _ => rfl) es 0
  rwa [Nat.zero_add] at h

section Glog

variable {γ : Type*} {g : Glog γ} {counter : γ → ℤ}

/-- The state of a glog site after `k` calls whose condition held. -/
def Glog.stateAfter (g : Glog γ) (n : ℕ) : ℕ → γ
  | 0 => g.init
  | k + 1 => (g.logEveryN n (g.stateAfter n k)).1

theorem Glog.Behaves.counter_stateAfter (hg : g.Behaves counter) {n : ℕ} (hn : 1 ≤ n) (k : ℕ) :
    counter (g.stateAfter n k) = counterAfter n k := by
  induction k with
  | zero => exact hg.init
  | succ k ih =>
    rw [Glog.stateAfter, hg.call, ih]
    rcases counterAfter_step hn k with ⟨hin, hnext, -⟩ | ⟨hout, hnext, -⟩
    · rw [if_neg (by omega), hnext]
      rfl
    · rw [if_pos (by omega)]
      omega

theorem Glog.Behaves.site_exec (hg : g.Behaves counter) {n : ℕ} (hn : 1 ≤ n) (es : List Bool) :
    (g.site n).exec es
      = some (g.stateAfter n (es.count true), marks (fun k => decide (k % n = 0)) 0 es) := by
  have hhit : ∀ k, (g.site n).step (g.stateAfter n k) true
      = some (g.stateAfter n (k + 1), [decide (k % n = 0)]) := by
    intro k
    have hemits : (g.logEveryN n (g.stateAfter n k)).2 = decide (k % n = 0) := by
      have hiff : (g.logEveryN n (g.stateAfter n k)).2 = true ↔ k % n = 0 := by
        have hcount := hg.counter_stateAfter hn (k + 1)
        rw [Glog.stateAfter, counterAfter_succ] at hcount
        rw [hg.emits, hcount]
        omega
      cases hb : (g.logEveryN n (g.stateAfter n k)).2 with
      | true => rw [decide_eq_true (hiff.mp hb)]
      | false =>
        rw [hb] at hiff
        exact (decide_eq_false fun h => Bool.false_ne_true (hiff.mpr h)).symm
    show some (_, [(g.logEveryN n (g.stateAfter n k)).2]) = _
    rw [hemits]
    rfl
  have h := execFrom_marks (g.stateAfter n) (fun k => decide (k % n = 0)) hhit
    (fun _ => rfl) es 0
  rwa [Nat.zero_add] at h

end Glog

/-! ### How many messages -/

/-- glog emits at every `n`-th call from the first on. -/
theorem count_glog_marks {n : ℕ} (hn : 1 ≤ n) (es : List Bool) :
    (marks (fun k => decide (k % n = 0)) 0 es).count true = (es.count true + n - 1) / n := by
  have hf : ∀ k, (k + 1 + n - 1) / n = (k + n - 1) / n + (decide (k % n = 0)).toNat := by
    intro k
    have hsucc : k + 1 + n - 1 = (k + n - 1) + 1 := by omega
    have hmod : n ∣ (k + n - 1) + 1 ↔ k % n = 0 := by
      have hkn : (k + n - 1) + 1 = k + n := by omega
      rw [hkn, Nat.dvd_add_self_right, Nat.dvd_iff_mod_eq_zero]
    rw [hsucc, Nat.succ_div]
    simp only [hmod]
    by_cases h : k % n = 0
    · rw [if_pos h, decide_eq_true h, Bool.toNat_true]
    · rw [if_neg h, decide_eq_false h, Bool.toNat_false]
  have h := count_marks (f := fun k => (k + n - 1) / n) hf es 0
  have hzero : (n - 1) / n = 0 := Nat.div_eq_of_lt (by omega)
  simpa [hzero] using h

/-- The macro emits as often, less the first message. -/
theorem count_marks_everyN {n : ℕ} (es : List Bool) :
    (marks (fun k => decide (k ≠ 0 ∧ k % n = 0)) 0 es).count true = (es.count true - 1) / n := by
  have hf : ∀ k, (k + 1 - 1) / n = (k - 1) / n + (decide (k ≠ 0 ∧ k % n = 0)).toNat := by
    intro k
    cases k with
    | zero => rfl
    | succ k =>
      rw [Nat.add_sub_cancel, Nat.add_sub_cancel, Nat.succ_div]
      by_cases h : n ∣ k + 1
      · rw [if_pos h, decide_eq_true ⟨Nat.succ_ne_zero k, Nat.mod_eq_zero_of_dvd h⟩,
          Bool.toNat_true]
      · have hno : ¬ (k + 1 ≠ 0 ∧ (k + 1) % n = 0) := fun hk => h (Nat.dvd_of_mod_eq_zero hk.2)
        rw [if_neg h, decide_eq_false hno, Bool.toNat_false]
  have h := count_marks (f := fun k => (k - 1) / n) hf es 0
  simpa using h

/-! ### The comparison -/

/-- The call `i` is the first of `es` whose condition holds. -/
def FirstHit (es : List Bool) (i : ℕ) : Prop := es[i]? = some true ∧ true ∉ es.take i

/-- The two sites report the same of all calls but the first. -/
theorem marks_agree_iff (n : ℕ) (es : List Bool) (i : ℕ) :
    (marks (fun k => decide (k ≠ 0 ∧ k % n = 0)) 0 es)[i]?
        = (marks (fun k => decide (k % n = 0)) 0 es)[i]? ↔ ¬ FirstHit es i := by
  rw [marks_getElem?, marks_getElem?, FirstHit, ← List.count_eq_zero, Nat.zero_add]
  generalize (es.take i).count true = k
  rcases es[i]? with - | - | -
  · simp
  · simp
  · by_cases hk : k = 0
    · simp [hk]
    · simp [hk]

/-- **Where the macro agrees with glog.**  In any sequence of calls neither
overflows its counter, which stays between `0` and `n`; glog emits at the calls
`1`, `n + 1`, `2 * n + 1`, ... whose condition holds.  The macro reports the
same of a call if and only if it is not the first whose condition holds, so it
agrees with glog on the whole sequence, and emits as many messages, if and only
if there is no such call. -/
theorem logEveryN_agrees_iff {γ : Type*} {g : Glog γ} {counter : γ → ℤ}
    (hg : g.Behaves counter) {n : ℕ} (hn : 1 ≤ n) (hmax : n < 2 ^ 31 - 1) (es : List Bool) :
    ∃ c emitted s glogEmitted,
      (everyNSite n).exec es = some (c, emitted) ∧ (g.site n).exec es = some (s, glogEmitted) ∧
        (0 ≤ c ∧ c ≤ n) ∧
        (∀ i, glogEmitted[i]? =
          es[i]?.map fun e => e && decide ((es.take i).count true % n = 0)) ∧
        glogEmitted.count true = (es.count true + n - 1) / n ∧
        (∀ i, emitted[i]? = glogEmitted[i]? ↔ ¬ FirstHit es i) ∧
        (emitted = glogEmitted ↔ true ∉ es) ∧
        (emitted.count true = (es.count true + n - 1) / n ↔ true ∉ es) := by
  have hle := counterAfter_le hn (es.count true)
  have hcount : (es.count true - 1) / n = (es.count true + n - 1) / n ↔ true ∉ es := by
    rw [← List.count_eq_zero]
    constructor
    · intro h
      by_contra hpos
      have hsum : es.count true + n - 1 = (es.count true - 1) + n := by omega
      rw [hsum, Nat.add_div_right _ hn] at h
      omega
    · intro h
      have hzero : (0 + n - 1) / n = 0 := Nat.div_eq_of_lt (by omega)
      rw [h, hzero, Nat.zero_sub, Nat.zero_div]
  refine ⟨_, _, _, _, everyNSite_exec hn hmax es, hg.site_exec hn es, ?_, ?_,
    count_glog_marks hn es, marks_agree_iff n es, ?_, ?_⟩
  · exact ⟨by omega, by omega⟩
  · intro i
    rw [marks_getElem?]
    simp only [Nat.zero_add]
  · constructor
    · intro h
      rw [← hcount, ← count_marks_everyN, ← count_glog_marks hn, h]
    · intro h
      apply List.ext_getElem?
      intro i
      rw [marks_agree_iff]
      rintro ⟨hi, -⟩
      exact h (List.mem_of_getElem? hi)
  · rw [count_marks_everyN]
    exact hcount

/-- A `LOG_EVERY_N` that behaves so. -/
def glogCounter : Glog ℤ where
  init := 0
  logEveryN n c :=
    let c := if c + 1 > n then c + 1 - n else c + 1
    (c, decide (c = 1))

theorem glogCounter_behaves : glogCounter.Behaves id where
  init := rfl
  call _ _ := rfl
  emits _ _ := decide_eq_true_iff

/-- With `n = 3`, both emit at the fourth call. -/
theorem logEveryN_agrees_example :
    ((everyNSite 3).exec [true, true, true, true]).map (fun p => p.2[3]?) = some (some true) ∧
      ((everyNSite 3).exec [true, true, true, true]).map (fun p => p.2[3]?)
        = ((glogCounter.site 3).exec [true, true, true, true]).map fun p => p.2[3]? := by
  refine ⟨by decide, ?_⟩
  obtain ⟨c, emitted, s, glogEmitted, hrun, hglog, -, -, -, hagree, -⟩ :=
    logEveryN_agrees_iff glogCounter_behaves (n := 3) (by decide) (by decide)
      [true, true, true, true]
  rw [hrun, hglog, Option.map_some, Option.map_some, (hagree 3).mpr]
  rintro ⟨-, hno⟩
  exact hno (by decide)

/-- **The macro does not agree with glog**: of four calls with `n = 2` it
emits at the third, glog also at the first. -/
theorem not_logEveryN_agrees :
    glogCounter.Behaves id ∧
      (everyNSite 2).exec [true, true, true, true] = some (2, [false, false, true, false]) ∧
      (glogCounter.site 2).exec [true, true, true, true]
        = some (2, [true, false, true, false]) :=
  ⟨glogCounter_behaves, by decide, by decide⟩

end Agrpc
