/-
Agrpc/Base/CheckNear.lean

`AGRPC_CHECK_NEAR` and `AGRPC_DCHECK_NEAR` (`agrpc/base/logging.h`).

The macros are functions of the argument lists they are given, so that what
one macro passes on to another is there to be seen.  `AGRPC_CHECK_NEAR` makes
two comparisons with computed bounds, either of which can leave the type;
`checkNear_iff` says for which values the verdict is right all the same.
`AGRPC_DCHECK_NEAR` does not pass the margin on, and no call of it is well
formed (`dcheckNear_illFormed`).

What the format string says and what the failure message prints are left out.
-/
import Mathlib.Algebra.Order.Group.Abs
import Agrpc.Lib.FixedWidth

namespace Agrpc

open FixedWidth

/-! ### The macros -/

/-- An argument of a macro: an expression of the integer type, by its value,
or a format string. -/
inductive MacroArg where
  | number (x : ℤ)
  | text (s : String)
  deriving DecidableEq, Repr

/-- What becomes of a check. -/
inductive Outcome where
  | passes
  /-- the process is ended with a message -/
  | fails
  /-- an operation overflowed on the way -/
  | undefined
  /-- the check does not compile -/
  | illFormed
  deriving DecidableEq, Repr

namespace Outcome

/-- One check after another: the second is made only if the first passes. -/
def andThen (first second : Outcome) : Outcome :=
  match first with
  | passes => second
  | _ => first

def ofBool (b : Bool) : Outcome := if b then passes else fails

@[simp] theorem passes_andThen (r : Outcome) : passes.andThen r = r := rfl

@[simp] theorem fails_andThen (r : Outcome) : fails.andThen r = fails := rfl

@[simp] theorem ofBool_ne_undefined (b : Bool) : undefined ≠ ofBool b := by
  cases b <;> simp [ofBool]

@[simp] theorem ofBool_ne_illFormed (b : Bool) : illFormed ≠ ofBool b := by
  cases b <;> simp [ofBool]

theorem ofBool_inj {a b : Bool} : ofBool a = ofBool b ↔ a = b := by
  cases a <;> cases b <;> simp [ofBool]

end Outcome

/-- `FormatLog(__FILE__, __LINE__, args...)` takes no arguments or a format
string and its arguments. -/
def formatLogAccepts : List MacroArg → Bool
  | [] => true
  | .text _ :: _ => true
  | .number _ :: _ => false

/-- `AGRPC_INTERNAL_DETAIL_LOGGING_CHECK_OP`; `val2` has no value if computing
it overflowed. -/
def loggingCheckOp (op : ℤ → ℤ → Bool) (val1 : ℤ) (val2 : Option ℤ) (message : List MacroArg) :
    Outcome :=
  if formatLogAccepts message then
    match val2 with
    | some y => .ofBool (op val1 y)
    | none => .undefined
  else .illFormed

def checkLe := loggingCheckOp fun x y => x ≤ y

def checkGe := loggingCheckOp fun x y => x ≥ y

/-- `AGRPC_CHECK_NEAR(val1, val2, margin, ...)` on expressions of the type
`ty`, which is one that arithmetic does not promote to a wider one.  With fewer
arguments, or a margin that is no number, it does not compile. -/
def checkNear (ty : IntType) : List MacroArg → Outcome
  | .number val1 :: .number val2 :: .number margin :: message =>
      (checkLe val1 (ty.add val2 margin) message).andThen
        (checkGe val1 (ty.sub val2 margin) message)
  | _ => .illFormed

/-- `AGRPC_DCHECK_NEAR(expr1, expr2, margin, ...)` where `NDEBUG` is not
defined: `margin` is not used. -/
def dcheckNear (ty : IntType) : List MacroArg → Outcome
  | expr1 :: expr2 :: _ :: message => checkNear ty (expr1 :: expr2 :: message)
  | _ => .illFormed

inductive NearMacro where
  | check
  | dcheck
  deriving DecidableEq, Repr

def NearMacro.expand (ty : IntType) : NearMacro → List MacroArg → Outcome
  | .check => checkNear ty
  | .dcheck => dcheckNear ty

/-! ### The verdict -/

/-- The bounds `val2 + margin` and `val2 - margin`, as far as they leave the
type, do not turn the verdict.  A signed type must have both, the second only
if the first comparison lets the check go on; an unsigned type wraps a bound
around, which is harmless where the values are not near, and where `val1` is
on the right side of the wrapped bound. -/
def BoundsHarmless (ty : IntType) (val1 val2 margin : ℤ) : Prop :=
  if ty.signed then
    val2 + margin ≤ ty.maxValue ∧ (val1 ≤ val2 + margin → ty.minValue ≤ val2 - margin)
  else
    |val1 - val2| ≤ margin →
      (val2 + margin ≤ ty.maxValue ∨ val1 ≤ val2 + margin - 2 ^ ty.bits) ∧
        (margin ≤ val2 ∨ val2 - margin + 2 ^ ty.bits ≤ val1)

instance (ty : IntType) (val1 val2 margin : ℤ) :
    Decidable (BoundsHarmless ty val1 val2 margin) := by
  unfold BoundsHarmless
  infer_instance

theorem loggingCheckOp_some {message : List MacroArg} (hmsg : formatLogAccepts message = true)
    (op : ℤ → ℤ → Bool) (x y : ℤ) : loggingCheckOp op x (some y) message = .ofBool (op x y) :=
  if_pos hmsg

theorem loggingCheckOp_none {message : List MacroArg} (hmsg : formatLogAccepts message = true)
    (op : ℤ → ℤ → Bool) (x : ℤ) : loggingCheckOp op x none message = .undefined :=
  if_pos hmsg

/-- Both comparisons against bounds that the type gave some value. -/
theorem checks_some {message : List MacroArg} (hmsg : formatLogAccepts message = true)
    (x hi lo : ℤ) :
    (checkLe x (some hi) message).andThen (checkGe x (some lo) message)
      = .ofBool (decide (lo ≤ x ∧ x ≤ hi)) := by
  rw [checkLe, checkGe, loggingCheckOp_some hmsg, loggingCheckOp_some hmsg]
  by_cases h : x ≤ hi
  · simp [Outcome.ofBool, h]
  · simp [Outcome.ofBool, h]

section CheckNear

variable {ty : IntType} {val1 val2 margin : ℤ} {message : List MacroArg}

/-- A signed type. -/
theorem checkNear_signed (hs : ty.signed = true) (h₂ : ty.InRange val2) (h₀ : 0 ≤ margin)
    (hmsg : formatLogAccepts message = true) :
    checkNear ty (.number val1 :: .number val2 :: .number margin :: message)
        = .ofBool (decide (|val1 - val2| ≤ margin)) ↔
      val2 + margin ≤ ty.maxValue ∧ (val1 ≤ val2 + margin → ty.minValue ≤ val2 - margin) := by
  obtain ⟨hmin, hmax⟩ := h₂
  simp only [checkNear, abs_sub_le_iff]
  by_cases hhi : val2 + margin ≤ ty.maxValue
  · have hadd : ty.add val2 margin = some (val2 + margin) :=
      IntType.add_of_inRange ⟨by omega, hhi⟩
    rw [hadd]
    by_cases hlo : ty.minValue ≤ val2 - margin
    · have hsub : ty.sub val2 margin = some (val2 - margin) :=
        IntType.sub_of_inRange ⟨hlo, by omega⟩
      rw [hsub, checks_some hmsg, Outcome.ofBool_inj, decide_eq_decide]
      constructor
      · exact fun _ => ⟨hhi, fun _ => hlo⟩
      · intro _
        omega
    · have hsub : ty.sub val2 margin = none :=
        IntType.result_signed hs fun h => hlo h.1
      rw [hsub, checkLe, checkGe, loggingCheckOp_some hmsg, loggingCheckOp_none hmsg]
      by_cases hle : val1 ≤ val2 + margin
      · -- the check goes on to the second comparison
        rw [decide_eq_true hle]
        constructor
        · intro h
          exact absurd h (Outcome.ofBool_ne_undefined _)
        · rintro ⟨-, h⟩
          exact absurd (h hle) hlo
      · have hfar : decide (val1 - val2 ≤ margin ∧ val2 - val1 ≤ margin) = false :=
          decide_eq_false (by omega)
        rw [decide_eq_false hle, hfar]
        exact ⟨fun _ => ⟨hhi, fun h => absurd h hle⟩, fun _ => rfl⟩
  · have hadd : ty.add val2 margin = none := IntType.result_signed hs fun h => hhi h.2
    rw [hadd, checkLe, loggingCheckOp_none hmsg]
    constructor
    · intro h
      exact absurd h (Outcome.ofBool_ne_undefined _)
    · rintro ⟨h, -⟩
      exact absurd h hhi

/-- An unsigned type: where the values are not near, the verdict is right. -/
theorem checkNear_unsigned (hs : ty.signed = false) (h₁ : ty.InRange val1)
    (h₂ : ty.InRange val2) (hm : ty.InRange margin) (hmsg : formatLogAccepts message = true) :
    checkNear ty (.number val1 :: .number val2 :: .number margin :: message)
        = .ofBool (decide (|val1 - val2| ≤ margin)) ↔
      (|val1 - val2| ≤ margin →
        (val2 + margin ≤ ty.maxValue ∨ val1 ≤ val2 + margin - 2 ^ ty.bits) ∧
          (margin ≤ val2 ∨ val2 - margin + 2 ^ ty.bits ≤ val1)) := by
  have hmax : ty.maxValue = 2 ^ ty.bits - 1 := by
    rw [IntType.maxValue, hs, if_neg Bool.false_ne_true]
  rw [IntType.inRange_unsigned hs] at h₁ h₂ hm
  simp only [checkNear, abs_sub_le_iff, hmax]
  -- the bounds as the type gives them
  obtain ⟨hi, hadd, hhi⟩ : ∃ hi, ty.add val2 margin = some hi ∧
      (val2 + margin < 2 ^ ty.bits ∧ hi = val2 + margin ∨
        2 ^ ty.bits ≤ val2 + margin ∧ hi = val2 + margin - 2 ^ ty.bits) := by
    by_cases h : val2 + margin < 2 ^ ty.bits
    · have hin : ty.InRange (val2 + margin) := (IntType.inRange_unsigned hs).mpr ⟨by omega, h⟩
      exact ⟨_, IntType.add_of_inRange hin, .inl ⟨h, rfl⟩⟩
    · exact ⟨_, IntType.result_above hs (by omega) (by omega), .inr ⟨by omega, rfl⟩⟩
  obtain ⟨lo, hsub, hlo⟩ : ∃ lo, ty.sub val2 margin = some lo ∧
      (margin ≤ val2 ∧ lo = val2 - margin ∨
        val2 < margin ∧ lo = val2 - margin + 2 ^ ty.bits) := by
    by_cases h : margin ≤ val2
    · have hin : ty.InRange (val2 - margin) :=
        (IntType.inRange_unsigned hs).mpr ⟨by omega, by omega⟩
      exact ⟨_, IntType.sub_of_inRange hin, .inl ⟨h, rfl⟩⟩
    · exact ⟨_, IntType.result_below hs (by omega) (by omega), .inr ⟨by omega, rfl⟩⟩
  rw [hadd, hsub, checks_some hmsg, Outcome.ofBool_inj, decide_eq_decide]
  rcases hhi with ⟨hhi, rfl⟩ | ⟨hhi, rfl⟩ <;> rcases hlo with ⟨hlo, rfl⟩ | ⟨hlo, rfl⟩ <;> omega

/-- **When `AGRPC_CHECK_NEAR` decides nearness.** -/
theorem checkNear_iff (h₁ : ty.InRange val1) (h₂ : ty.InRange val2) (hm : ty.InRange margin)
    (h₀ : 0 ≤ margin) (hmsg : formatLogAccepts message = true) :
    checkNear ty (.number val1 :: .number val2 :: .number margin :: message)
        = .ofBool (decide (|val1 - val2| ≤ margin)) ↔
      BoundsHarmless ty val1 val2 margin := by
  unfold BoundsHarmless
  cases hs : ty.signed with
  | true =>
    rw [if_pos rfl]
    exact checkNear_signed hs h₂ h₀ hmsg
  | false =>
    rw [if_neg Bool.false_ne_true]
    exact checkNear_unsigned hs h₁ h₂ hm hmsg

/-- `AGRPC_DCHECK_NEAR` passes the message where the margin belongs. -/
theorem dcheckNear_illFormed (a b c : MacroArg) (hmsg : formatLogAccepts message = true) :
    dcheckNear ty (a :: b :: c :: message) = .illFormed := by
  cases message with
  | nil => cases a <;> cases b <;> rfl
  | cons d message =>
    cases d with
    | number x => cases hmsg
    | text s => cases a <;> cases b <;> rfl

end CheckNear

/-- **Which nearness checks decide nearness.**  With values of the type and a
message that can be formatted, the verdict is that of the mathematical relation
if and only if the macro is `AGRPC_CHECK_NEAR` and the bounds are harmless. -/
theorem decidesNearness_iff {ty : IntType} {val1 val2 margin : ℤ} (h₁ : ty.InRange val1)
    (h₂ : ty.InRange val2) (hm : ty.InRange margin) (h₀ : 0 ≤ margin)
    {message : List MacroArg} (hmsg : formatLogAccepts message = true) (nearMacro : NearMacro) :
    nearMacro.expand ty (.number val1 :: .number val2 :: .number margin :: message)
        = .ofBool (decide (|val1 - val2| ≤ margin)) ↔
      nearMacro = .check ∧ BoundsHarmless ty val1 val2 margin := by
  cases nearMacro with
  | check =>
    rw [NearMacro.expand, checkNear_iff h₁ h₂ hm h₀ hmsg]
    exact (and_iff_right rfl).symm
  | dcheck =>
    rw [NearMacro.expand, dcheckNear_illFormed _ _ _ hmsg]
    constructor
    · intro h
      exact absurd h (Outcome.ofBool_ne_illFormed _)
    · rintro ⟨h, -⟩
      cases h

theorem decidesNearness_at_end :
    NearMacro.check.expand .uint32 [.number 4294967295, .number 4294967290, .number 5]
      = .ofBool (decide (|(4294967295 : ℤ) - 4294967290| ≤ 5)) :=
  (decidesNearness_iff (by decide) (by decide) (by decide) (by decide) (by decide) .check).mpr
    ⟨rfl, by decide⟩

/-- **The checks do not decide nearness.**  `1 - 2` wraps around and `3` is far
from it; the sum overflows next to the greatest value; and the debug form of a
check that passes does not compile. -/
theorem not_decidesNearness :
    checkNear .uint32 [.number 3, .number 1, .number 2]
        ≠ .ofBool (decide (|(3 : ℤ) - 1| ≤ 2)) ∧
      checkNear .int32 [.number 2147483647, .number 2147483647, .number 1]
        ≠ .ofBool (decide (|(2147483647 : ℤ) - 2147483647| ≤ 1)) ∧
      dcheckNear .int32 [.number 0, .number 0, .number 0, .text "near"]
        ≠ checkNear .int32 [.number 0, .number 0, .number 0, .text "near"] := by
  decide

end Agrpc
