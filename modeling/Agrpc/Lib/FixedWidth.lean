/-
Agrpc/Lib/FixedWidth.lean

Fixed-width integer arithmetic, as C and C++ have it.

A type is a number of bits, signed or unsigned.  An operation gives its
mathematical result if the type has it (`result_of_inRange`).  Otherwise an
unsigned type wraps around (`result_unsigned`), and an operation of a signed
type has no result: its behaviour is undefined.
-/
import Mathlib.Algebra.Order.Ring.Int

namespace FixedWidth

structure IntType where
  signed : Bool
  bits : ℕ
  deriving DecidableEq, Repr

namespace IntType

def int32 : IntType := ⟨true, 32⟩
def uint32 : IntType := ⟨false, 32⟩
def int64 : IntType := ⟨true, 64⟩
def uint64 : IntType := ⟨false, 64⟩

variable (ty : IntType)

/-- `std::numeric_limits<T>::min()`. -/
def minValue : ℤ := if ty.signed then -2 ^ (ty.bits - 1) else 0

/-- `std::numeric_limits<T>::max()`. -/
def maxValue : ℤ := if ty.signed then 2 ^ (ty.bits - 1) - 1 else 2 ^ ty.bits - 1

/-- The type has the value `x`. -/
def InRange (x : ℤ) : Prop := ty.minValue ≤ x ∧ x ≤ ty.maxValue

instance (x : ℤ) : Decidable (ty.InRange x) := inferInstanceAs (Decidable (_ ∧ _))

/-- What an operation gives whose mathematical result is `x`. -/
def result (x : ℤ) : Option ℤ :=
  if ty.InRange x then some x
  else if ty.signed then none
  else some (x % 2 ^ ty.bits)

def add (x y : ℤ) : Option ℤ := ty.result (x + y)

def sub (x y : ℤ) : Option ℤ := ty.result (x - y)

def mul (x y : ℤ) : Option ℤ := ty.result (x * y)

variable {ty} {x y : ℤ}

theorem result_of_inRange (h : ty.InRange x) : ty.result x = some x := if_pos h

/-- The operations that do not overflow. -/
theorem add_of_inRange (h : ty.InRange (x + y)) : ty.add x y = some (x + y) :=
  result_of_inRange h

theorem sub_of_inRange (h : ty.InRange (x - y)) : ty.sub x y = some (x - y) :=
  result_of_inRange h

theorem mul_of_inRange (h : ty.InRange (x * y)) : ty.mul x y = some (x * y) :=
  result_of_inRange h

/-- Signed overflow. -/
theorem result_signed (hs : ty.signed = true) (h : ¬ ty.InRange x) : ty.result x = none := by
  rw [result, if_neg h, if_pos hs]

/-- An unsigned type has the numbers below `2 ^ bits`. -/
theorem inRange_unsigned (hs : ty.signed = false) :
    ty.InRange x ↔ 0 ≤ x ∧ x < 2 ^ ty.bits := by
  rw [InRange, minValue, maxValue, hs, if_neg Bool.false_ne_true, if_neg Bool.false_ne_true]
  constructor
  · rintro ⟨h₀, h₁⟩
    exact ⟨h₀, by omega⟩
  · rintro ⟨h₀, h₁⟩
    exact ⟨h₀, by omega⟩

/-- A signed type has as many negative numbers as others. -/
theorem inRange_signed (hs : ty.signed = true) :
    ty.InRange x ↔ -2 ^ (ty.bits - 1) ≤ x ∧ x < 2 ^ (ty.bits - 1) := by
  rw [InRange, minValue, maxValue, hs, if_pos rfl, if_pos rfl]
  constructor
  · rintro ⟨h₀, h₁⟩
    exact ⟨h₀, by omega⟩
  · rintro ⟨h₀, h₁⟩
    exact ⟨h₀, by omega⟩

/-- Unsigned arithmetic is arithmetic modulo `2 ^ bits`. -/
theorem result_unsigned (hs : ty.signed = false) : ty.result x = some (x % 2 ^ ty.bits) := by
  by_cases h : ty.InRange x
  · obtain ⟨h₀, h₁⟩ := (inRange_unsigned hs).mp h
    rw [result_of_inRange h, Int.emod_eq_of_lt h₀ h₁]
  · rw [result, if_neg h, hs, if_neg Bool.false_ne_true]

/-- Unsigned wrap-around at the upper end. -/
theorem result_above (hs : ty.signed = false) (h : 2 ^ ty.bits ≤ x) (h' : x < 2 * 2 ^ ty.bits) :
    ty.result x = some (x - 2 ^ ty.bits) := by
  rw [result_unsigned hs, ← Int.sub_emod_right, Int.emod_eq_of_lt (by omega) (by omega)]

/-- Unsigned wrap-around at zero. -/
theorem result_below (hs : ty.signed = false) (h : x < 0) (h' : -2 ^ ty.bits ≤ x) :
    ty.result x = some (x + 2 ^ ty.bits) := by
  rw [result_unsigned hs, ← Int.add_emod_right, Int.emod_eq_of_lt (by omega) (by omega)]

end IntType

end FixedWidth
