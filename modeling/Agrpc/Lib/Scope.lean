/-
Agrpc/Lib/Scope.lean

Dynamically scoped variables.

A scope exchanges the value of a variable on entry, keeps what it found and
puts that back on exit.  `Scoped` is such a variable with what its open scopes
found, innermost first; `enter` and `leave` are the two ends of a scope.

* `Binds v x xs` — the open scopes entered with the values `xs`, innermost
  first, over the value `x`;
* `Bracketed es found` — in the entries and exits `es`, every exit restores
  what the entry it closes found, and `found` is what the entries that are
  still open found.

The invariant behind both is one equation: the value, followed by what the
open scopes found, is what they entered with, followed by the value below
them.
-/
import Mathlib.Data.List.Basic

namespace Scoping

/-! ### The variable -/

/-- A variable with what its open scopes found, innermost first. -/
structure Scoped (α : Type*) where
  value : α
  found : List α

namespace Scoped

variable {α : Type*}

/-- Enter a scope with the value `x`. -/
def enter (x : α) (v : Scoped α) : Scoped α := ⟨x, v.value :: v.found⟩

/-- Leave the innermost scope; no result if none is open. -/
def leave : Scoped α → Option (Scoped α)
  | ⟨_, []⟩ => none
  | ⟨_, x :: xs⟩ => some ⟨x, xs⟩

/-- The open scopes entered with the values `entered`, over the value `x`. -/
def Binds (v : Scoped α) (x : α) (entered : List α) : Prop :=
  v.value :: v.found = entered ++ [x]

theorem binds_nil (x : α) : Binds ⟨x, []⟩ x [] := rfl

theorem Binds.enter {v : Scoped α} {x : α} {entered : List α} (h : v.Binds x entered)
    (y : α) : (v.enter y).Binds x (y :: entered) := by
  have hv : v.value :: v.found = entered ++ [x] := h
  show y :: v.value :: v.found = y :: entered ++ [x]
  rw [hv, List.cons_append]

/-- Leaving the innermost scope leaves the others bound as they were. -/
theorem Binds.leave {v v' : Scoped α} {x y : α} {entered : List α}
    (h : v.Binds x (y :: entered)) (hv : v.leave = some v') : v'.Binds x entered := by
  obtain ⟨value, - | ⟨z, zs⟩⟩ := v
  · simp [Scoped.leave] at hv
  · obtain rfl : ⟨z, zs⟩ = v' := by simpa [Scoped.leave] using hv
    exact (List.cons.inj h).2

/-- **The variable has the value its innermost open scope entered with**, and
the value below them all if no scope is open. -/
theorem Binds.value {v : Scoped α} {x : α} {entered : List α} (h : v.Binds x entered) :
    v.value = entered.head?.getD x := by
  cases entered with
  | nil => exact (List.cons.inj h).1
  | cons y ys => exact (List.cons.inj h).1

end Scoped

/-! ### Entries and exits -/

inductive ScopeEvent (α : Type*) where
  | enter (found : α)
  | leave (restored : α)

/-- Every exit of `es` closes the innermost open entry and restores what it
found; the second argument is what the entries still open found. -/
inductive Bracketed {α : Type*} : List (ScopeEvent α) → List α → Prop where
  | nil : Bracketed [] []
  | enter {es : List (ScopeEvent α)} {found : List α} (x : α) (h : Bracketed es found) :
      Bracketed (es ++ [.enter x]) (x :: found)
  | leave {es : List (ScopeEvent α)} {found : List α} {x : α} (h : Bracketed es (x :: found)) :
      Bracketed (es ++ [.leave x]) found

end Scoping
