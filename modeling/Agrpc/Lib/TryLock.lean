/-
Agrpc/Lib/TryLock.lean

Try-locks made of one atomic flag: who exchanges it for `true` and gets
`false` back is inside, and clears it when leaving; who gets `true` back stays
outside.

`Guards flag inside` says what such a flag is worth: it is set if and only if
somebody is inside, and at most one party is (`Guards.iff_existsUnique`).
There is one rule for each way a step can change who is inside.
-/
import Mathlib.Logic.ExistsUnique
import Mathlib.Data.Bool.Basic

namespace TryLock

variable {ι : Type*} {flag : Bool} {inside inside' : ι → Prop} {t : ι}

/-- The flag guards the section the parties `inside` are in. -/
structure Guards (flag : Bool) (inside : ι → Prop) : Prop where
  holder : flag = true ↔ ∃ t, inside t
  unique : ∀ t u, inside t → inside u → t = u

namespace Guards

theorem nobody (h : ∀ t, ¬ inside t) : Guards false inside where
  holder := by simp [h]
  unique t _ ht _ := absurd ht (h t)

/-- Nobody is inside while the flag is clear. -/
theorem not_inside (h : Guards false inside) (t : ι) : ¬ inside t := fun ht =>
  Bool.false_ne_true (h.holder.mpr ⟨t, ht⟩)

/-- A step after which the same parties are inside. -/
theorem stay (h : Guards flag inside) (h' : ∀ u, inside' u ↔ inside u) :
    Guards flag inside' where
  holder := by simp only [h.holder, h']
  unique t u ht hu := h.unique t u ((h' t).mp ht) ((h' u).mp hu)

/-- The exchange that gets `false` back. -/
theorem acquire (h : Guards false inside) (h' : ∀ u, inside' u ↔ u = t ∨ inside u) :
    Guards true inside' := by
  have honly : ∀ u, inside' u → u = t := fun u hu =>
    ((h' u).mp hu).resolve_right (h.not_inside u)
  refine ⟨⟨fun _ => ⟨t, (h' t).mpr (.inl rfl)⟩, fun _ => rfl⟩, ?_⟩
  intro u v hu hv
  rw [honly u hu, honly v hv]

/-- The store that clears the flag, by the party that is inside. -/
theorem release (h : Guards flag inside) (ht : inside t)
    (h' : ∀ u, inside' u ↔ u ≠ t ∧ inside u) : Guards false inside' := by
  apply nobody
  intro u hu
  obtain ⟨hne, hin⟩ := (h' u).mp hu
  exact hne (h.unique u t hin ht)

/-- **The flag is set if and only if exactly one party is inside.** -/
theorem iff_existsUnique (h : Guards flag inside) : flag = true ↔ ∃! t, inside t := by
  rw [h.holder]
  constructor
  · rintro ⟨t, ht⟩
    exact ⟨t, ht, fun u hu => h.unique u t hu ht⟩
  · rintro ⟨t, ht, -⟩
    exact ⟨t, ht⟩

end Guards

end TryLock
