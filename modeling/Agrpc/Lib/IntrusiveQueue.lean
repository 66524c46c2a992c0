/-
Agrpc/Lib/IntrusiveQueue.lean

Intrusive FIFO queues: a head, a tail, and one link in every item, which all
queues share.

Memory gives, for every address, the link of the object there, if there is one
(`Links`).  `Seg m p xs r` says that following the links from `p` visits
exactly `xs` and arrives at `r`; a queue holds `xs` (`Queue.Holds`) if it has
their ends and its head leads through them to null.  No memory is that good to
a list with an item twice (`Seg.nodup`).

`Queue.Ends` is the part of `Holds` that concerns the queue object alone.  It
survives what the links do not: an item that is pushed while it is in the queue.
So each operation has one specification (`pushBack_spec`, `append_spec`,
`popFront_spec`) with what it does to the ends, which memory it leaves alone
(`Frame`) and, if the items are distinct, to the links.
-/
import Mathlib.Data.List.Nodup
import Mathlib.Logic.Function.Basic

namespace Intrusive

/-- The link of the object at every address; none where there is no object. -/
abbrev Links (α : Type*) := α → Option (Option α)

variable {α : Type*}

/-! ### Segments -/

/-- The links lead from `p` through `xs` to `r`. -/
def Seg (m : Links α) : Option α → List α → Option α → Prop
  | p, [], r => p = r
  | p, x :: xs, r => p = some x ∧ ∃ l, m x = some l ∧ Seg m l xs r

namespace Seg

variable {m m' : Links α} {p r s : Option α} {xs ys : List α}

theorem congr (h : Seg m p xs r) (hm : ∀ x ∈ xs, m' x = m x) : Seg m' p xs r := by
  induction xs generalizing p with
  | nil => exact h
  | cons x xs ih =>
    obtain ⟨rfl, l, hl, hrest⟩ := h
    refine ⟨rfl, l, ?_, ih hrest fun y hy => hm y (List.mem_cons_of_mem x hy)⟩
    rw [hm x List.mem_cons_self, hl]

theorem append_iff : Seg m p (xs ++ ys) s ↔ ∃ r, Seg m p xs r ∧ Seg m r ys s := by
  induction xs generalizing p with
  | nil =>
    constructor
    · exact fun h => ⟨p, rfl, h⟩
    · rintro ⟨r, rfl, h⟩
      exact h
  | cons x xs ih =>
    constructor
    · rintro ⟨rfl, l, hl, hrest⟩
      obtain ⟨r, hxs, hys⟩ := ih.mp hrest
      exact ⟨r, ⟨rfl, l, hl, hxs⟩, hys⟩
    · rintro ⟨r, ⟨rfl, l, hl, hxs⟩, hys⟩
      exact ⟨rfl, l, hl, ih.mpr ⟨r, hxs, hys⟩⟩

theorem head_eq (h : Seg m p xs none) : p = xs.head? := by
  cases xs with
  | nil => exact h
  | cons x xs => exact h.1

/-- The objects on a segment are alive. -/
theorem alive (h : Seg m p xs r) : ∀ x ∈ xs, (m x).isSome = true := by
  induction xs generalizing p with
  | nil => exact fun x hx => absurd hx List.not_mem_nil
  | cons y xs ih =>
    obtain ⟨rfl, l, hl, hrest⟩ := h
    intro x hx
    rcases List.mem_cons.mp hx with rfl | hx
    · rw [hl, Option.isSome_some]
    · exact ih hrest x hx

/-- A pointer leads to null along one list only. -/
theorem unique (h : Seg m p xs none) (h' : Seg m p ys none) : xs = ys := by
  induction xs generalizing p ys with
  | nil =>
    cases ys with
    | nil => rfl
    | cons y ys =>
      obtain rfl : p = none := h
      cases h'.1
  | cons x xs ih =>
    obtain ⟨rfl, l, hl, hrest⟩ := h
    cases ys with
    | nil => cases h'
    | cons y ys =>
      obtain ⟨heq, l', hl', hrest'⟩ := h'
      obtain rfl := Option.some.inj heq
      obtain rfl := Option.some.inj (hl.symm.trans hl')
      rw [ih hrest hrest']

/-- **What leads to null has no item twice**: the links after the second would
be those after the first. -/
theorem nodup (h : Seg m p xs none) : xs.Nodup := by
  induction xs generalizing p with
  | nil => exact List.nodup_nil
  | cons x xs ih =>
    obtain ⟨rfl, l, hl, hrest⟩ := h
    refine List.nodup_cons.mpr ⟨?_, ih hrest⟩
    intro hx
    obtain ⟨ys, zs, rfl⟩ := List.append_of_mem hx
    obtain ⟨r, -, hr⟩ := append_iff.mp hrest
    obtain ⟨rfl, l', hl', hzs⟩ := hr
    obtain rfl := Option.some.inj (hl.symm.trans hl')
    have hlen := congrArg List.length (unique hrest hzs)
    rw [List.length_append, List.length_cons] at hlen
    omega

end Seg

/-! ### What an operation leaves alone -/

/-- From `m` to `m'` only links of objects in `ys` have changed, and the same
objects are alive. -/
structure Frame (m m' : Links α) (ys : List α) : Prop where
  same : ∀ x, x ∉ ys → m' x = m x
  alive : ∀ x, (m' x).isSome = (m x).isSome

namespace Frame

variable {m m₁ m₂ : Links α} {ys zs : List α}

theorem refl (m : Links α) (ys : List α) : Frame m m ys := ⟨fun _ _ => rfl, fun _ => rfl⟩

theorem trans (h₁ : Frame m m₁ ys) (h₂ : Frame m₁ m₂ ys) : Frame m m₂ ys where
  same x hx := (h₂.same x hx).trans (h₁.same x hx)
  alive x := (h₂.alive x).trans (h₁.alive x)

theorem mono (h : Frame m m₁ ys) (hsub : ys ⊆ zs) : Frame m m₁ zs where
  same x hx := h.same x fun hx' => hx (hsub hx')
  alive := h.alive

end Frame

variable [DecidableEq α]

/-- `item->next = l`; no result if there is no such object. -/
def Links.write (m : Links α) (x : α) (l : Option α) : Option (Links α) :=
  if (m x).isSome then some (Function.update m x (some l)) else none

theorem Links.write_of_alive {m : Links α} {x : α} (hx : (m x).isSome = true) (l : Option α) :
    m.write x l = some (Function.update m x (some l)) := if_pos hx

theorem Frame.update {m : Links α} {x : α} {ys : List α} (hx : (m x).isSome = true)
    (hmem : x ∈ ys) (l : Option α) : Frame m (Function.update m x (some l)) ys where
  same y hy := by
    rw [Function.update_of_ne]
    rintro rfl
    exact hy hmem
  alive y := by
    by_cases h : y = x
    · rw [h, Function.update_self, hx, Option.isSome_some]
    · rw [Function.update_of_ne h]

/-! ### Queues -/

structure Queue (α : Type*) where
  head : Option α := none
  tail : Option α := none
  deriving DecidableEq, Repr

namespace Queue

/-- `empty`. -/
def isEmpty (q : Queue α) : Bool := q.head.isNone

/-- `push_back`. -/
def pushBack (q : Queue α) (x : α) (m : Links α) : Option (Queue α × Links α) :=
  (m.write x none).bind fun m =>
    match q.tail with
    | none => some ({ head := some x, tail := some x }, m)
    | some t => (m.write t (some x)).map fun m => ({ head := q.head, tail := some x }, m)

/-- `append`, of a queue that is moved from. -/
def append (q other : Queue α) (m : Links α) : Option (Queue α × Links α) :=
  match other.head, q.head, q.tail with
  | none, _, _ => some (q, m)
  | some x, none, _ => some ({ head := some x, tail := other.tail }, m)
  | some x, some _, some t =>
      (m.write t (some x)).map fun m => ({ head := q.head, tail := other.tail }, m)
  | some _, some _, none => none

/-- `pop_front`: the item and the queue after it; the tail is cleared when the
head becomes null. -/
def popFront (q : Queue α) (m : Links α) : Option (α × Queue α) :=
  q.head.bind fun x => (m x).map fun l =>
    (x, { head := l, tail := if l.isNone then none else q.tail })

/-- Push the items one after the other. -/
def pushAll (q : Queue α) : List α → Links α → Option (Queue α × Links α)
  | [], m => some (q, m)
  | x :: xs, m => (q.pushBack x m).bind fun (q, m) => q.pushAll xs m

omit [DecidableEq α] in
/-- The queue has the ends of `xs`. -/
structure Ends (q : Queue α) (xs : List α) : Prop where
  head : q.head = xs.head?
  tail : q.tail = xs.getLast?

omit [DecidableEq α] in
/-- The queue is a well-formed list of exactly `xs`. -/
structure Holds (m : Links α) (q : Queue α) (xs : List α) : Prop where
  ends : q.Ends xs
  linked : Seg m q.head xs none

/-! ### The specifications of the operations -/

section Specs

variable {m : Links α} {q : Queue α} {xs : List α}

theorem pushBack_spec {x : α} (hq : q.Ends xs) (hxs : ∀ y ∈ xs, (m y).isSome = true)
    (hx : (m x).isSome = true) :
    ∃ q' m', q.pushBack x m = some (q', m') ∧ q'.Ends (xs ++ [x]) ∧ Frame m m' (xs ++ [x]) ∧
      (Seg m q.head xs none → x ∉ xs → Seg m' q'.head (xs ++ [x]) none) := by
  have hmem : x ∈ xs ++ [x] := List.mem_append_right xs (List.mem_singleton_self x)
  have hframe := Frame.update hx hmem none
  rcases List.eq_nil_or_concat xs with rfl | ⟨ys, t, rfl⟩
  · refine ⟨{ head := some x, tail := some x }, _, ?_, ⟨rfl, rfl⟩, hframe, ?_⟩
    · rw [pushBack, Links.write_of_alive hx, Option.bind_some, hq.tail]
      rfl
    · intro _ _
      exact ⟨rfl, none, Function.update_self _ _ _, rfl⟩
  · rw [List.concat_eq_append] at *
    have ht : t ∈ ys ++ [t] := List.mem_append_right ys (List.mem_singleton_self t)
    have hlive : (Function.update m x (some none) t).isSome = true := by
      rw [hframe.alive]
      exact hxs t ht
    refine ⟨{ head := q.head, tail := some x }, _, ?_, ⟨?_, ?_⟩,
      hframe.trans (Frame.update hlive (List.mem_append_left [x] ht) (some x)), ?_⟩
    · rw [pushBack, Links.write_of_alive hx, Option.bind_some, hq.tail, List.getLast?_concat]
      show (Links.write _ t (some x)).map _ = _
      rw [Links.write_of_alive hlive, Option.map_some]
    · rw [List.append_assoc, hq.head]
      cases ys <;> rfl
    · exact List.getLast?_concat.symm
    · -- up to `t` the links are as before; `t` now leads to `x`, and `x` to null
      intro hseg hnot
      have hnodup := hseg.nodup
      obtain ⟨r, hys, hrt⟩ := Seg.append_iff.mp hseg
      obtain ⟨rfl, -⟩ := hrt
      have hxt : x ≠ t := fun h => hnot (h ▸ ht)
      refine Seg.append_iff.mpr ⟨some x, Seg.append_iff.mpr ⟨some t, hys.congr ?_, ?_⟩, ?_⟩
      · intro y hy
        have hyt : y ≠ t := by
          rintro rfl
          exact (List.nodup_append.mp hnodup).2.2 y hy y (List.mem_singleton_self y) rfl
        have hyx : y ≠ x := by
          rintro rfl
          exact hnot (List.mem_append_left [t] hy)
        rw [Function.update_of_ne hyt, Function.update_of_ne hyx]
      · exact ⟨rfl, some x, Function.update_self _ _ _, rfl⟩
      · refine ⟨rfl, none, ?_, rfl⟩
        rw [Function.update_of_ne hxt, Function.update_self]

theorem append_spec {o : Queue α} {ys : List α} (hq : q.Ends xs) (ho : o.Ends ys)
    (hxs : ∀ y ∈ xs, (m y).isSome = true) :
    ∃ q' m', q.append o m = some (q', m') ∧ q'.Ends (xs ++ ys) ∧ Frame m m' xs ∧
      (Seg m q.head xs none → Seg m o.head ys none → (xs ++ ys).Nodup →
        Seg m' q'.head (xs ++ ys) none) := by
  have hohead := ho.head
  cases ys with
  | nil =>
    refine ⟨q, m, ?_, ?_, Frame.refl m xs, ?_⟩
    · rw [append, hohead]
      rfl
    · rwa [List.append_nil]
    · intro hseg _ _
      rwa [List.append_nil]
  | cons y ys =>
    rcases List.eq_nil_or_concat xs with rfl | ⟨zs, t, rfl⟩
    · refine ⟨{ head := some y, tail := o.tail }, m, ?_, ⟨rfl, ho.tail⟩, Frame.refl m [], ?_⟩
      · rw [append, hohead, hq.head]
        rfl
      · intro _ hseg _
        rwa [hohead] at hseg
    · rw [List.concat_eq_append] at *
      have ht : t ∈ zs ++ [t] := List.mem_append_right zs (List.mem_singleton_self t)
      obtain ⟨z, hz⟩ : ∃ z, (zs ++ [t]).head? = some z := by cases zs <;> exact ⟨_, rfl⟩
      refine ⟨{ head := q.head, tail := o.tail }, _, ?_, ⟨?_, ?_⟩,
        Frame.update (hxs t ht) ht (some y), ?_⟩
      · rw [append, hohead, hq.head, hq.tail, hz, List.getLast?_concat]
        show (Links.write m t (some y)).map _ = _
        rw [Links.write_of_alive (hxs t ht), Option.map_some]
      · rw [hq.head]
        cases zs <;> rfl
      · rw [ho.tail, List.getLast?_append_of_ne_nil _ (by simp)]
      · intro hseg hother hnodup
        obtain ⟨r, hzs, hrt⟩ := Seg.append_iff.mp hseg
        obtain ⟨rfl, -⟩ := hrt
        have hnt := List.nodup_append.mp hnodup
        refine Seg.append_iff.mpr ⟨some y, Seg.append_iff.mpr ⟨some t, hzs.congr ?_, ?_⟩, ?_⟩
        · intro x hx
          rw [Function.update_of_ne]
          rintro rfl
          exact (List.nodup_append.mp hnt.1).2.2 x hx x (List.mem_singleton_self x) rfl
        · exact ⟨rfl, some y, Function.update_self _ _ _, rfl⟩
        · rw [hohead] at hother
          apply hother.congr
          intro x hx
          rw [Function.update_of_ne]
          rintro rfl
          exact hnt.2.2 x ht x hx rfl

theorem pushAll_spec {ys : List α} (hq : q.Ends xs) (hxs : ∀ y ∈ xs, (m y).isSome = true)
    (hys : ∀ y ∈ ys, (m y).isSome = true) :
    ∃ q' m', q.pushAll ys m = some (q', m') ∧ q'.Ends (xs ++ ys) ∧ Frame m m' (xs ++ ys) ∧
      (Seg m q.head xs none → (xs ++ ys).Nodup → Seg m' q'.head (xs ++ ys) none) := by
  induction ys generalizing q m xs with
  | nil =>
    refine ⟨q, m, rfl, ?_, Frame.refl m _, ?_⟩
    · rwa [List.append_nil]
    · intro hseg _
      rwa [List.append_nil]
  | cons y ys ih =>
    obtain ⟨q₁, m₁, hpush, hends₁, hframe₁, hlinked₁⟩ :=
      pushBack_spec hq hxs (hys y List.mem_cons_self)
    have hxs₁ : ∀ z ∈ xs ++ [y], (m₁ z).isSome = true := by
      intro z hz
      rw [hframe₁.alive]
      rcases List.mem_append.mp hz with hz | hz
      · exact hxs z hz
      · rw [List.mem_singleton.mp hz]
        exact hys y List.mem_cons_self
    have hys₁ : ∀ z ∈ ys, (m₁ z).isSome = true := by
      intro z hz
      rw [hframe₁.alive]
      exact hys z (List.mem_cons_of_mem y hz)
    obtain ⟨q', m', hall, hends, hframe, hlinked⟩ := ih hends₁ hxs₁ hys₁
    rw [List.append_assoc] at hends hframe hlinked
    refine ⟨q', m', ?_, hends, (hframe₁.mono ?_).trans hframe, ?_⟩
    · rw [pushAll, hpush]
      exact hall
    · exact List.append_subset.mpr ⟨List.subset_append_left _ _, by simp⟩
    · intro hseg hnodup
      refine hlinked (hlinked₁ hseg fun hy => ?_) hnodup
      exact (List.nodup_append.mp hnodup).2.2 y hy y List.mem_cons_self rfl

omit [DecidableEq α] in
theorem popFront_spec {x : α} (h : q.Holds m (x :: xs)) :
    ∃ q', q.popFront m = some (x, q') ∧ q'.Holds m xs := by
  obtain ⟨hhead, l, hl, hrest⟩ := h.linked
  have hlhead := hrest.head_eq
  refine ⟨_, by rw [popFront, hhead, Option.bind_some, hl, Option.map_some], ⟨hlhead, ?_⟩,
    hrest⟩
  show (if l.isNone then none else q.tail) = xs.getLast?
  rw [hlhead, h.ends.tail]
  cases xs with
  | nil => rfl
  | cons y ys => rfl

end Specs

end Queue

end Intrusive
