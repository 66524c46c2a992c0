/-
Agrpc/System/View.lean

What one context sees of the system.

Context `c` sees its own members, its own operations, the `Run` calls on it and
the `ScheduleRemote` calls on it, and numbers the `Run` calls on it from 0
(`runNumber`).  `SeenFrom owner T c s x` says that a state `x` of
`contextMachine` is the state `s` of the system as seen from `c`; the `Run`
calls on `c` are on one thread then.

Beside the relation stand the lemmas on the updates a step is made of, each in
two versions: an update at `c`, made on both sides, and one elsewhere, which
`c` does not see.
-/
import Agrpc.Context.Renaming
import Agrpc.System.Holding
import Mathlib.Data.Nat.Count

namespace Agrpc

open Interleaving

/-! ### The numbers of the `Run` calls -/

section Numbers

variable (T : List ℕ) (c : ℕ)

/-- How many of the first `n` `Run` calls are on context `c`; `T` are the
contexts of the calls. -/
def callsOn (n : ℕ) : ℕ := Nat.count (fun k => T[k]? = some c) n

/-- The number of `Run` call `r` among those on context `c`.  Other calls get
numbers that no call on `c` has. -/
def runNumber (r : ℕ) : ℕ := if T[r]? = some c then callsOn T c r else T.length + r

variable {T c}

theorem runNumber_of_on {r : ℕ} (h : T[r]? = some c) : runNumber T c r = callsOn T c r :=
  if_pos h

theorem runNumber_injective : Function.Injective (runNumber T c) := by
  intro r r' heq
  unfold runNumber callsOn at heq
  by_cases h : T[r]? = some c <;> by_cases h' : T[r']? = some c
  · rw [if_pos h, if_pos h'] at heq
    exact Nat.count_injective h h' heq
  · rw [if_pos h, if_neg h'] at heq
    have hle : Nat.count (fun k => T[k]? = some c) r ≤ r := Nat.count_le _
    have hlt : r < T.length := (List.getElem?_eq_some_iff.mp h).1
    omega
  · rw [if_neg h, if_pos h'] at heq
    have hle : Nat.count (fun k => T[k]? = some c) r' ≤ r' := Nat.count_le _
    have hlt : r' < T.length := (List.getElem?_eq_some_iff.mp h').1
    omega
  · rw [if_neg h, if_neg h'] at heq
    omega

theorem callsOn_succ_of_on {n : ℕ} (h : T[n]? = some c) :
    callsOn T c (n + 1) = callsOn T c n + 1 :=
  Nat.count_succ_eq_succ_count_iff.mpr h

theorem callsOn_succ_of_not_on {n : ℕ} (h : T[n]? ≠ some c) :
    callsOn T c (n + 1) = callsOn T c n :=
  Nat.count_succ_eq_count_iff.mpr h

end Numbers

/-! ### The calls on a context -/

/-- The frames of the calls on context `c` of a stack, innermost first. -/
def framesOn (c : ℕ) (stack : List Activation) : List RunFrame :=
  (stack.filter fun a => a.context == c).map Activation.frame

section Frames

variable {c t : ℕ} {a b : Activation} {stack outer : List Activation}

theorem framesOn_cons_on (h : a.context = c) :
    framesOn c (a :: outer) = a.frame :: framesOn c outer := by
  have hb : (a.context == c) = true := beq_iff_eq.mpr h
  unfold framesOn
  rw [List.filter_cons, if_pos hb, List.map_cons]

theorem framesOn_cons_off (h : a.context ≠ c) : framesOn c (a :: outer) = framesOn c outer := by
  have hb : ¬ (a.context == c) = true := fun hb => h (beq_iff_eq.mp hb)
  unfold framesOn
  rw [List.filter_cons, if_neg hb]

theorem mem_framesOn (ha : a ∈ stack) (h : a.context = c) : a.frame ∈ framesOn c stack :=
  List.mem_map_of_mem (List.mem_filter.mpr ⟨ha, beq_iff_eq.mpr h⟩)

theorem framesOn_eq_nil (h : ∀ a ∈ stack, a.context ≠ c) : framesOn c stack = [] := by
  unfold framesOn
  rw [List.map_eq_nil_iff, List.filter_eq_nil_iff]
  intro a ha hb
  exact h a ha (beq_iff_eq.mp hb)

/-- Marking frames. -/
theorem framesOn_map {f : Activation → Activation} {g : RunFrame → RunFrame}
    (hctx : ∀ a, (f a).context = a.context) (hfr : ∀ a, (f a).frame = g a.frame) :
    framesOn c (stack.map f) = (framesOn c stack).map g := by
  unfold framesOn
  rw [List.filter_map, List.map_map, List.map_map]
  have hp : (fun a : Activation => a.context == c) ∘ f = fun a => a.context == c := by
    funext a
    show ((f a).context == c) = (a.context == c)
    rw [hctx]
  rw [hp]
  exact List.map_congr_left fun a _ => hfr a

/-- A step of thread `t` in a call on another context. -/
theorem framesOn_update_off {callStacks : ℕ → List Activation} (hs : callStacks t = a :: outer)
    (ha : a.context ≠ c) (hstack : framesOn c stack = framesOn c outer) (u : ℕ) :
    framesOn c (Function.update callStacks t stack u) = framesOn c (callStacks u) := by
  by_cases hu : u = t
  · rw [hu, Function.update_self, hs, framesOn_cons_off ha, hstack]
  · rw [Function.update_of_ne hu]

/-- The `Run` calls on context `c` are on one stack, and are `frames`. -/
def FramesSeen (ρ : ℕ → ℕ) (c : ℕ) (callStacks : ℕ → List Activation)
    (frames : List RunFrame) : Prop :=
  ∃ t, frames = (framesOn c (callStacks t)).map (RunFrame.rename ρ) ∧
    ∀ u, u ≠ t → framesOn c (callStacks u) = []

namespace FramesSeen

variable {ρ : ℕ → ℕ} {callStacks callStacks' : ℕ → List Activation} {frames : List RunFrame}

theorem congr (h : FramesSeen ρ c callStacks frames)
    (hst : ∀ u, framesOn c (callStacks' u) = framesOn c (callStacks u)) :
    FramesSeen ρ c callStacks' frames := by
  obtain ⟨t, hf, hother⟩ := h
  refine ⟨t, ?_, ?_⟩
  · rw [hst]
    exact hf
  · intro u hu
    rw [hst]
    exact hother u hu

theorem mem (h : FramesSeen ρ c callStacks frames) (ha : a ∈ callStacks t) (hc : a.context = c) :
    a.frame.rename ρ ∈ frames := by
  obtain ⟨t₀, hf, hother⟩ := h
  have hm : a.frame ∈ framesOn c (callStacks t) := mem_framesOn ha hc
  by_cases ht : t = t₀
  · rw [hf, ← ht]
    exact List.mem_map_of_mem hm
  · rw [hother t ht] at hm
    exact absurd hm List.not_mem_nil

/-- All calls are on the stack of a thread that has one. -/
theorem on_thread (h : FramesSeen ρ c callStacks frames) (hne : framesOn c (callStacks t) ≠ []) :
    frames = (framesOn c (callStacks t)).map (RunFrame.rename ρ) ∧
      ∀ u, u ≠ t → framesOn c (callStacks u) = [] := by
  obtain ⟨t₀, hf, hother⟩ := h
  by_cases ht : t = t₀
  · rw [ht]
    exact ⟨hf, hother⟩
  · exact absurd (hother t ht) hne

/-- The innermost call of thread `t` is a call on `c`. -/
theorem top (h : FramesSeen ρ c callStacks frames) (hs : callStacks t = a :: outer)
    (ha : a.context = c) :
    frames = a.frame.rename ρ :: (framesOn c outer).map (RunFrame.rename ρ) ∧
      ∀ u, u ≠ t → framesOn c (callStacks u) = [] := by
  have hcons : framesOn c (callStacks t) = a.frame :: framesOn c outer := by
    rw [hs, framesOn_cons_on ha]
  have hne : framesOn c (callStacks t) ≠ [] := by
    rw [hcons]
    exact List.cons_ne_nil _ _
  obtain ⟨hf, hother⟩ := h.on_thread hne
  rw [hcons, List.map_cons] at hf
  exact ⟨hf, hother⟩

/-- Whatever stack thread `t` gets, if the calls on `c` are there. -/
theorem update (hother : ∀ u, u ≠ t → framesOn c (callStacks u) = []) (new : List Activation) :
    FramesSeen ρ c (Function.update callStacks t new)
      ((framesOn c new).map (RunFrame.rename ρ)) := by
  refine ⟨t, ?_, ?_⟩
  · rw [Function.update_self]
  · intro u hu
    rw [Function.update_of_ne hu]
    exact hother u hu

/-- `Run` is called on `c`, on a thread that has all the calls on `c`. -/
theorem push (h : FramesSeen ρ c callStacks frames)
    (hother : ∀ u, u ≠ t → framesOn c (callStacks u) = []) :
    frames = (framesOn c (callStacks t)).map (RunFrame.rename ρ) := by
  obtain ⟨t₀, hf, hother₀⟩ := h
  by_cases ht : t = t₀
  · rw [ht]
    exact hf
  · rw [hf, hother t₀ (Ne.symm ht), hother₀ t ht]

/-- Marking frames. -/
theorem map (h : FramesSeen ρ c callStacks frames) {f : Activation → Activation}
    {g g' : RunFrame → RunFrame} (hctx : ∀ a, (f a).context = a.context)
    (hfr : ∀ a, (f a).frame = g a.frame)
    (hcomm : ∀ u, ∀ fr ∈ framesOn c (callStacks u), (g fr).rename ρ = g' (fr.rename ρ)) :
    FramesSeen ρ c (fun u => (callStacks u).map f) (frames.map g') := by
  obtain ⟨t, hf, hother⟩ := h
  refine ⟨t, ?_, ?_⟩
  · rw [framesOn_map hctx hfr, hf, List.map_map, List.map_map]
    exact (List.map_congr_left fun fr hm => hcomm t fr hm).symm
  · intro u hu
    show framesOn c ((callStacks u).map f) = []
    rw [framesOn_map hctx hfr, hother u hu, List.map_nil]

end FramesSeen

end Frames

/-! ### The `ScheduleRemote` calls on a context -/

/-- `ops` are the operations whose `ScheduleRemote` call on context `c` is
between `enqueue` and `SignalRemoteQueue`. -/
def SignallingSeen (ρ : ℕ → ℕ) (c : ℕ) (signalling : ℕ → Option (ℕ × OperationBase))
    (ops : List OperationBase) : Prop :=
  ∃ calls : List (ℕ × OperationBase), calls.Nodup ∧
    (∀ t op, (t, op) ∈ calls ↔ signalling t = some (c, op)) ∧
    ops.Perm (calls.map fun p => p.2.rename ρ)

namespace SignallingSeen

variable {ρ : ℕ → ℕ} {c t : ℕ} {signalling signalling' : ℕ → Option (ℕ × OperationBase)}
  {ops : List OperationBase} {op : OperationBase}

theorem congr (h : SignallingSeen ρ c signalling ops)
    (hs : ∀ t op, signalling' t = some (c, op) ↔ signalling t = some (c, op)) :
    SignallingSeen ρ c signalling' ops := by
  obtain ⟨calls, hnodup, hmem, hperm⟩ := h
  refine ⟨calls, hnodup, ?_, hperm⟩
  intro t op
  rw [hs]
  exact hmem t op

/-- A `ScheduleRemote` call on another context begins or ends. -/
theorem update_off (h : SignallingSeen ρ c signalling ops) {o : Option (ℕ × OperationBase)}
    (hold : ∀ op, signalling t ≠ some (c, op)) (hnew : ∀ op, o ≠ some (c, op)) :
    SignallingSeen ρ c (Function.update signalling t o) ops := by
  apply h.congr
  intro u op
  by_cases hu : u = t
  · rw [hu, Function.update_self]
    exact ⟨fun heq => absurd heq (hnew op), fun heq => absurd heq (hold op)⟩
  · rw [Function.update_of_ne hu]

/-- A `ScheduleRemote` call on `c` begins, on a thread that is in none. -/
theorem begins (h : SignallingSeen ρ c signalling ops) (hfree : signalling t = none) :
    SignallingSeen ρ c (Function.update signalling t (some (c, op))) (op.rename ρ :: ops) := by
  obtain ⟨calls, hnodup, hmem, hperm⟩ := h
  have hnot : ∀ op', (t, op') ∉ calls := by
    intro op' hm
    rw [hmem, hfree] at hm
    cases hm
  refine ⟨(t, op) :: calls, List.nodup_cons.mpr ⟨hnot op, hnodup⟩, ?_, hperm.cons _⟩
  intro u op'
  rw [List.mem_cons]
  by_cases hu : u = t
  · rw [hu, Function.update_self]
    constructor
    · rintro (heq | hm)
      · rw [(Prod.mk.inj heq).2]
      · exact absurd hm (hnot op')
    · intro heq
      exact .inl (by rw [(Prod.mk.inj (Option.some.inj heq)).2])
  · rw [Function.update_of_ne hu, ← hmem]
    constructor
    · rintro (heq | hm)
      · exact absurd (Prod.mk.inj heq).1 hu
      · exact hm
    · exact .inr

/-- A `ScheduleRemote` call on `c` ends. -/
theorem ends (h : SignallingSeen ρ c signalling ops) (hsig : signalling t = some (c, op)) :
    op.rename ρ ∈ ops ∧
      SignallingSeen ρ c (Function.update signalling t none) (ops.erase (op.rename ρ)) := by
  obtain ⟨calls, hnodup, hmem, hperm⟩ := h
  have hin : (t, op) ∈ calls := (hmem t op).mpr hsig
  refine ⟨hperm.mem_iff.mpr (List.mem_map_of_mem hin), calls.erase (t, op), hnodup.erase _, ?_, ?_⟩
  · intro u op'
    rw [hnodup.mem_erase_iff, hmem]
    by_cases hu : u = t
    · rw [hu, Function.update_self, hsig]
      constructor
      · rintro ⟨hne, heq⟩
        exact absurd (congrArg (Prod.mk t) (Prod.mk.inj (Option.some.inj heq)).2.symm) hne
      · intro heq
        cases heq
    · rw [Function.update_of_ne hu]
      exact ⟨fun hm => hm.2, fun heq => ⟨fun hp => hu (Prod.mk.inj hp).1, heq⟩⟩
  · -- what is left of the names is what is left of the calls, renamed
    have hcalls : (calls.map fun p => p.2.rename ρ).Perm
        (op.rename ρ :: (calls.erase (t, op)).map fun p => p.2.rename ρ) :=
      (List.perm_cons_erase hin).map _
    have hnames := (hperm.trans hcalls).erase (op.rename ρ)
    rw [List.erase_cons_head] at hnames
    exact hnames

theorem exists_of_mem (h : SignallingSeen ρ c signalling ops) {op' : OperationBase}
    (hm : op' ∈ ops) : ∃ t op, signalling t = some (c, op) ∧ op.rename ρ = op' := by
  obtain ⟨calls, -, hmem, hperm⟩ := h
  obtain ⟨⟨t, op⟩, hin, heq⟩ := List.mem_map.mp (hperm.mem_iff.mp hm)
  exact ⟨t, op, (hmem t op).mp hin, heq⟩

end SignallingSeen

/-! ### The view -/

/-- `x` is the state `s` of the system as context `c` sees it. -/
structure SeenFrom (owner : ℕ → ℕ) (T : List ℕ) (c : ℕ) (s : System) (x : State) : Prop where
  context : x.context = (s.contexts c).rename (runNumber T c)
  ops : ∀ id, owner id = c → x.ops id = s.ops id
  frames : FramesSeen (runNumber T c) c s.callStacks x.frames
  runs : x.runs = callsOn T c s.runs
  signalling : SignallingSeen (runNumber T c) c s.signalling x.signalling

namespace SeenFrom

variable {owner : ℕ → ℕ} {T : List ℕ} {c t : ℕ} {s s' : System} {x : State}

theorem init (owner : ℕ → ℕ) (T : List ℕ) (c : ℕ) : SeenFrom owner T c {} {} where
  context := rfl
  ops _ _ := rfl
  frames := ⟨0, rfl, fun _ _ => rfl⟩
  runs := (Nat.count_zero _).symm
  signalling := ⟨[], List.nodup_nil, fun _ _ => by simp, .nil⟩

/-- A step that `c` does not see. -/
theorem congr (h : SeenFrom owner T c s x) (hctx : s'.contexts c = s.contexts c)
    (hops : ∀ id, owner id = c → s'.ops id = s.ops id)
    (hst : ∀ u, framesOn c (s'.callStacks u) = framesOn c (s.callStacks u))
    (hruns : callsOn T c s'.runs = callsOn T c s.runs)
    (hsig : ∀ t op, s'.signalling t = some (c, op) ↔ s.signalling t = some (c, op)) :
    SeenFrom owner T c s' x where
  context := by rw [hctx, h.context]
  ops id hid := by rw [hops id hid, h.ops id hid]
  frames := h.frames.congr hst
  runs := by rw [hruns, h.runs]
  signalling := h.signalling.congr hsig

/-- A step of thread `t` in a call on another context. -/
theorem off (h : SeenFrom owner T c s x) {a : Activation} {stack outer : List Activation}
    (hs : s.callStacks t = a :: outer) (ha : a.context ≠ c)
    (hst : s'.callStacks = Function.update s.callStacks t stack)
    (hstack : framesOn c stack = framesOn c outer) (hctx : s'.contexts c = s.contexts c)
    (hops : ∀ id, owner id = c → s'.ops id = s.ops id) (hruns : s'.runs = s.runs)
    (hsig : s'.signalling = s.signalling) : SeenFrom owner T c s' x := by
  apply h.congr hctx hops
  · intro u
    rw [hst]
    exact framesOn_update_off hs ha hstack u
  · rw [hruns]
  · intro t op
    rw [hsig]

/-- An operation changes. -/
theorem setOperation (h : SeenFrom owner T c s x) (id : ℕ) (o : Operation) :
    SeenFrom owner T c (s.setOperation id o) { x with ops := Function.update x.ops id o } where
  context := h.context
  ops k hk := by
    show Function.update x.ops id o k = Function.update s.ops id o k
    by_cases hkid : k = id
    · rw [hkid, Function.update_self, Function.update_self]
    · rw [Function.update_of_ne hkid, Function.update_of_ne hkid, h.ops k hk]
  frames := h.frames
  runs := h.runs
  signalling := h.signalling

/-- `execute_ = fn` in an operation of `c`. -/
theorem setExecute (h : SeenFrom owner T c s x) {id : ℕ} (hid : owner id = c) (fn : ExecuteFn) :
    SeenFrom owner T c (s.setExecute id fn) (x.setExecute id fn) := by
  have hset := h.setOperation id { s.ops id with execute := some fn, started := true }
  rw [← h.ops id hid] at hset
  unfold System.setExecute
  rw [← h.ops id hid]
  exact hset

/-- An operation of another context changes. -/
theorem setOperation_off (h : SeenFrom owner T c s x) {id : ℕ} (hid : owner id ≠ c)
    (o : Operation) : SeenFrom owner T c (s.setOperation id o) x := by
  refine h.congr rfl ?_ (fun u => rfl) rfl (fun t op => Iff.rfl)
  intro k hk
  have hne : k ≠ id := by
    rintro rfl
    exact hid hk
  exact Function.update_of_ne hne _ _

/-- The members of `c` change. -/
theorem setContext (h : SeenFrom owner T c s x) (y : GrpcContext) :
    SeenFrom owner T c (s.setContext c y) { x with context := y.rename (runNumber T c) } where
  context := by
    show y.rename _ = (Function.update s.contexts c y c).rename _
    rw [Function.update_self]
  ops := h.ops
  frames := h.frames
  runs := h.runs
  signalling := h.signalling

theorem setContext_off (h : SeenFrom owner T c s x) {d : ℕ} (hd : d ≠ c) (y : GrpcContext) :
    SeenFrom owner T c (s.setContext d y) x :=
  h.congr (Function.update_of_ne hd.symm _ _) (fun _ _ => rfl) (fun _ => rfl) rfl
    (fun _ _ => Iff.rfl)

/-- The innermost call of thread `t` moves, and is a call on `c`. -/
theorem setStack (h : SeenFrom owner T c s x) {a b : Activation} {outer : List Activation}
    (hs : s.callStacks t = a :: outer) (ha : a.context = c) (hb : b.context = c) :
    SeenFrom owner T c (s.setStack t (b :: outer))
      { x with
        frames := b.frame.rename (runNumber T c)
          :: (framesOn c outer).map (RunFrame.rename (runNumber T c)) } where
  context := h.context
  ops := h.ops
  frames := by
    have hf := FramesSeen.update (ρ := runNumber T c) (h.frames.top hs ha).2 (b :: outer)
    rw [framesOn_cons_on hb] at hf
    exact hf
  runs := h.runs
  signalling := h.signalling

/-- `ScheduleRemote` on `c`, up to `enqueue`. -/
theorem scheduleRemote (h : SeenFrom owner T c s x) (hfree : s.signalling t = none)
    (op : OperationBase) :
    SeenFrom owner T c (s.scheduleRemote t c op)
      (x.scheduleRemote (op.rename (runNumber T c))) := by
  have hq : x.context.enqueueRemote (op.rename (runNumber T c))
      = (((s.contexts c).enqueueRemote op).1,
        ((s.contexts c).enqueueRemote op).2.rename (runNumber T c)) := by
    rw [h.context]
    exact GrpcContext.rename_enqueueRemote _ _ op
  refine ⟨?_, h.ops, h.frames, h.runs, ?_⟩
  · show (x.context.enqueueRemote _).2 = (Function.update s.contexts c _ c).rename _
    rw [Function.update_self, hq]
    rfl
  · show SignallingSeen _ c
      (if ((s.contexts c).enqueueRemote op).1 then Function.update s.signalling t (some (c, op))
        else s.signalling)
      (if (x.context.enqueueRemote (op.rename (runNumber T c))).1
        then op.rename (runNumber T c) :: x.signalling else x.signalling)
    rw [hq]
    cases ((s.contexts c).enqueueRemote op).1 with
    | true => exact h.signalling.begins hfree
    | false => exact h.signalling

/-- `ScheduleRemote` on another context. -/
theorem scheduleRemote_off (h : SeenFrom owner T c s x) {d : ℕ} (hd : d ≠ c)
    (hfree : s.signalling t = none) (op : OperationBase) :
    SeenFrom owner T c (s.scheduleRemote t d op) x := by
  have hx := h.setContext_off hd ((s.contexts d).enqueueRemote op).2
  refine ⟨hx.context, hx.ops, hx.frames, hx.runs, ?_⟩
  show SignallingSeen _ c
    (if ((s.contexts d).enqueueRemote op).1 then Function.update s.signalling t (some (d, op))
      else s.signalling) x.signalling
  cases ((s.contexts d).enqueueRemote op).1 with
  | true =>
    apply h.signalling.update_off
    · intro op' heq
      rw [hfree] at heq
      cases heq
    · intro op' heq
      exact hd (Prod.mk.inj (Option.some.inj heq)).1
  | false => exact h.signalling

end SeenFrom

end Agrpc
