/-
Agrpc/Context/DirectStyle.lean

What gRPC sees of a coroutine.

`runs_program`: it is the coroutine's program, run on its own.  Each RPC is
called once, when the program comes to it and the one before is over, and
`co_await` returns what gRPC reported for it.

What the context does to an operation between the call and the result is its
life cycle, and that is all the proof uses: the reports of a coroutine are read
off the life cycles of its operations, of which at most one is not over.
-/
import Agrpc.Context.Coroutine

namespace Agrpc

open Interleaving Sequential

variable {σ γ : Type*}

/-! ### What gRPC sees -/

/-- What an observation reports to coroutine `t`. -/
def reported (t : ℕ) : ClientObservation γ → Option (Report γ Bool)
  | (.rpcInvoked _, some (u, rpc)) => if u = t then some (.called rpc) else none
  | (.nextReturned _ ok, some (u, _)) => if u = t then some (.answered ok) else none
  | (.setValue _ ok, some (u, _)) => if u = t then some (.resumed ok) else none
  | _ => none

/-- The RPCs of coroutine `t`: their calls, their results, and what `co_await`
returned. -/
def reports (t : ℕ) (h : List (ClientObservation γ)) : List (Report γ Bool) :=
  h.filterMap (reported t)

theorem reports_append (t : ℕ) (h e : List (ClientObservation γ)) :
    reports t (h ++ e) = reports t h ++ reports t e := List.filterMap_append ..

theorem reported_of_ne {t u : ℕ} (h : u ≠ t) (o : Observation) (rpc : γ) :
    reported t (o, some (u, rpc)) = none := by
  cases o <;> simp [reported, h]

theorem Clients.see_operation (P : Program σ γ Bool) (s : Clients σ γ) (o : Observation) :
    (s.see P o).operation = s.operation := by
  unfold see
  split
  · split <;> rfl
  · rfl

/-! ### Where a coroutine is -/

/-- Where a coroutine is that waits for operation `id`, in phase `p`. -/
inductive Stands (H : List Observation) (id : ℕ) (s : σ) : Phase → Point σ Bool → Prop
  | idle : Stands H id s .idle (.running s)
  | travelling : Stands H id s .travelling (.running s)
  | scheduled : Stands H id s .scheduled (.running s)
  | submitted : Stands H id s .submitted (.waiting s)
  | returned {ok} (hok : .nextReturned (some id) ok ∈ H) : Stands H id s .returned (.answered s ok)
  | completed {ok} (hok : .nextReturned (some id) ok ∈ H) :
      Stands H id s .completed (.answered s ok)

/-- Coroutine `t` is at `d`. -/
def Clients.IsAt (s : Clients σ γ) (H : List Observation) (t : ℕ) (d : Point σ Bool) : Prop :=
  match s.awaiting t with
  | none => d = .running (s.position t)
  | some id => ∃ p, Phase.idle.run id H = some p ∧ Stands H id (s.position t) p d

section Phases

variable {H : List Observation} {id : ℕ} {s : σ} {p p' : Phase} {d : Point σ Bool}
  {o : Observation}

/-- Nothing is reported: the coroutine stays where it is. -/
theorem Stands.stay (h : Stands H id s p d) (ho : o.operation? ≠ some id)
    (hp : p.next id o = some p') : Stands (H ++ [o]) id s p' d := by
  have hmono : ∀ {ok}, .nextReturned (some id) ok ∈ H → .nextReturned (some id) ok ∈ H ++ [o] :=
    fun hok => List.mem_append_left _ hok
  rcases Phase.next_cases hp with ⟨-, rfl⟩ | he
  · cases h with
    | idle => exact .idle
    | travelling => exact .travelling
    | scheduled => exact .scheduled
    | submitted => exact .submitted
    | returned hok => exact .returned (hmono hok)
    | completed hok => exact .completed (hmono hok)
  · cases he with
    | enqueued => cases h; exact .travelling
    | dequeued => cases h; exact .scheduled
    | executed => cases h; exact .scheduled
    | arrived => cases h with | returned hok => exact .completed (hmono hok)
    | executedAgain => cases h with | completed hok => exact .completed (hmono hok)
    | invokedDirectly | invoked | returned | setValue => exact absurd rfl ho
    | setError | finished => cases h

/-- A receiver that has been given its value has been given it. -/
theorem delivered_next (h : p.delivered = true) (hp : p.next id o = some p') :
    p'.delivered = true := by
  rcases Phase.next_cases hp with ⟨-, rfl⟩ | he
  · exact h
  · cases he <;> first | rfl | cases h

/-- Nothing is reported of an operation whose receiver has been given its value. -/
theorem not_reported_of_delivered (h : p.delivered = true) (hp : p.next id o = some p') :
    o.operation? ≠ some id := by
  intro ho
  rcases Phase.next_cases hp with ⟨hc, -⟩ | he
  · cases o <;> simp_all [Observation.operation?, Observation.concerns]
  · cases he with
    | setError | finished => cases ho
    | _ => cases h

/-- The next phase of an operation. -/
theorem next_of_run (hp : Phase.idle.run id H = some p)
    (hphase : (Phase.idle.run id (H ++ [o])).isSome) :
    ∃ p', p.next id o = some p' ∧ Phase.idle.run id (H ++ [o]) = some p' := by
  obtain ⟨p', hp'⟩ := Option.isSome_iff_exists.mp hphase
  refine ⟨p', ?_, hp'⟩
  rw [Phase.run_append, hp] at hp'
  simpa using hp'

theorem Clients.IsAt.state_eq {s : Clients σ γ} {t : ℕ} (h : s.IsAt H t d) :
    d.state = s.position t := by
  unfold IsAt at h
  split at h
  next =>
    rw [h]
    rfl
  next =>
    obtain ⟨p, -, hstand⟩ := h
    cases hstand <;> rfl

/-- A coroutine of which nothing is reported stays where it is. -/
theorem Clients.IsAt.stay {s : Clients σ γ} {t : ℕ} (h : s.IsAt H t d)
    (hphase : ∀ id, (Phase.idle.run id (H ++ [o])).isSome)
    (ho : ∀ id, s.awaiting t = some id → o.operation? ≠ some id) : s.IsAt (H ++ [o]) t d := by
  unfold IsAt at h ⊢
  cases hw : s.awaiting t with
  | none =>
    rw [hw] at h
    exact h
  | some id =>
    rw [hw] at h
    obtain ⟨p, hp, hd⟩ := h
    obtain ⟨p', hnext, hp'⟩ := next_of_run hp (hphase id)
    exact ⟨p', hp', hd.stay (ho id hw) hnext⟩

end Phases

/-! ### The invariant -/

variable [DecidableEq γ] (P : Program σ γ Bool) (start : ℕ → σ)

/-- The coroutines after the history `H`, of which `E t` was reported to
coroutine `t`. -/
structure Tracks (s : Clients σ γ) (H : List Observation) (E : ℕ → List (Report γ Bool)) :
    Prop where
  /-- what is awaited is an operation for the program's next call -/
  awaits : ∀ t id, s.awaiting t = some id →
    ∃ rpc, s.operation id = some (t, rpc) ∧ P.call (s.position t) = some rpc
  /-- what is not awaited any more is over -/
  settled : ∀ id t rpc, s.operation id = some (t, rpc) → s.awaiting t ≠ some id →
    ∃ p, Phase.idle.run id H = some p ∧ p.delivered = true
  follows : ∀ t, ∃ d, P.run (.running (start t)) (E t) = some d ∧ s.IsAt H t d

variable {P start}

theorem tracks_init : Tracks P start { position := start } [] fun _ => [] where
  awaits := nofun
  settled := nofun
  follows t := ⟨.running (start t), rfl, rfl⟩

section See

variable {s : Clients σ γ} {H : List Observation} {E : ℕ → List (Report γ Bool)} {o : Observation}

/-- An observation that is about no coroutine's operation. -/
theorem Tracks.skip (ht : Tracks P start s H E)
    (hphase : ∀ id, (Phase.idle.run id (H ++ [o])).isSome)
    (ho : ∀ id, o.operation? = some id → s.operation id = none) :
    Tracks P start s (H ++ [o]) E where
  awaits := ht.awaits
  settled id t rpc hid hne := by
    obtain ⟨p, hp, hd⟩ := ht.settled id t rpc hid hne
    obtain ⟨p', hnext, hp'⟩ := next_of_run hp (hphase id)
    exact ⟨p', hp', delivered_next hd hnext⟩
  follows t := by
    obtain ⟨d, hd, hat⟩ := ht.follows t
    refine ⟨d, hd, hat.stay hphase ?_⟩
    intro id hw hop
    obtain ⟨rpc, hid, -⟩ := ht.awaits t id hw
    rw [ho id hop] at hid
    cases hid

/-- An operation something is reported of is awaited. -/
theorem Tracks.awaiting_of_report (ht : Tracks P start s H E)
    (hphase : ∀ id, (Phase.idle.run id (H ++ [o])).isSome) {id u : ℕ} {rpc : γ}
    (hop : o.operation? = some id) (hid : s.operation id = some (u, rpc)) :
    s.awaiting u = some id := by
  by_contra hne
  obtain ⟨p, hp, hd⟩ := ht.settled id u rpc hid hne
  obtain ⟨p', hnext, -⟩ := next_of_run hp (hphase id)
  exact not_reported_of_delivered hd hnext hop

/-- The RPC of a coroutine's operation gets on. -/
theorem Tracks.getsOn (ht : Tracks P start s H E)
    (hphase : ∀ id, (Phase.idle.run id (H ++ [o])).isSome) {id u : ℕ} {rpc : γ}
    (hop : o.operation? = some id) (hid : s.operation id = some (u, rpc))
    {r : Report γ Bool} (hr : reported u (o, some (u, rpc)) = some r)
    (hstands : ∀ p d p', Stands H id (s.position u) p d → p.next id o = some p' →
      ∃ d', P.next d r = some d' ∧ Stands (H ++ [o]) id (s.position u) p' d') :
    Tracks P start s (H ++ [o]) fun t => E t ++ (reported t (o, some (u, rpc))).toList where
  awaits := ht.awaits
  settled id t rpc hid hne := by
    obtain ⟨p, hp, hd⟩ := ht.settled id t rpc hid hne
    obtain ⟨p', hnext, hp'⟩ := next_of_run hp (hphase id)
    exact ⟨p', hp', delivered_next hd hnext⟩
  follows t := by
    obtain ⟨d, hd, hat⟩ := ht.follows t
    by_cases htu : u = t
    · subst htu
      unfold Clients.IsAt at hat
      rw [ht.awaiting_of_report hphase hop hid] at hat
      obtain ⟨p, hp, hstand⟩ := hat
      obtain ⟨p', hnext, hp'⟩ := next_of_run hp (hphase id)
      obtain ⟨d', hd', hstand'⟩ := hstands p d p' hstand hnext
      refine ⟨d', ?_, ?_⟩
      · rw [hr, Program.run_append, hd]
        exact (P.run_singleton d r).trans hd'
      · unfold Clients.IsAt
        rw [ht.awaiting_of_report hphase hop hid]
        exact ⟨p', hp', hstand'⟩
    · rw [reported_of_ne htu, Option.toList_none, List.append_nil]
      refine ⟨d, hd, hat.stay hphase ?_⟩
      intro id' hw hop'
      obtain rfl : id = id' := Option.some.inj (hop.symm.trans hop')
      obtain ⟨rpc', hid', -⟩ := ht.awaits t id hw
      rw [hid] at hid'
      exact htu (congrArg Prod.fst (Option.some.inj hid'))

/-- The value is given: the coroutine goes on. -/
theorem Tracks.resume (ht : Tracks P start s H E) {id u : ℕ} {rpc : γ} {ok : Bool}
    (hphase : ∀ id', (Phase.idle.run id' (H ++ [.setValue id ok])).isSome)
    (hid : s.operation id = some (u, rpc))
    (hval : ∀ ok', .nextReturned (some id) ok' ∈ H → ok' = ok) :
    Tracks P start (s.see P (.setValue id ok)) (H ++ [.setValue id ok])
      fun t => E t ++ (reported t (.setValue id ok, some (u, rpc))).toList := by
  have hw := ht.awaiting_of_report hphase rfl hid
  have hsee : s.see P (.setValue id ok) = { s with
      position := Function.update s.position u (P.resume (s.position u) ok)
      awaiting := Function.update s.awaiting u none } := by
    rw [Clients.see, hid]
  rw [hsee]
  obtain ⟨d, hd, hat⟩ := ht.follows u
  unfold Clients.IsAt at hat
  rw [hw] at hat
  obtain ⟨p, hp, hstand⟩ := hat
  obtain ⟨p', hnext, hp'⟩ := next_of_run hp (hphase id)
  -- the value is the one reported
  have hgiven : P.next d (.resumed ok) = some (.running (P.resume (s.position u) ok)) ∧
      p'.delivered = true := by
    rcases Phase.next_cases hnext with ⟨hc, -⟩ | he
    · simp [Observation.concerns] at hc
    · cases he
      cases hstand with
      | completed hok =>
        obtain rfl := hval _ hok
        exact ⟨if_pos rfl, rfl⟩
  refine ⟨?_, ?_, ?_⟩
  · intro t id' hw'
    by_cases htu : t = u
    · subst htu
      simp at hw'
    · simp only [Function.update_of_ne htu] at hw' ⊢
      exact ht.awaits t id' hw'
  · intro id' t rpc' hid' hne
    by_cases hcase : s.awaiting t = some id'
    · -- the one that is not awaited any more
      obtain rfl : t = u := by
        by_contra htu
        exact hne (by simpa [Function.update_of_ne htu] using hcase)
      obtain rfl : id' = id := Option.some.inj (hcase.symm.trans hw)
      exact ⟨p', hp', hgiven.2⟩
    · obtain ⟨q, hq, hdel⟩ := ht.settled id' t rpc' hid' hcase
      obtain ⟨q', hq', hrun'⟩ := next_of_run hq (hphase id')
      exact ⟨q', hrun', delivered_next hdel hq'⟩
  · intro t
    by_cases htu : u = t
    · subst htu
      refine ⟨.running (P.resume (s.position u) ok), ?_, ?_⟩
      · rw [show reported u (.setValue id ok, some (u, rpc)) = some (.resumed ok) from if_pos rfl,
          Program.run_append, hd]
        exact (P.run_singleton d _).trans hgiven.1
      · simp [Clients.IsAt]
    · obtain ⟨d', hd', hat'⟩ := ht.follows t
      rw [reported_of_ne htu, Option.toList_none, List.append_nil]
      refine ⟨d', hd', ?_⟩
      have hstay := hat'.stay hphase (o := .setValue id ok) ?_
      · simpa [Clients.IsAt, Function.update_of_ne (Ne.symm htu)] using hstay
      · intro id' hw' hop'
        obtain rfl : id = id' := Option.some.inj hop'
        obtain ⟨rpc', hid', -⟩ := ht.awaits t id hw'
        rw [hid] at hid'
        exact htu (congrArg Prod.fst (Option.some.inj hid'))

/-- One observation. -/
theorem Tracks.see (ht : Tracks P start s H E)
    (hphase : ∀ id, (Phase.idle.run id (H ++ [o])).isSome)
    (hval : ∀ id ok ok', o = .setValue id ok → .nextReturned (some id) ok' ∈ H → ok' = ok) :
    Tracks P start (s.see P o) (H ++ [o]) fun t => E t ++ (reported t (s.tag o)).toList := by
  cases htag : o.operation?.bind s.operation with
  | none =>
    have hskip : ∀ id, o.operation? = some id → s.operation id = none := by
      intro id hop
      rwa [hop, Option.bind_some] at htag
    have hsee : s.see P o = s := by
      cases o with
      | setValue id ok => rw [Clients.see, hskip id rfl]
      | _ => rfl
    have hnone : ∀ t, E t ++ (reported t (s.tag o)).toList = E t := by
      intro t
      rw [Clients.tag, htag]
      cases o <;> exact List.append_nil _
    rw [hsee, funext hnone]
    exact ht.skip hphase hskip
  | some owner =>
    obtain ⟨u, rpc⟩ := owner
    obtain ⟨id, hop, hid⟩ := Option.bind_eq_some_iff.mp htag
    rw [Clients.tag, htag]
    cases o with
    | rpcInvoked k =>
      obtain rfl : k = id := Option.some.inj hop
      refine ht.getsOn hphase rfl hid (if_pos rfl) ?_
      intro p d p' hstand hnext
      obtain ⟨rpc', hid', hcall⟩ := ht.awaits u k (ht.awaiting_of_report hphase rfl hid)
      obtain rfl : rpc = rpc' := congrArg Prod.snd (Option.some.inj (hid.symm.trans hid'))
      rcases Phase.next_cases hnext with ⟨hc, -⟩ | he
      · simp [Observation.concerns] at hc
      · cases he <;> cases hstand <;> exact ⟨_, if_pos hcall, .submitted⟩
    | nextReturned k ok =>
      obtain rfl : k = some id := hop
      refine ht.getsOn hphase rfl hid (if_pos rfl) ?_
      intro p d p' hstand hnext
      rcases Phase.next_cases hnext with ⟨hc, -⟩ | he
      · simp [Observation.concerns] at hc
      · cases he
        cases hstand
        exact ⟨_, rfl, .returned (List.mem_append_right _ (List.mem_singleton_self _))⟩
    | setValue k ok =>
      obtain rfl : k = id := Option.some.inj hop
      exact ht.resume hphase hid fun ok' => hval k ok ok' rfl
    | _ => cases hop

/-- The observations of a step. -/
theorem Tracks.sees {e : List Observation} (ht : Tracks P start s H E)
    (hphase : ∀ id, (Phase.idle.run id (H ++ e)).isSome)
    (hval : ∀ id ok ok', .setValue id ok ∈ e → .nextReturned (some id) ok' ∈ H ++ e → ok' = ok) :
    Tracks P start (e.foldl (Clients.see P) s) (H ++ e)
      fun t => E t ++ reports t (e.map s.tag) := by
  induction e generalizing s H E with
  | nil => simpa [reports] using ht
  | cons o e ih =>
    have happ : H ++ o :: e = (H ++ [o]) ++ e := by rw [List.append_assoc]; rfl
    rw [happ] at hphase hval ⊢
    have hone := ht.see (o := o) ?_ ?_
    · have hrest := ih hone hphase fun id ok ok' hm => hval id ok ok' (List.mem_cons_of_mem o hm)
      have htag : (s.see P o).tag = s.tag := by
        funext x
        rw [Clients.tag, Clients.see_operation P]
        rfl
      rw [htag] at hrest
      have hE : (fun t => E t ++ reports t ((o :: e).map s.tag))
          = fun t => E t ++ (reported t (s.tag o)).toList ++ reports t (e.map s.tag) := by
        funext t
        rw [List.append_assoc]
        congr 1
        show List.filterMap _ _ = _
        rw [List.map_cons, List.filterMap_cons]
        cases reported t (s.tag o) <;> rfl
      rw [hE]
      exact hrest
    · intro id
      have hsome := hphase id
      rw [Phase.run_append] at hsome
      exact Option.isSome_of_isSome_bind hsome
    · rintro id ok ok' rfl hm
      exact hval id ok ok' List.mem_cons_self
        (List.mem_append_left _ (List.mem_append_left _ hm))

end See

/-- A coroutine comes to its next call. -/
theorem Tracks.connect {s : Clients σ γ} {H : List Observation} {E : ℕ → List (Report γ Bool)}
    (ht : Tracks P start s H E) {t id : ℕ} {rpc : γ} (hcall : P.call (s.position t) = some rpc)
    (hw : s.awaiting t = none) (hid : s.operation id = none)
    (hidle : Phase.idle.run id H = some .idle) : Tracks P start (s.connect t id rpc) H E where
  awaits u k hk := by
    by_cases hut : u = t
    · subst hut
      obtain rfl : id = k := by simpa [Clients.connect] using hk
      exact ⟨rpc, by simp [Clients.connect], hcall⟩
    · obtain ⟨rpc', hk', hcall'⟩ := ht.awaits u k (by simpa [Clients.connect, hut] using hk)
      have hne : k ≠ id := by
        rintro rfl
        rw [hid] at hk'
        cases hk'
      exact ⟨rpc', by simpa [Clients.connect, hne] using hk', hcall'⟩
  settled k u rpc' hk hne := by
    have hkid : k ≠ id := by
      rintro rfl
      obtain ⟨rfl, rfl⟩ : t = u ∧ rpc = rpc' := by simpa [Clients.connect] using hk
      exact hne (by simp [Clients.connect])
    refine ht.settled k u rpc' (by simpa [Clients.connect, hkid] using hk) ?_
    by_cases hut : u = t
    · subst hut
      rw [hw]
      nofun
    · simpa [Clients.connect, hut] using hne
  follows u := by
    obtain ⟨d, hd, hat⟩ := ht.follows u
    refine ⟨d, hd, ?_⟩
    by_cases hut : u = t
    · subst hut
      unfold Clients.IsAt at hat ⊢
      rw [hw] at hat
      subst hat
      have hwaits : (s.connect u id rpc).awaiting u = some id := by simp [Clients.connect]
      rw [hwaits]
      exact ⟨.idle, hidle, .idle⟩
    · simpa [Clients.IsAt, Clients.connect, hut] using hat

theorem Tracks.setContext {s : Clients σ γ} {H : List Observation}
    {E : ℕ → List (Report γ Bool)} (ht : Tracks P start s H E) (x : State) :
    Tracks P start { s with context := x } H E := ⟨ht.awaits, ht.settled, ht.follows⟩

/-! ### Whole runs -/

section Runs

variable {as : List ClientAction} {s : Clients σ γ} {h : List (ClientObservation γ)}

/-- A value was reported for the operation it is given to. -/
theorem value_eq {bs : List Action} {x : State} {H : List Observation}
    (hrun : contextMachine.exec bs = some (x, H)) {id : ℕ} {ok ok' : Bool}
    (hm : .setValue id ok ∈ H) (hm' : .nextReturned (some id) ok' ∈ H) : ok' = ok := by
  obtain ⟨p, hp, -⟩ := State.placed_of_exec hrun id
  have hnoted := (State.eventKept_of_exec hrun).values id ok hm
  exact Phase.returned_unique hp hnoted hm'

/-- An operation that is started is at the beginning of its life. -/
theorem idle_of_start {bs : List Action} {x x' : State} {H e : List Observation} {t id : ℕ}
    {onLoop : Bool} (hrun : contextMachine.exec bs = some (x, H))
    (hs : contextMachine.step x (ClientAction.await t id onLoop).action = some (x', e)) :
    Phase.idle.run id H = some .idle := by
  obtain ⟨p, hp, hplaced⟩ := State.placed_of_exec hrun id
  have hfree : (x.ops id).started = false := by
    cases onLoop with
    | true =>
      have hst : Step x (.startOnLoop id) x' e := State.step_cases hs
      cases hst with
      | startOnLoop hfree => exact hfree
    | false =>
      have hst : Step x (.start id) x' e := State.step_cases hs
      cases hst with
      | start hfree => exact hfree
  have hexec : p.execute.isSome = false := hplaced.started.symm.trans hfree
  cases p with
  | idle => exact hp
  | _ => cases hexec

/-- A move of the context. -/
theorem Tracks.move {s s' : Clients σ γ} {H : List Observation} {E : ℕ → List (Report γ Bool)}
    {a : Action} {k : List (ClientObservation γ)} (ht : Tracks P start s H E)
    (hm : s.move P a = some (s', k)) {x : State} {bs : List Action}
    (hrun : contextMachine.exec bs = some (x, H ++ k.map Prod.fst)) :
    Tracks P start s' (H ++ k.map Prod.fst) fun t => E t ++ reports t k := by
  obtain ⟨e, -, hs', rfl⟩ := Clients.move_cases hm
  have hfst : (e.map s.tag).map Prod.fst = e := by
    rw [List.map_map]
    exact List.map_id' e
  rw [hfst] at hrun ⊢
  rw [hs']
  refine (ht.sees ?_ ?_).setContext _
  · intro id
    obtain ⟨p, hp, -⟩ := State.placed_of_exec hrun id
    rw [hp]
    rfl
  · intro id ok ok' hm
    exact value_eq hrun (List.mem_append_right _ hm)

theorem tracks_of_exec (hrun : (coroutines P start).exec as = some (s, h)) :
    Tracks P start s (h.map Prod.fst) fun t => reports t h := by
  induction as using List.reverseRecOn generalizing s h with
  | nil =>
    cases hrun
    exact tracks_init
  | append_singleton as c ih =>
    have hctx := exec_context hrun
    obtain ⟨s₁, h₁, k, hl, hs, rfl⟩ := Machine.exec_concat.mp hrun
    have ht := ih hl
    have hfst : (h₁ ++ k).map Prod.fst = h₁.map Prod.fst ++ k.map Prod.fst := List.map_append ..
    rw [hfst] at hctx ⊢
    have hreports : (fun t => reports t (h₁ ++ k)) = fun t => reports t h₁ ++ reports t k :=
      funext fun t => reports_append t h₁ k
    rw [hreports]
    have hst := clientStep_cases hs
    have hstep := hst.context_step
    cases hst with
    | context hm => exact ht.move hm hctx
    | await hcall hw hid hm =>
      exact (ht.connect hcall hw hid (idle_of_start (exec_context hl) hstep)).move hm hctx

/-- **A coroutine is its program.**  In every run, whatever else uses the
context, and also if a coroutine calls `Run` itself: what is reported of a
coroutine's RPCs is a run of its program on its own, up to where the coroutine
is.  Each RPC is called once, in the order of the
program, and only when the result of the one before has been gone on with; and
`co_await` returns what gRPC reported. -/
theorem runs_program (hrun : (coroutines P start).exec as = some (s, h)) (t : ℕ) :
    ∃ d, P.run (.running (start t)) (reports t h) = some d ∧ d.state = s.position t ∧
      (s.awaiting t = none → d = .running (s.position t)) ∧
      calls (reports t h) <+: P.callsFrom (start t) (results (reports t h)) ∧
      results (reports t h) <+: answers (reports t h) := by
  obtain ⟨d, hd, hat⟩ := (tracks_of_exec hrun).follows t
  refine ⟨d, hd, hat.state_eq, ?_, Program.calls_of_run hd, (Program.results_of_run hd).1⟩
  intro hw
  unfold Clients.IsAt at hat
  rw [hw] at hat
  exact hat

/-- `while (co_await AsyncRead(..)) {}`. -/
def readAll : Program Bool Unit Bool where
  call more := if more then some () else none
  resume _ ok := ok

/-- A coroutine reads two messages, the second of which does not come.  It starts
the second operation from the receiver of the first. -/
def readTwice : List ClientAction := List.flatten
  [[.await 0 0 false, .context (.signal (.operation 0)), .context .run],
    List.replicate 6 (.context .loop), [.context (.next (.alarm true))],
    List.replicate 8 (.context .loop),
    [.context (.finishRpc 0 true), .context (.next (.tag 0 true))],
    List.replicate 3 (.context .loop), [.await 0 1 true, .context .receiverReturns],
    List.replicate 3 (.context .loop),
    [.context (.finishRpc 1 false), .context (.next (.tag 1 false))],
    List.replicate 3 (.context .loop)]

theorem runs_program_readTwice :
    ∃ s h, (coroutines readAll fun _ => true).exec readTwice = some (s, h) ∧
      reports 0 h = [.called (), .answered true, .resumed true,
        .called (), .answered false, .resumed false] ∧
      ∃ d, readAll.run (.running true) (reports 0 h) = some d ∧ d.state = s.position 0 ∧
        (s.awaiting 0 = none → d = .running (s.position 0)) ∧
        calls (reports 0 h) <+: readAll.callsFrom true (results (reports 0 h)) ∧
        results (reports 0 h) <+: answers (reports 0 h) := by
  obtain ⟨s, h, hrun⟩ := (coroutines readAll fun _ => true).exec_of_isSome readTwice rfl
  have hseen : ((coroutines readAll fun _ => true).exec readTwice).map (fun p => reports 0 p.2)
      = some [.called (), .answered true, .resumed true,
        .called (), .answered false, .resumed false] := rfl
  rw [hrun, Option.map_some] at hseen
  exact ⟨s, h, hrun, Option.some.inj hseen, runs_program hrun 0⟩

end Runs

end Agrpc
