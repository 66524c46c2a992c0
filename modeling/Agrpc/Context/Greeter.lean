/-
Agrpc/Context/Greeter.lean

The example servers (`agrpc/example/helloworld/server.cc`,
`agrpc/example/hellostreamingworld/server.cc`).

Both are one coroutine: a loop that requests an RPC, handles it in
`HandleRequest` and finishes it, until a request is not granted.  The
`HandleRequest` of `hellostreamingworld` is a `task<HelloReply>` without a
`co_return`: when its second write is done it flows off its end, which is
undefined behaviour, and the server is followed up to there.

`serves`: gRPC sees the sessions of `helloworld` one after the other and each of
them whole, and the coroutine returns only between two; of `hellostreamingworld`
it sees a request and two writes, and no session is ever finished.
-/
import Agrpc.Context.DirectStyle

namespace Agrpc

open Interleaving Sequential

/-- What the coroutine awaits. -/
inductive GreeterCall where
  /-- `AsyncRequest(scheduler, &AsyncService::RequestSayHello, service, ..)` -/
  | request
  /-- `AsyncWrite(scheduler, writer, response)` -/
  | write (message : String)
  /-- `AsyncFinish(scheduler, writer, response, grpc::Status::OK)`, or without
  the response -/
  | finish (message : Option String)
  deriving DecidableEq, Repr

/-- An example server: what is different in the two. -/
structure Greeter where
  /-- what `HandleRequest` awaits for a request with this `name()` -/
  handleRequest : String → List GreeterCall
  /-- it ends with a `co_return` -/
  coReturns : Bool
  /-- the `AsyncFinish` after it -/
  finish : String → GreeterCall

namespace Greeter

/-- `agrpc/example/helloworld/server.cc`. -/
def helloworld : Greeter where
  handleRequest _ := []
  coReturns := true
  finish name := .finish (some ("Hello " ++ name))

/-- `agrpc/example/hellostreamingworld/server.cc`. -/
def hellostreamingworld : Greeter where
  handleRequest name := [.write ("Hello " ++ name), .write ("Hello " ++ name ++ " again")]
  coReturns := false
  finish _ := .finish none

/-- Where the coroutine is, in its pass number `n`. -/
inductive Position where
  /-- it awaits the request -/
  | requesting (n : ℕ)
  /-- it is in `HandleRequest`, awaits `call`, and then `rest` -/
  | handling (n : ℕ) (call : GreeterCall) (rest : List GreeterCall)
  /-- it awaits the `AsyncFinish` -/
  | finishing (n : ℕ)
  | returned
  /-- `HandleRequest` has flowed off its end: nothing that happens from here on
  is what the program says -/
  | undefined
  deriving DecidableEq, Repr

variable (S : Greeter) (names : ℕ → String)

/-- It goes on in `HandleRequest` with `rest`, and to the end of it. -/
def goOn (n : ℕ) : List GreeterCall → Position
  | [] => if S.coReturns then .finishing n else .undefined
  | call :: rest => .handling n call rest

/-- The loop.  `names n` is `request.name()` of the request granted in pass `n`;
only of a request is the result looked at. -/
def server : Program Position GreeterCall Bool where
  call
    | .requesting _ => some .request
    | .handling _ call _ => some call
    | .finishing n => some (S.finish (names n))
    | .returned | .undefined => none
  resume
    | .requesting n, requestOk =>
        if !requestOk then .returned else S.goOn n (S.handleRequest (names n))
    | .handling n _ rest, _ => S.goOn n rest
    | .finishing n, _ => .requesting (n + 1)
    | .returned, _ => .returned
    | .undefined, _ => .undefined

/-- The calls of one pass, from the request to the finish. -/
def session (n : ℕ) : List GreeterCall :=
  .request :: S.handleRequest (names n) ++ [S.finish (names n)]

/-- The calls of `k` passes, from pass `n` on. -/
def sessions (n k : ℕ) : List GreeterCall := (List.range' n k).flatMap (S.session names)

theorem sessions_succ (n k : ℕ) :
    S.sessions names n (k + 1) = S.session names n ++ S.sessions names (n + 1) k := by
  rw [sessions, List.range'_succ, List.flatMap_cons]
  rfl

theorem sessions_mono (n : ℕ) {k l : ℕ} (h : k ≤ l) :
    S.sessions names n k <+: S.sessions names n l := by
  obtain ⟨m, rfl⟩ := Nat.exists_eq_add_of_le h
  rw [sessions, sessions, ← List.range'_append_1, List.flatMap_append]
  exact List.prefix_append _ _

theorem callsFrom_returned (rs : List Bool) : (S.server names).callsFrom .returned rs = [] := by
  induction rs with
  | nil => rfl
  | cons r rs ih => exact ih

/-! ### A server whose `HandleRequest` returns -/

/-- What the coroutine has in front of it in this pass, and the next pass. -/
def Position.remaining : Position → List GreeterCall × ℕ
  | requesting n => ([], n)
  | handling n call rest => (call :: rest ++ [S.finish (names n)], n + 1)
  | finishing n => ([S.finish (names n)], n + 1)
  | returned | undefined => ([], 0)

/-- What it calls, with `k` more passes. -/
def Position.upTo (p : Position) (k : ℕ) : List GreeterCall :=
  (p.remaining S names).1 ++ S.sessions names (p.remaining S names).2 k

section Returns

variable {S} (hret : S.coReturns = true)

include hret

theorem upTo_goOn (n : ℕ) (l : List GreeterCall) (k : ℕ) :
    (S.goOn n l).upTo S names k
      = l ++ [S.finish (names n)] ++ S.sessions names (n + 1) k := by
  cases l with
  | nil =>
    rw [goOn, if_pos hret]
    rfl
  | cons call rest => rfl

theorem goOn_ne_end (n : ℕ) (l : List GreeterCall) :
    S.goOn n l ≠ .returned ∧ S.goOn n l ≠ .undefined := by
  cases l with
  | nil =>
    rw [goOn, if_pos hret]
    simp
  | cons call rest => simp [goOn]

/-- The calls of the loop are those of its passes. -/
theorem callsFrom_upTo {p : Position} (hp : p ≠ .undefined) (rs : List Bool) :
    (S.server names).callsFrom p rs <+: p.upTo S names (rs.length + 1) := by
  induction rs generalizing p with
  | nil =>
    cases p with
    | requesting n => exact ⟨S.handleRequest (names n) ++ [S.finish (names n)], by
        simp [Program.callsFrom, server, Position.upTo, Position.remaining, sessions, session]⟩
    | handling n call rest => exact ⟨_, rfl⟩
    | finishing n => exact ⟨_, rfl⟩
    | returned => exact List.nil_prefix
    | undefined => exact absurd rfl hp
  | cons r rs ih =>
    cases p with
    | requesting n =>
      show .request :: _ <+: S.sessions names n (rs.length + 1 + 1)
      rw [sessions_succ, session, List.cons_append, List.cons_append, List.cons_prefix_cons]
      refine ⟨rfl, ?_⟩
      cases r with
      | true =>
        rw [← upTo_goOn names hret]
        exact ih (goOn_ne_end hret n _).2
      | false =>
        show (S.server names).callsFrom .returned rs <+: _
        rw [callsFrom_returned]
        exact List.nil_prefix
    | handling n call rest =>
      show call :: _ <+: call :: (rest ++ [S.finish (names n)] ++ S.sessions names (n + 1) _)
      rw [List.cons_prefix_cons]
      refine ⟨rfl, (ih (goOn_ne_end hret n rest).2).trans ?_⟩
      rw [upTo_goOn names hret, List.prefix_append_right_inj]
      exact S.sessions_mono names (n + 1) (Nat.le_succ _)
    | finishing n =>
      show S.finish (names n) :: _ <+: S.finish (names n) :: S.sessions names (n + 1) _
      rw [List.cons_prefix_cons]
      have hnext := ih (p := .requesting (n + 1)) (by simp)
      exact ⟨rfl, hnext.trans (S.sessions_mono names (n + 1) (Nat.le_succ _))⟩
    | returned =>
      rw [callsFrom_returned]
      exact List.nil_prefix
    | undefined => exact absurd rfl hp

/-- The loop ends with a request that is not granted. -/
theorem callsFrom_of_returned {p : Position} (hp : p ≠ .returned ∧ p ≠ .undefined)
    {rs : List Bool} (h : rs.foldl (S.server names).resume p = .returned) :
    ∃ k, (S.server names).callsFrom p rs = p.upTo S names k ++ [.request] := by
  induction rs generalizing p with
  | nil => exact absurd h hp.1
  | cons r rs ih =>
    cases p with
    | requesting n =>
      cases r with
      | true =>
        obtain ⟨k, hk⟩ := ih (goOn_ne_end hret n (S.handleRequest (names n))) h
        refine ⟨k + 1, ?_⟩
        show .request :: (S.server names).callsFrom (S.goOn n (S.handleRequest (names n))) rs
          = S.sessions names n (k + 1) ++ [.request]
        rw [hk, upTo_goOn names hret, sessions_succ]
        rfl
      | false =>
        refine ⟨0, ?_⟩
        show .request :: (S.server names).callsFrom .returned rs = [.request]
        rw [callsFrom_returned]
    | handling n call rest =>
      obtain ⟨k, hk⟩ := ih (goOn_ne_end hret n rest) h
      refine ⟨k, ?_⟩
      show call :: (S.server names).callsFrom (S.goOn n rest) rs = _
      rw [hk, upTo_goOn names hret]
      rfl
    | finishing n =>
      obtain ⟨k, hk⟩ := ih (p := .requesting (n + 1)) (by simp) h
      refine ⟨k, ?_⟩
      show S.finish (names n) :: (S.server names).callsFrom (.requesting (n + 1)) rs = _
      rw [hk]
      rfl
    | returned => exact absurd rfl hp.1
    | undefined => exact absurd rfl hp.2

end Returns

/-! ### A server whose `HandleRequest` flows off its end -/

section FlowsOff

variable {S} (hret : S.coReturns = false)

include hret

/-- After a granted request it is in `HandleRequest` or past the end of it. -/
theorem callsFrom_goOn (n : ℕ) (l : List GreeterCall) (rs : List Bool) :
    (S.server names).callsFrom (S.goOn n l) rs <+: l ∧
      rs.foldl (S.server names).resume (S.goOn n l) ≠ .returned := by
  induction rs generalizing l with
  | nil =>
    cases l with
    | nil =>
      rw [goOn, if_neg (by simp [hret])]
      exact ⟨List.nil_prefix, by simp⟩
    | cons call rest => exact ⟨⟨rest, rfl⟩, by simp [goOn]⟩
  | cons r rs ih =>
    cases l with
    | nil =>
      have hsame := ih []
      rw [goOn, if_neg (by simp [hret])] at hsame ⊢
      exact hsame
    | cons call rest =>
      obtain ⟨hcalls, hend⟩ := ih rest
      refine ⟨?_, hend⟩
      show call :: _ <+: call :: rest
      rw [List.cons_prefix_cons]
      exact ⟨rfl, hcalls⟩

/-- Its calls are a request and those of `HandleRequest`, and it returns only if
that request is not granted. -/
theorem callsFrom_request (n : ℕ) (rs : List Bool) :
    (S.server names).callsFrom (.requesting n) rs <+: .request :: S.handleRequest (names n) ∧
      (rs.foldl (S.server names).resume (.requesting n) = .returned →
        (S.server names).callsFrom (.requesting n) rs = [.request]) := by
  cases rs with
  | nil => exact ⟨⟨S.handleRequest (names n), rfl⟩, fun _ => rfl⟩
  | cons r rs =>
    cases r with
    | true =>
      obtain ⟨hcalls, hend⟩ := callsFrom_goOn names hret n (S.handleRequest (names n)) rs
      refine ⟨?_, fun h => absurd h hend⟩
      show GreeterCall.request :: _ <+: _
      rw [List.cons_prefix_cons]
      exact ⟨rfl, hcalls⟩
    | false =>
      have hone : (S.server names).callsFrom (.requesting n) (false :: rs) = [.request] := by
        show .request :: (S.server names).callsFrom .returned rs = [.request]
        rw [callsFrom_returned]
      rw [hone]
      exact ⟨⟨S.handleRequest (names n), rfl⟩, fun _ => rfl⟩

end FlowsOff

/-! ### The servers at work -/

section Runs

variable {S : Greeter} {names : ℕ → String} {start : ℕ → Position} {as : List ClientAction}
  {s : Clients Position GreeterCall} {h : List (ClientObservation GreeterCall)}

/-- **What the servers call gRPC for**, in every run on a context, whatever else
is on it.  If `HandleRequest` returns: the sessions in their order, each from its
request to its finish, up to a point; and when the coroutine has returned, all of
them and a request that was not granted.  So no call is made for one session
while another is open, and no write that fails keeps a session from being
finished.  If it flows off its end: one request and the calls of `HandleRequest`,
up to a point, but never the finish; and it has returned only from a request that
was not granted. -/
theorem serves (hrun : (coroutines (S.server names) start).exec as = some (s, h)) {t : ℕ}
    (ht : start t = .requesting 0) :
    (S.coReturns = true →
      calls (reports t h) <+: S.sessions names 0 ((results (reports t h)).length + 1) ∧
      (s.position t = .returned →
        ∃ k, calls (reports t h) = S.sessions names 0 k ++ [.request])) ∧
    (S.coReturns = false →
      calls (reports t h) <+: .request :: S.handleRequest (names 0) ∧
      (s.position t = .returned → calls (reports t h) = [.request])) := by
  obtain ⟨d, hd, hat⟩ := (tracks_of_exec hrun).follows t
  obtain ⟨hstate, hcalls, -⟩ := Program.spec_of_run hd
  have hmade := Program.calls_of_run hd
  rw [ht] at hd hstate hcalls hmade
  -- nothing is ahead of a coroutine that has returned
  have hall : s.position t = .returned →
      calls (reports t h) = (S.server names).callsFrom (.requesting 0) (results (reports t h)) ∧
        (results (reports t h)).foldl (S.server names).resume (.requesting 0) = .returned := by
    intro hreturned
    have hend : d.state = .returned := hat.state_eq.trans hreturned
    have hahead : (S.server names).ahead d = [] := by
      cases d with
      | running p =>
        obtain rfl : p = .returned := hend
        rfl
      | _ => rfl
    rw [hahead, List.append_nil] at hcalls
    exact ⟨hcalls, hstate.symm.trans hend⟩
  refine ⟨fun hret => ⟨?_, fun hreturned => ?_⟩, fun hret => ⟨?_, fun hreturned => ?_⟩⟩
  · exact hmade.trans (callsFrom_upTo names hret (p := .requesting 0) (by simp) _)
  · obtain ⟨hcalls, hend⟩ := hall hreturned
    rw [hcalls]
    exact callsFrom_of_returned names hret (p := .requesting 0) (by simp) hend
  · exact hmade.trans (callsFrom_request names hret 0 _).1
  · obtain ⟨hcalls, hend⟩ := hall hreturned
    rw [hcalls]
    exact (callsFrom_request names hret 0 _).2 hend

/-- Operation `id` of the coroutine, from its start in the receiver of the one
before to its own receiver. -/
def oneRpc (id : ℕ) (ok : Bool) : List ClientAction := List.flatten
  [[.await 0 id true, .context .receiverReturns], List.replicate 3 (.context .loop),
    [.context (.finishRpc id ok), .context (.next (.tag id ok))],
    List.replicate 3 (.context .loop)]

/-- A request that is granted, and the RPCs `1` and `2`. -/
def threeRpcs (first second : Bool) : List ClientAction := List.flatten
  [[.await 0 0 false, .context (.signal (.operation 0)), .context .run],
    List.replicate 6 (.context .loop), [.context (.next (.alarm true))],
    List.replicate 8 (.context .loop),
    [.context (.finishRpc 0 true), .context (.next (.tag 0 true))],
    List.replicate 3 (.context .loop), oneRpc 1 first, oneRpc 2 second]

/-- A session of `helloworld`, and a request that is not granted; a session of
`hellostreamingworld`, the first message of which is not written. -/
theorem serves_threeRpcs :
    let names := fun _ => "world"
    (∃ s h, (coroutines (helloworld.server names) fun _ => .requesting 0).exec
          (threeRpcs true false) = some (s, h) ∧
      calls (reports 0 h) = [.request, .finish (some "Hello world"), .request] ∧
      s.position 0 = .returned ∧
      ∃ k, calls (reports 0 h) = helloworld.sessions names 0 k ++ [.request]) ∧
    ∃ s h, (coroutines (hellostreamingworld.server names) fun _ => .requesting 0).exec
        (threeRpcs false true) = some (s, h) ∧
      s.position 0 = .undefined ∧
      calls (reports 0 h) <+: [.request, .write "Hello world", .write "Hello world again"] := by
  intro names
  constructor
  · let M := coroutines (helloworld.server names) fun _ => .requesting 0
    obtain ⟨s, h, hrun⟩ := M.exec_of_isSome (threeRpcs true false) (by decide +kernel)
    have hseen : (M.exec (threeRpcs true false)).map
        (fun p => (calls (reports 0 p.2), p.1.position 0))
          = some ([.request, .finish (some "Hello world"), .request], .returned) := by
      decide +kernel
    rw [hrun, Option.map_some, Option.some.injEq, Prod.mk.injEq] at hseen
    obtain ⟨hcalls, hreturned⟩ := hseen
    obtain ⟨-, hlast⟩ := (serves hrun (t := 0) rfl).1 rfl
    exact ⟨s, h, hrun, hcalls, hreturned, hlast hreturned⟩
  · let M := coroutines (hellostreamingworld.server names) fun _ => .requesting 0
    obtain ⟨s, h, hrun⟩ := M.exec_of_isSome (threeRpcs false true) (by decide +kernel)
    have hseen : (M.exec (threeRpcs false true)).map (fun p => p.1.position 0)
        = some .undefined := by decide +kernel
    rw [hrun, Option.map_some, Option.some.injEq] at hseen
    obtain ⟨hcalls, -⟩ := (serves hrun (t := 0) rfl).2 rfl
    exact ⟨s, h, hrun, hseen, hcalls⟩

end Runs

end Greeter

end Agrpc
