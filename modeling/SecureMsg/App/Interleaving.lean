/-
# App.Interleaving — the application with the two steps of its requests apart

The framework resolves the dependencies of a request in its thread pool and calls the
endpoint function afterwards; steps of other requests fall in between.  What a
dependency has loaded or verified is by then as old as its step, and the function is
called with it all the same.  The functions of `app/api/auth.py` are coroutines without
an `await`: once one is called it runs to its end.

`served_at_once`: where each request is handled as soon as it has arrived, this is the
application of `App.Service`.  `overlapped_keeps` is the rule for what every repository
call keeps, in whatever session it is made.
-/
import SecureMsg.App.Calls

namespace SecureMsg.App

open SecureMsg.Theory SecureMsg.Store SecureMsg.Repository SecureMsg.Auth

set_option autoImplicit false

/-- A request whose dependencies are resolved, and what its function will be called with. -/
structure InFlight where
  step : Step
  call : Call

structure Overlapped (V : Type) where
  state : State V := {}
  /-- Oldest first. -/
  inFlight : List InFlight := []

inductive Event where
  /-- A request arrives and its dependencies are resolved. -/
  | arrive (s : Step)
  /-- The function of the `n`-th request in flight is called. -/
  | handle (n : Nat)

section Advance

variable {V : Type} (libs : Libraries V)

/-- The limiter decides as the function is called. -/
def finish (st : State V) (pending : InFlight) : State V × Response libs.toTokenLib :=
  match limiter pending.step.exceeded pending.call with
  | some detail => (st, .rateLimitExceeded ("Rate limit exceeded: " ++ detail))
  | none => endpoint libs st pending.step.reading pending.call

/-- What an event does, and the response it sends if it ends its request. -/
def advance (W : Overlapped V) : Event → Overlapped V × Option (Response libs.toTokenLib)
  | .arrive s =>
      let (db, resolved) := dependencies libs W.state.db s.reading.decodedAt s.request
      match resolved with
      | .error response => ({ W with state := { W.state with db := db } }, some response)
      | .ok call => (⟨{ W.state with db := db }, W.inFlight ++ [⟨s, call⟩]⟩, none)
  | .handle n =>
      match W.inFlight[n]? with
      | none => (W, none)
      | some pending =>
          let (state, response) := finish libs W.state pending
          (⟨state, W.inFlight.eraseIdx n⟩, some response)

/-- The application from an empty database, no handshake and nothing in flight. -/
def overlapped : System (Overlapped V) Event := ⟨{}, fun W event => (advance libs W event).1⟩

/-- The response the event sends. -/
def answered (earlier : List Event) (event : Event) : Option (Response libs.toTokenLib) :=
  (advance libs ((overlapped libs).run earlier) event).2

end Advance

section Interleaved

variable {V : Type} {libs : Libraries V} {W : Overlapped V} {s : Step} {n : Nat}
  {pending : InFlight}

/-! ## One event -/

theorem advance_refused {db : Database} {response : Response libs.toTokenLib}
    (refused : dependencies libs W.state.db s.reading.decodedAt s.request = (db, .error response)) :
    advance libs W (.arrive s) = ({ W with state := { W.state with db := db } }, some response) := by
  simp only [advance, refused]

theorem advance_resolved {db : Database} {call : Call}
    (resolved : dependencies libs W.state.db s.reading.decodedAt s.request = (db, .ok call)) :
    advance libs W (.arrive s) =
      (⟨{ W.state with db := db }, W.inFlight ++ [⟨s, call⟩]⟩, none) := by
  simp only [advance, resolved]

theorem advance_idle (nobody : W.inFlight[n]? = none) :
    advance libs W (.handle n) = (W, none) := by
  simp only [advance, nobody]

theorem advance_handle (isNext : W.inFlight[n]? = some pending) :
    advance libs W (.handle n) =
      (⟨(finish libs W.state pending).1, W.inFlight.eraseIdx n⟩,
        some (finish libs W.state pending).2) := by
  simp only [advance, isNext]

/-! ## One request at a time -/

/-- A request that arrives while nothing is in flight, and is handled, is served. -/
theorem arrive_handle (st : State V) (s : Step) :
    [Event.arrive s, .handle 0].foldl (fun W event => (advance libs W event).1) ⟨st, []⟩ =
      (⟨(serve libs st s).1, []⟩ : Overlapped V) := by
  have outcome := serve_cases libs st s
  generalize serve libs st s = served at outcome ⊢
  rw [List.foldl_cons, List.foldl_cons, List.foldl_nil]
  cases outcome with
  | refused db response resolved =>
      rw [advance_refused resolved, advance_idle rfl]
  | limited db call detail resolved exceeds =>
      rw [advance_resolved resolved, advance_handle rfl]
      simp only [finish, exceeds]
      rfl
  | called db call resolved within =>
      rw [advance_resolved resolved, advance_handle rfl]
      simp only [finish, within]
      rfl

/-- Every request handled at once. -/
def atOnce (libs : Libraries V) (steps : List Step) : List Event :=
  (application libs).expand (fun _ s => [.arrive s, .handle 0]) steps

/-- **One request at a time, it is the application.** -/
theorem served_at_once (libs : Libraries V) (steps : List Step) :
    (⟨(application libs).run steps, []⟩ : Overlapped V) =
      (overlapped libs).run (atOnce libs steps) := by
  apply (application libs).run_expand (N := overlapped libs) (f := fun st => ⟨st, []⟩)
  · rfl
  · exact fun st s => (arrive_handle st s).symm

/-! ## What every call keeps -/

/-- Every successful repository call keeps the property, in whatever session. -/
def KeptInSessions (P : Database → Prop) : Prop :=
  ∀ session before op after, performIn session before op = .ok after → P before → P after

variable {P : Database → Prop}

theorem performIn_fresh (db : Database) (op : Operation) :
    performIn .fresh db op = perform db op := by
  cases op with
  | _ => rfl

theorem KeptInSessions.byCalls (kept : KeptInSessions P) : KeptByCalls P :=
  fun before op after done => kept .fresh before op after ((performIn_fresh before op).trans done)

theorem KeptInSessions.commitIn (kept : KeptInSessions P) {db : Database} (now : P db)
    (session : Session) (op : Operation) : P (commitIn session db op) := by
  unfold Repository.commitIn
  cases done : performIn session db op with
  | ok after => exact kept session db op after done now
  | error e => exact now

theorem handleKeys_keeps (kept : KeptByCalls P) {db : Database} (now : P db) (currentUser : User)
    (request : Api.KeysRequest) : P (Api.handleKeys db currentUser request).1 := by
  have uploads : ∀ {before : Database} (prekeys : List Bytes), P before →
      P (Api.uploadPrekeys before currentUser prekeys).1 := by
    intro before prekeys now
    unfold Api.uploadPrekeys
    cases added : addOneTimePrekeys before currentUser.id prekeys with
    | ok after => exact kept before (.addOneTimePrekeys currentUser.id prekeys) after added now
    | error e => exact now
  cases request with
  | publishBundle body =>
      simp only [Api.handleKeys, Api.publishBundle]
      cases stored : storeKeyBundle db (body.row currentUser.id) with
      | ok after =>
          have first : P after := kept db (.storeKeyBundle (body.row currentUser.id)) after stored now
          exact uploads body.oneTimePrekeys first
      | error e => exact now
  | uploadPrekeys prekeys => exact uploads prekeys now
  | getPrekeyCount => exact now
  | lookupIdentityPubByUsername username => exact now
  | fetchBundle userId =>
      simp only [Api.handleKeys, Api.fetchBundle]
      cases getUserById db userId with
      | none => exact now
      | some user =>
          cases getKeyBundle db userId with
          | none => exact now
          | some bundle => exact kept db (.popOneTimePrekey userId) _ rfl now

/-- Whatever an endpoint function is called with, it makes repository calls. -/
theorem endpoint_keeps (kept : KeptInSessions P) {st : State V} (now : P st.db) (reading : Reading)
    (call : Call) : P (endpoint libs st reading call).1.db := by
  cases call with
  | register body =>
      exact register_keeps (fun before op after _ => kept.byCalls before op after) now reading
  | srpInit body =>
      show P (srpInitEndpoint libs st reading body).1.db
      rw [srpInitEndpoint_db]
      exact now
  | account pending =>
      show P (Api.handle st.db pending).1
      rw [Api.handle_fst]
      cases pending.call with
      | none => exact now
      | some op => exact kept.commitIn now pending.session op
  | keys currentUser request => exact handleKeys_keeps kept.byCalls now currentUser request
  | messages currentUser request =>
      show P (Api.handleMessages st.db currentUser request).1
      rw [Api.handleMessages_fst]
      cases request.call currentUser.id with
      | none => exact now
      | some op => exact commit_keeps now fun after done => kept.byCalls st.db op after done now
  | _ => exact now

/-- **The rule for one event.** -/
theorem advance_keeps (kept : KeptInSessions P) (now : P W.state.db) (event : Event) :
    P (advance libs W event).1.state.db := by
  cases event with
  | arrive s =>
      have resolves : P (dependencies libs W.state.db s.reading.decodedAt s.request).1 :=
        dependencies_keeps_of (fun before op after _ => kept.byCalls before op after) now _
      match resolved : dependencies libs W.state.db s.reading.decodedAt s.request with
      | (db, .error response) =>
          rw [resolved] at resolves
          rw [advance_refused resolved]
          exact resolves
      | (db, .ok call) =>
          rw [resolved] at resolves
          rw [advance_resolved resolved]
          exact resolves
  | handle n =>
      cases isNext : W.inFlight[n]? with
      | none =>
          rw [advance_idle isNext]
          exact now
      | some pending =>
          rw [advance_handle isNext]
          unfold finish
          cases limiter pending.step.exceeded pending.call with
          | some detail => exact now
          | none => exact endpoint_keeps kept now pending.step.reading pending.call

/-- **The rule for runs**: from a moment on, what every call keeps. -/
theorem overlapped_keeps (libs : Libraries V) (kept : KeptInSessions P) {earlier events : List Event}
    (before : earlier <+: events) (now : P ((overlapped libs).run earlier).state.db) :
    P ((overlapped libs).run events).state.db :=
  (overlapped libs).stays (P := fun W => P W.state.db)
    (fun _ event now => advance_keeps kept now event) before now

theorem performIn_constraints {session : Session} {before after : Database} {op : Operation}
    (c : Constraints before) (done : performIn session before op = .ok after) :
    Constraints after := by
  have committed : Constraints (commitIn session before op) := commitIn_constraints c op
  rwa [commitIn, done] at committed

theorem overlapped_constraints (libs : Libraries V) (events : List Event) :
    Constraints ((overlapped libs).run events).state.db :=
  overlapped_keeps libs (P := Constraints) (fun _ _ _ _ done c => performIn_constraints c done)
    List.nil_prefix sound_empty.constraints

/-- A removal writes no users, whatever its session has loaded. -/
theorem performIn_users {session : Session} {before after : Database} {op : Operation}
    (c : Constraints before) (done : performIn session before op = .ok after) :
    UsersChange before after := by
  cases op with
  | removeMember groupId requesterId userId skdmCiphertexts =>
      obtain ⟨exit, removed⟩ := dropResult_ok done
      cases removeMember_ok removed with | _ => exact .kept (fun _ => id) (le_refl _)
  | _ =>
      rw [performIn_other (by simp)] at done
      exact perform_users c done

/-- Who is gone stays gone. -/
theorem overlapped_departed (libs : Libraries V) {earlier events : List Event}
    (before : earlier <+: events) {userId : UserId}
    (gone : Departed ((overlapped libs).run earlier).state.db userId) :
    Departed ((overlapped libs).run events).state.db userId :=
  (overlapped_keeps libs (P := fun db => Constraints db ∧ Departed db userId)
    (fun _ _ _ _ done now =>
      ⟨performIn_constraints now.1 done, (performIn_users now.1 done).departed now.2⟩)
    before ⟨overlapped_constraints libs earlier, gone⟩).2

end Interleaved

end SecureMsg.App
