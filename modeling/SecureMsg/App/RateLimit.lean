/-
# App.RateLimit — has a rate-limited request no effect?

The limiter decides when the endpoint function is called, after the dependencies.
Only the dependencies of `verify-2fa`, `refresh` and `logout` write: they revoke
the token they have verified, in a transaction of their own.

`noEffect_iff_run`: over every run, whatever the limiter decides, a request it
answers with 429 leaves the database and the handshakes as they were exactly when
it does not present a single-use token that its dependency accepts.
-/
import SecureMsg.App.Service
import SecureMsg.Auth.Login

namespace SecureMsg.App

open SecureMsg.Theory SecureMsg.Store SecureMsg.Repository SecureMsg.Auth

set_option autoImplicit false

variable {V : Type} (libs : Libraries V)

/-- The token a dependency revokes, with the scope it is verified in. -/
def Request.singleUse : Request → Option (String × Scope)
  | .verify2fa body => some (body.preAuthToken, .totpOnly)
  | .refresh refreshToken | .logout refreshToken => some (refreshToken, .refresh)
  | .health | .register _ | .srpInit _ | .srpVerify _ | .authorized _ _ => none

/-- A request the limiter answers with 429 changes nothing, and the single-use token it
presents is accepted when it is sent again while `jwt.decode` accepts it. -/
def NoEffect (earlier : List Step) (s : Step) : Prop :=
  ∀ error, respond libs earlier s = .rateLimitExceeded error →
    (application libs).run (earlier ++ [s]) = (application libs).run earlier ∧
      ∀ token scope, s.request.singleUse = some (token, scope) →
        ∀ later payload, libs.decode later token = .ok payload →
          ∃ call, (dependencies libs ((application libs).run (earlier ++ [s])).db later
            s.request).2 = .ok call

/-- The request presents a single-use token that is verified and revoked; before a
second factor its user is there as well. -/
def Redeems (lib : TokenLib) (db : Database) (now : Rat) (request : Request) : Prop :=
  ∃ token scope claims after, request.singleUse = some (token, scope) ∧
    Consumed lib db now token scope claims after ∧
    (scope = .totpOnly → ∃ userId, claims.userId = .ok userId ∧ userId ∈ db.userIds)

/-- A limit is exceeded by a request that redeems a single-use token. -/
def BurnsToken (earlier : List Step) (s : Step) : Prop :=
  s.exceeded.isSome = true ∧
    Redeems libs.toTokenLib ((application libs).run earlier).db s.reading.decodedAt s.request

variable {libs}

/-- What redeems its token gets past its dependencies, which have written. -/
theorem Redeems.resolved {db : Database} {now : Rat} {request : Request}
    (redeems : Redeems libs.toTokenLib db now request) :
    ∃ after call, dependencies libs db now request = (after, .ok call) ∧
      call.isLimited = true ∧ after ≠ db := by
  obtain ⟨token, scope, claims, after, singleUse, consumed, ofUser⟩ := redeems
  have written := consumed.ne
  cases request with
  | verify2fa body =>
      cases singleUse
      obtain ⟨userId, subject, known⟩ := ofUser rfl
      obtain ⟨user, found, rfl⟩ := getUserById_known known
      refine ⟨after, .verify2fa body.totpCode user, ?_, rfl, written⟩
      have same : getUserById after user.id = some user := by
        rw [getUserById, consumed.users]
        exact found
      simp only [dependencies, requirePreauthUser, consumed.passes, loadUser, subject, same]
      rfl
  | refresh refreshToken =>
      cases singleUse
      refine ⟨after, .refresh claims, ?_, rfl, written⟩
      simp only [dependencies, requireValidRefresh, consumed.passes]
      rfl
  | logout refreshToken =>
      cases singleUse
      refine ⟨after, .logout claims, ?_, rfl, written⟩
      simp only [dependencies, requireValidRefresh, consumed.passes]
      rfl
  | _ => cases singleUse

/-- Dependencies that are resolved wrote nothing or redeemed the token. -/
theorem Resolved.quiet_or_redeems {lib : TokenLib} {db after : Database} {now : Rat}
    {request : Request} {call : Call} (resolved : Resolved lib db now request after call) :
    (after = db ∧ request.singleUse = none) ∨ Redeems lib db now request := by
  cases resolved with
  | verify2fa body after claims user consumed subject found =>
      refine Or.inr ⟨_, _, claims, after, rfl, consumed, fun _ => ⟨user.id, subject, ?_⟩⟩
      rw [getUserById, consumed.users] at found
      exact (getUserById_some found).2
  | refresh refreshToken after claims consumed =>
      exact Or.inr ⟨_, _, claims, after, rfl, consumed, Scope.noConfusion⟩
  | logout refreshToken after claims consumed =>
      exact Or.inr ⟨_, _, claims, after, rfl, consumed, Scope.noConfusion⟩
  | _ => exact Or.inl ⟨rfl, rfl⟩

variable {st : State V} {s : Step}

/-- What a request answered by the limiter did. -/
theorem serve_limited {error : String} (answer : (serve libs st s).2 = .rateLimitExceeded error) :
    ∃ db call, dependencies libs st.db s.reading.decodedAt s.request = (db, .ok call) ∧
      s.exceeded.isSome = true ∧ (serve libs st s).1 = { st with db := db } := by
  have outcome := serve_cases libs st s
  generalize serve libs st s = served at answer outcome ⊢
  cases outcome with
  | refused db response resolved =>
      cases answer
      cases dependencies_error resolved
  | limited db call detail resolved exceeds =>
      refine ⟨db, call, resolved, ?_, rfl⟩
      unfold limiter at exceeds
      split at exceeds
      · rw [exceeds]
        rfl
      · cases exceeds
  | called db call resolved within =>
      cases call with | _ => cases answer

theorem noEffect_iff (earlier : List Step) (s : Step) :
    NoEffect libs earlier s ↔ ¬ BurnsToken libs earlier s := by
  constructor
  · rintro noEffect ⟨exceeded, redeems⟩
    obtain ⟨detail, isDetail⟩ := Option.isSome_iff_exists.mp exceeded
    obtain ⟨after, call, resolved, isLimited, written⟩ := redeems.resolved
    have served : serve libs ((application libs).run earlier) s =
        ({ (application libs).run earlier with db := after },
          .rateLimitExceeded ("Rate limit exceeded: " ++ detail)) := by
      unfold serve
      rw [resolved]
      dsimp only
      rw [limiter, if_pos isLimited, isDetail]
    obtain ⟨same, -⟩ := noEffect _ (congrArg Prod.snd served)
    rw [System.run_snoc] at same
    exact written (congrArg State.db ((congrArg Prod.fst served).symm.trans same))
  · intro notBurnt error answer
    obtain ⟨db, call, resolved, exceeded, served⟩ := serve_limited answer
    rcases (dependencies_ok resolved).quiet_or_redeems with ⟨rfl, notSingleUse⟩ | redeems
    · refine ⟨?_, ?_⟩
      · rw [System.run_snoc]
        exact served
      · intro token scope singleUse
        rw [notSingleUse] at singleUse
        cases singleUse
    · exact absurd ⟨exceeded, redeems⟩ notBurnt

/-- **A rate-limited request has no effect** in a run exactly when no step of it burns a
token. -/
theorem noEffect_iff_run (libs : Libraries V) (steps : List Step) :
    EachStep (NoEffect libs) steps ↔ ¬ SomeStep (BurnsToken libs) steps :=
  eachStep_iff_not_someStep fun earlier s _ => noEffect_iff earlier s

/-! ## A token that is burnt -/

/-- Ada registers and gives the first factor; the request with the second one exceeds a
limit. -/
def limitedRun : List Step :=
  [⟨.register ⟨ada, adaSalt, adaVerifier⟩, adaDraws, none⟩,
    ⟨.srpInit ⟨ada, adaPublic⟩, { srp := { readAt := 5, sessionId := "s1" } }, none⟩,
    ⟨.srpVerify ⟨"s1", adaProof⟩,
      { issuedAt := 10, jti := "a1", srp := { purgedAt := 6, readAt := 6 } }, none⟩,
    ⟨.verify2fa ⟨adaCode, payloadText preAuthPayload⟩, { decodedAt := 19 },
      some "5 per 1 minute"⟩]

/-- The last request of `limitedRun` is answered 429 and leaves its token revoked. -/
theorem limited_request_burns : ¬ EachStep (NoEffect loginLibs) limitedRun := by
  intro each
  have noEffect := each (limitedRun.take 3) limitedRun[3] (List.prefix_refl _)
  rw [noEffect_iff] at noEffect
  have passes : (dependencies loginLibs ((application loginLibs).run (limitedRun.take 3)).db 19
      limitedRun[3].request).2.isOk = true := by
    decide +kernel
  match resolved : dependencies loginLibs ((application loginLibs).run (limitedRun.take 3)).db 19
      limitedRun[3].request with
  | (after, .error response) =>
      rw [resolved] at passes
      cases passes
  | (after, .ok call) =>
      rcases (dependencies_ok resolved).quiet_or_redeems with ⟨-, notSingleUse⟩ | redeems
      · cases notSingleUse
      · exact noEffect ⟨rfl, redeems⟩

end SecureMsg.App
