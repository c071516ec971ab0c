/-
# Auth.SingleUse — the two transactions of a single-use token, interleaved

`verify_token` looks the `jti` up in one transaction, `revoke_token` inserts it in
a second one, and steps of other requests may be committed in between: any
number of requests can pass the lookup before one of them inserts.  A request
here goes through these steps one at a time (`Event`); its record stays in the
state, so the state knows what became of every request.

The invariant is a tally: the blocklist is, up to order, the list of the hashes
of the requests whose insert was committed (`Tallied`).  The primary key makes
the first list free of repetition, hence the second one, so at most one request
gets past (`single_use`).
-/
import SecureMsg.Auth.Endpoints

namespace SecureMsg.Auth

open SecureMsg.Theory SecureMsg.Store SecureMsg.Repository

set_option autoImplicit false

/-! ## Requests in stages -/

/-- The endpoints whose dependency consumes a token. -/
inductive TokenEndpoint where
  | verify2fa (totpCode : TotpCode)
  | refresh
  | logout

def TokenEndpoint.scope : TokenEndpoint → Scope
  | .verify2fa _ => .totpOnly
  | .refresh | .logout => .refresh

/-- What a dependency hands to its endpoint. -/
inductive Passed where
  | claims (claims : TokenClaims)
  | user (user : User)

/-- How far a request has come. -/
inductive Stage (lib : TokenLib) where
  /-- `verify_token` has accepted the token. -/
  | verified (claims : TokenClaims)
  /-- `revoke_token` has committed; the user is still to be loaded. -/
  | revoked (claims : TokenClaims)
  /-- The dependency has returned. -/
  | past (value : Passed)
  /-- The endpoint has run. -/
  | answered (response : Response lib)
  /-- `verify_token` or `revoke_token` has raised. -/
  | refused (raised : Raised)
  /-- The user of the revoked token could not be loaded. -/
  | userRefused (response : Response lib)

/-- The request's insert into the blocklist is committed. -/
def Stage.hasRevoked {lib : TokenLib} : Stage lib → Bool
  | .revoked _ | .past _ | .answered _ | .userRefused _ => true
  | .verified _ | .refused _ => false

/-- The request got past the dependency to its endpoint. -/
def Stage.isPast {lib : TokenLib} : Stage lib → Bool
  | .past _ | .answered _ => true
  | .verified _ | .revoked _ | .refused _ | .userRefused _ => false

structure Handling (lib : TokenLib) where
  endpoint : TokenEndpoint
  token : String
  decodedAt : Rat
  stage : Stage lib

/-- The `jti` of the token a request presents, as its own decoding reads it. -/
def Handling.jti {lib : TokenLib} (h : Handling lib) : Option String :=
  match lib.decode h.decodedAt h.token with
  | .error _ => none
  | .ok raw =>
      match parseClaims raw with
      | .error _ => none
      | .ok claims => claims.jti

structure Tracked (lib : TokenLib) where
  db : Database := {}
  requests : List (Handling lib) := []

inductive Event where
  /-- A request arrives and `verify_token` runs. -/
  | arrive (endpoint : TokenEndpoint) (token : String) (now : Rat)
  /-- `revoke_token` runs for the `n`-th request. -/
  | revoke (n : Nat)
  /-- `require_preauth_user` loads the user of the `n`-th request. -/
  | load (n : Nat)
  /-- The endpoint of the `n`-th request runs. -/
  | answer (n : Nat) (reading : Reading)
  /-- A repository call that blocks no token is committed. -/
  | elsewhere (op : Operation) (noToken : ¬ BlocksToken op)

def verifyStage (lib : TokenLib) (db : Database) (endpoint : TokenEndpoint) (token : String)
    (now : Rat) : Stage lib :=
  match verifyToken lib db now token endpoint.scope with
  | .ok claims => .verified claims
  | .error raised => .refused raised

/-- The dependency of `/refresh` and `/logout` ends with the revocation. -/
def revokedStage (lib : TokenLib) (endpoint : TokenEndpoint) (claims : TokenClaims) : Stage lib :=
  match endpoint with
  | .verify2fa _ => .revoked claims
  | .refresh | .logout => .past (.claims claims)

def revokeStage {lib : TokenLib} (db : Database) (h : Handling lib) : Database × Stage lib :=
  match h.stage with
  | .verified claims =>
      match revokeToken lib db claims with
      | .ok after => (after, revokedStage lib h.endpoint claims)
      | .error raised => (db, .refused raised)
  | stage => (db, stage)

def loadStage {lib : TokenLib} (db : Database) (h : Handling lib) : Stage lib :=
  match h.stage with
  | .revoked claims =>
      match loadUser db claims with
      | .ok user => .past (.user user)
      | .error response => .userRefused response
  | stage => stage

section Run

variable {V : Type} (libs : Libraries V)

def answerStage (reading : Reading) (h : Handling libs.toTokenLib) : Stage libs.toTokenLib :=
  match h.stage, h.endpoint with
  | .past (.claims claims), .refresh => .answered (refreshTokens libs.toTokenLib reading claims)
  | .past (.claims claims), .logout => .answered (logout libs.toTokenLib claims)
  | .past (.user user), .verify2fa totpCode =>
      .answered (verify2fa libs reading totpCode user)
  | stage, _ => stage

/-- One step of the `n`-th request, if there is one. -/
def advanceRequest {lib : TokenLib} (st : Tracked lib) (n : Nat)
    (f : Handling lib → Database × Stage lib) : Tracked lib :=
  match st.requests[n]? with
  | none => st
  | some h => ⟨(f h).1, st.requests.set n { h with stage := (f h).2 }⟩

def trackedStep (st : Tracked libs.toTokenLib) : Event → Tracked libs.toTokenLib
  | .arrive endpoint token now =>
      { st with requests := st.requests ++
          [⟨endpoint, token, now, verifyStage libs.toTokenLib st.db endpoint token now⟩] }
  | .revoke n => advanceRequest st n fun h => revokeStage st.db h
  | .load n => advanceRequest st n fun h => (st.db, loadStage st.db h)
  | .answer n reading => advanceRequest st n fun h => (st.db, answerStage libs reading h)
  | .elsewhere op _ => { st with db := commit st.db op }

def tracker : System (Tracked libs.toTokenLib) Event := ⟨{}, trackedStep libs⟩

/-! ## Without interruption -/

def TokenEndpoint.request (token : String) : TokenEndpoint → Request
  | .verify2fa totpCode => .verify2fa ⟨totpCode, token⟩
  | .refresh => .refresh token
  | .logout => .logout token

/-- The text of the 401 an `InvalidTokenError` is answered with. -/
def TokenEndpoint.detail : TokenEndpoint → String
  | .verify2fa _ => "Invalid pre-auth token"
  | .refresh | .logout => "Invalid refresh token"

/-- The response to a request that has come to its end. -/
def Handling.response {lib : TokenLib} (h : Handling lib) : Option (Response lib) :=
  match h.stage with
  | .answered response | .userRefused response => some response
  | .refused raised => some (refuse h.endpoint.detail raised)
  | .verified _ | .revoked _ | .past _ => none

theorem advanceRequest_last {lib : TokenLib} (db : Database) (older : List (Handling lib))
    (h : Handling lib) (f : Handling lib → Database × Stage lib) :
    advanceRequest ⟨db, older ++ [h]⟩ older.length f =
      ⟨(f h).1, older ++ [{ h with stage := (f h).2 }]⟩ := by
  have isLast : (older ++ [h])[older.length]? = some h := by simp
  unfold advanceRequest
  dsimp only
  rw [isLast]
  simp

/-- Only verification raises what a dependency answers with 401. -/
theorem refuse_of_revokeToken {lib : TokenLib} {db : Database} {claims : TokenClaims}
    {raised : Raised} (outcome : revokeToken lib db claims = .error raised) (detail : String) :
    (refuse detail raised : Response lib) = .unhandled raised := by
  cases raised with
  | invalidToken _ => exact absurd outcome revokeToken_ne_invalid
  | _ => rfl

/-- What an endpoint answers once its token is consumed. -/
def consumedAnswer (reading : Reading) (after : Database) (claims : TokenClaims) :
    TokenEndpoint → Response libs.toTokenLib
  | .verify2fa totpCode => andThen (loadUser after claims) (verify2fa libs reading totpCode)
  | .refresh => refreshTokens libs.toTokenLib reading claims
  | .logout => logout libs.toTokenLib claims

theorem serve_endpoint (db : Database) (sessions : Sessions V) (endpoint : TokenEndpoint)
    (token : String) (reading : Reading) :
    let consumed := consumeToken libs.toTokenLib db reading.decodedAt token endpoint.scope
      endpoint.detail
    serve libs ⟨db, sessions⟩ ⟨endpoint.request token, reading⟩ =
      (⟨consumed.1, sessions⟩,
        andThen consumed.2 fun claims => consumedAnswer libs reading consumed.1 claims endpoint) := by
  cases endpoint with
  | verify2fa totpCode =>
      simp only [TokenEndpoint.request, TokenEndpoint.scope, TokenEndpoint.detail, serve,
        requirePreauthUser]
      rcases consumeToken libs.toTokenLib db reading.decodedAt token .totpOnly
        "Invalid pre-auth token" with ⟨after, response | claims⟩
      · rfl
      · rfl
  | refresh => rfl
  | logout => rfl

/-- The last two stages of a request whose token is revoked. -/
theorem response_of_revoked (after : Database) (reading : Reading) (endpoint : TokenEndpoint)
    (token : String) (now : Rat) (claims : TokenClaims) :
    let revoked : Handling libs.toTokenLib := ⟨endpoint, token, now, revokedStage _ endpoint claims⟩
    let loaded := { revoked with stage := loadStage after revoked }
    { loaded with stage := answerStage libs reading loaded }.response =
      some (consumedAnswer libs reading after claims endpoint) := by
  cases endpoint with
  | verify2fa totpCode =>
      simp only [revokedStage, loadStage, consumedAnswer]
      cases (loadUser after claims : Except (Response libs.toTokenLib) User) with
      | ok user => rfl
      | error response => rfl
  | refresh => rfl
  | logout => rfl

/-- **The steps of one request, one after the other, are `serve`.** -/
theorem uninterrupted (st : Tracked libs.toTokenLib) (sessions : Sessions V)
    (endpoint : TokenEndpoint) (token : String) (reading : Reading) :
    let n := st.requests.length
    let steps : List Event :=
      [.arrive endpoint token reading.decodedAt, .revoke n, .load n, .answer n reading]
    let served := serve libs ⟨st.db, sessions⟩ ⟨endpoint.request token, reading⟩
    ∃ h, steps.foldl (trackedStep libs) st = ⟨served.1.db, st.requests ++ [h]⟩ ∧
      h.response = some served.2 := by
  intro n steps served
  have isServed : served = _ := serve_endpoint libs st.db sessions endpoint token reading
  have outcome := consumeToken_cases libs.toTokenLib st.db reading.decodedAt token endpoint.scope
    endpoint.detail
  simp only [steps, n, List.foldl_cons, List.foldl_nil, trackedStep, advanceRequest_last]
  generalize consumeToken libs.toTokenLib st.db reading.decodedAt token endpoint.scope
    endpoint.detail = result at isServed outcome
  rw [isServed]
  cases outcome with
  | refused raised refused =>
      simp only [verifyStage, refused]
      exact ⟨_, rfl, rfl⟩
  | rejected claims raised verified rejected =>
      simp only [verifyStage, verified, revokeStage, rejected]
      refine ⟨_, rfl, ?_⟩
      exact congrArg some (refuse_of_revokeToken rejected endpoint.detail)
  | consumed claims after consumed =>
      simp only [verifyStage, consumed.verified, revokeStage, consumed.revoked]
      exact ⟨_, rfl, response_of_revoked libs after reading endpoint token _ claims⟩

end Run

/-! ## The tally -/

section Tally

variable {lib : TokenLib}

/-- The hash a request has put on the blocklist. -/
def revokedHash (h : Handling lib) : Option Bytes :=
  if h.stage.hasRevoked then h.jti.map lib.sha256 else none

/-- The lookup found the `jti` on the blocklist, or the insert was rejected. -/
def Handling.RefusedByBlocklist (h : Handling lib) : Prop :=
  h.stage = .refused (.invalidToken "token revoked") ∨
    ∃ violated, h.stage = .refused (.repository (.integrityError violated))

/-- A record agrees with its token and with the blocklist. -/
structure Consistent (db : Database) (h : Handling lib) : Prop where
  claims : ∀ claims, h.stage = .verified claims → claims.jti = h.jti
  jti : h.stage.hasRevoked = true → ∃ jti, h.jti = some jti
  refusal : ∀ jti, h.jti = some jti → h.RefusedByBlocklist →
    lib.sha256 jti ∈ blockedHashes db

structure Tallied (st : Tracked lib) : Prop where
  constraints : Constraints st.db
  tally : (blockedHashes st.db).Perm (st.requests.filterMap revokedHash)
  consistent : ∀ h ∈ st.requests, Consistent st.db h

theorem Consistent.grow {db after : Database} {h : Handling lib} (now : Consistent db h)
    (grows : ∀ hash ∈ blockedHashes db, hash ∈ blockedHashes after) : Consistent after h :=
  ⟨now.claims, now.jti, fun jti isJti refused => grows _ (now.refusal jti isJti refused)⟩

/-- A step of one request that leaves the blocklist alone. -/
theorem Tallied.quiet {st : Tracked lib} (t : Tallied st) {n : Nat} {h : Handling lib}
    (at_ : st.requests[n]? = some h) {stage : Stage lib}
    (same : revokedHash { h with stage := stage } = revokedHash h)
    (consistent : Consistent st.db { h with stage := stage }) :
    Tallied { st with requests := st.requests.set n { h with stage := stage } } where
  constraints := t.constraints
  tally := by
    rw [filterMap_set at_ same]
    exact t.tally
  consistent := by
    intro other listed
    rcases List.mem_or_eq_of_mem_set listed with old | rfl
    · exact t.consistent other old
    · exact consistent

/-- A step of one request that puts its hash on the blocklist. -/
theorem Tallied.revoke {st : Tracked lib} (t : Tallied st) {n : Nat} {h : Handling lib}
    (at_ : st.requests[n]? = some h) {after : Database} {stage : Stage lib} {hash : Bytes}
    (constraints : Constraints after) (hidden : revokedHash h = none)
    (shown : revokedHash { h with stage := stage } = some hash)
    (inserted : blockedHashes after = blockedHashes st.db ++ [hash])
    (consistent : Consistent after { h with stage := stage }) :
    Tallied ⟨after, st.requests.set n { h with stage := stage }⟩ where
  constraints := constraints
  tally := by
    have column : ((st.requests.set n { h with stage := stage }).filterMap revokedHash).Perm _ :=
      filterMap_set_perm at_ hidden shown
    rw [inserted]
    exact (t.tally.append_right [hash]).trans column.symm
  consistent := by
    intro other listed
    rcases List.mem_or_eq_of_mem_set listed with old | rfl
    · refine (t.consistent other old).grow fun hash' blocked => ?_
      rw [inserted]
      exact List.mem_append_left _ blocked
    · exact consistent

/-! ## Every step keeps the tally -/

variable {db after : Database} {h : Handling lib}

theorem jti_of_parsed {raw : Payload} {claims : TokenClaims}
    (decoded : lib.decode h.decodedAt h.token = .ok raw) (parsed : parseClaims raw = .ok claims) :
    h.jti = claims.jti := by
  simp only [Handling.jti, decoded, parsed]

theorem parsed_of_jti {jti : String} (isJti : h.jti = some jti) :
    ∃ raw claims, lib.decode h.decodedAt h.token = .ok raw ∧ parseClaims raw = .ok claims ∧
      claims.jti = some jti := by
  unfold Handling.jti at isJti
  cases decoded : lib.decode h.decodedAt h.token with
  | error detail =>
      rw [decoded] at isJti
      cases isJti
  | ok raw =>
      rw [decoded] at isJti
      dsimp only at isJti
      cases parsed : parseClaims raw with
      | error raised =>
          rw [parsed] at isJti
          cases isJti
      | ok claims =>
          rw [parsed] at isJti
          exact ⟨raw, claims, rfl, parsed, isJti⟩

theorem TokenEndpoint.scope_ne_full (endpoint : TokenEndpoint) : endpoint.scope ≠ .full := by
  cases endpoint with
  | verify2fa totpCode => exact Scope.noConfusion
  | refresh => exact Scope.noConfusion
  | logout => exact Scope.noConfusion

theorem verifyStage_hasRevoked (endpoint : TokenEndpoint) (token : String) (now : Rat) :
    (verifyStage lib db endpoint token now).hasRevoked = false := by
  unfold verifyStage
  cases verifyToken lib db now token endpoint.scope with
  | ok claims => rfl
  | error raised => rfl

theorem verifyStage_consistent (endpoint : TokenEndpoint) (token : String) (now : Rat) :
    Consistent db
      (⟨endpoint, token, now, verifyStage lib db endpoint token now⟩ : Handling lib) where
  claims := by
    intro claims verified
    unfold verifyStage at verified
    cases accepted : verifyToken lib db now token endpoint.scope with
    | error raised =>
        rw [accepted] at verified
        cases verified
    | ok found =>
        rw [accepted] at verified
        cases verified
        obtain ⟨raw, decoded, parsed, -, -⟩ := verifyToken_ok accepted
        exact (jti_of_parsed decoded parsed).symm
  jti := by
    intro revoked
    rw [verifyStage_hasRevoked] at revoked
    cases revoked
  refusal := by
    intro jti isJti refused
    obtain ⟨raw, claims, decoded, parsed, hasJti⟩ := parsed_of_jti isJti
    have verdict : verifyToken lib db now token endpoint.scope = _ :=
      verifyToken_of_parsed decoded parsed
    unfold Handling.RefusedByBlocklist verifyStage at refused
    dsimp only at refused
    rw [verdict] at refused
    by_cases sameScope : claims.scope = some endpoint.scope.text
    · rw [if_neg (not_not.mpr sameScope)] at refused
      cases revoked : isRevoked lib db claims endpoint.scope with
      | true =>
          obtain ⟨jti', isJti', blocked⟩ := (isRevoked_iff endpoint.scope_ne_full).mp revoked
          rw [hasJti] at isJti'
          cases isJti'
          exact blocked
      | false =>
          rw [revoked] at refused
          simp at refused
    · rw [if_pos sameScope] at refused
      simp at refused

/-- A request that is not verified does not notice `revoke_token`. -/
theorem revokeStage_idle (notVerified : ∀ claims, h.stage ≠ .verified claims) :
    revokeStage db h = (db, h.stage) := by
  unfold revokeStage
  cases at_ : h.stage with
  | verified claims => exact absurd at_ (notVerified claims)
  | _ => rfl

theorem revokedStage_hasRevoked (endpoint : TokenEndpoint) (claims : TokenClaims) :
    (revokedStage lib endpoint claims).hasRevoked = true := by
  cases endpoint with
  | verify2fa totpCode => rfl
  | refresh => rfl
  | logout => rfl

theorem Consistent.of_hasRevoked {stage : Stage lib} (revoked : stage.hasRevoked = true)
    (hasJti : ∃ jti, h.jti = some jti) : Consistent db { h with stage := stage } where
  claims := by
    intro claims verified
    dsimp only at verified
    rw [verified] at revoked
    cases revoked
  jti := fun _ => hasJti
  refusal := by
    intro jti _ refused
    rcases refused with refused | ⟨violated, refused⟩
    · dsimp only at refused
      rw [refused] at revoked
      cases revoked
    · dsimp only at refused
      rw [refused] at revoked
      cases revoked

theorem revokedHash_of_hasRevoked {stage : Stage lib} (revoked : stage.hasRevoked = true) :
    revokedHash { h with stage := stage } = h.jti.map lib.sha256 :=
  if_pos revoked

theorem revokedHash_of_not {stage : Stage lib} (unrevoked : stage.hasRevoked = false) :
    revokedHash { h with stage := stage } = none := by
  unfold revokedHash
  rw [if_neg (by rw [unrevoked]; exact Bool.false_ne_true)]

theorem revokedHash_arrived (endpoint : TokenEndpoint) (token : String) (now : Rat) :
    revokedHash (⟨endpoint, token, now, verifyStage lib db endpoint token now⟩ : Handling lib) =
      none := by
  unfold revokedHash
  rw [verifyStage_hasRevoked]
  rfl

/-- `revoke_token` for one request. -/
theorem tallied_revoke {st : Tracked lib} (t : Tallied st) (n : Nat) :
    Tallied (advanceRequest st n fun h => revokeStage st.db h) := by
  unfold advanceRequest
  cases at_ : st.requests[n]? with
  | none => exact t
  | some h =>
      have now := t.consistent h (List.mem_of_getElem? at_)
      dsimp only
      cases stage : h.stage with
      | verified claims =>
          have hidden : revokedHash h = none := by
            unfold revokedHash
            rw [stage]
            rfl
          have isJti := now.claims claims stage
          cases outcome : revokeToken lib st.db claims with
          | ok after =>
              obtain ⟨jti, hasJti, -, inserted⟩ := revokeToken_blocked outcome
              have next : revokeStage st.db h = (after, revokedStage lib h.endpoint claims) := by
                simp only [revokeStage, stage, outcome]
              rw [next]
              have marks : (revokedStage lib h.endpoint claims).hasRevoked = true :=
                revokedStage_hasRevoked h.endpoint claims
              refine t.revoke at_ (revokeToken_constraints t.constraints outcome) hidden ?_ inserted
                (.of_hasRevoked marks ⟨jti, ?_⟩)
              · rw [revokedHash_of_hasRevoked marks, ← isJti, hasJti]
                rfl
              · rw [← isJti, hasJti]
          | error raised =>
              have next : revokeStage st.db h = (st.db, .refused raised) := by
                simp only [revokeStage, stage, outcome]
              rw [next]
              refine t.quiet at_ ?_ ?_
              · rw [hidden, revokedHash_of_not rfl]
              · refine ⟨?_, ?_, ?_⟩
                · intro _ verified
                  cases verified
                · intro revoked
                  cases revoked
                · intro jti hasJti refused
                  rcases refused with refused | ⟨violated, refused⟩
                  · cases refused
                    exact absurd outcome revokeToken_ne_invalid
                  · cases refused
                    obtain ⟨jti', isJti', blocked⟩ := revokeToken_rejected t.constraints outcome
                    rw [isJti, show h.jti = some jti from hasJti] at isJti'
                    cases isJti'
                    exact blocked
      | _ =>
          rw [revokeStage_idle]
          · exact t.quiet at_ rfl now
          · intro claims verified
            rw [stage] at verified
            cases verified

/-- A step that only moves requests on which have been revoked. -/
theorem tallied_onward {st : Tracked lib} (t : Tallied st) (n : Nat) {f : Handling lib → Stage lib}
    (onward : ∀ h, f h = h.stage ∨ (h.stage.hasRevoked = true ∧ (f h).hasRevoked = true)) :
    Tallied (advanceRequest st n fun h => (st.db, f h)) := by
  unfold advanceRequest
  cases at_ : st.requests[n]? with
  | none => exact t
  | some h =>
      have now := t.consistent h (List.mem_of_getElem? at_)
      dsimp only
      rcases onward h with same | ⟨before, afterwards⟩
      · rw [same]
        exact t.quiet at_ rfl now
      · refine t.quiet at_ ?_ (.of_hasRevoked afterwards (now.jti before))
        rw [revokedHash_of_hasRevoked afterwards]
        exact (revokedHash_of_hasRevoked before).symm

theorem loadStage_onward (h : Handling lib) : loadStage db h = h.stage ∨
    (h.stage.hasRevoked = true ∧ (loadStage db h).hasRevoked = true) := by
  unfold loadStage
  cases stage : h.stage with
  | revoked claims =>
      refine Or.inr ⟨rfl, ?_⟩
      dsimp only
      cases (loadUser db claims : Except (Response lib) User) with
      | ok user => rfl
      | error response => rfl
  | _ => exact Or.inl rfl

end Tally

section Run

variable {V : Type} {libs : Libraries V}

theorem answerStage_onward (reading : Reading) (h : Handling libs.toTokenLib) :
    answerStage libs reading h = h.stage ∨
      (h.stage.hasRevoked = true ∧ (answerStage libs reading h).hasRevoked = true) := by
  unfold answerStage
  cases stage : h.stage with
  | past value =>
      cases value with
      | claims claims =>
          cases h.endpoint with
          | verify2fa totpCode => exact Or.inl rfl
          | refresh => exact Or.inr ⟨rfl, rfl⟩
          | logout => exact Or.inr ⟨rfl, rfl⟩
      | user user =>
          cases h.endpoint with
          | verify2fa totpCode => exact Or.inr ⟨rfl, rfl⟩
          | refresh => exact Or.inl rfl
          | logout => exact Or.inl rfl
  | _ => exact Or.inl rfl

/-- **Every step keeps the tally.** -/
theorem tallied_step {st : Tracked libs.toTokenLib} (t : Tallied st) (e : Event) :
    Tallied (trackedStep libs st e) := by
  cases e with
  | arrive endpoint token now =>
      refine ⟨t.constraints, ?_, ?_⟩
      · show (blockedHashes st.db).Perm ((st.requests ++ [_]).filterMap revokedHash)
        rw [List.filterMap_append, List.filterMap_cons_none, List.filterMap_nil, List.append_nil]
        · exact t.tally
        · exact revokedHash_arrived endpoint token now
      · intro h listed
        rcases List.mem_append.mp listed with old | new
        · exact t.consistent h old
        · rw [List.mem_singleton.mp new]
          exact verifyStage_consistent endpoint token now
  | revoke n => exact tallied_revoke t n
  | load n => exact tallied_onward t n loadStage_onward
  | answer n reading => exact tallied_onward t n (answerStage_onward reading)
  | elsewhere op noToken =>
      have same := commit_blocklist t.constraints noToken
      refine ⟨?_, ?_, ?_⟩
      · exact commit_keeps t.constraints fun _ done => perform_constraints t.constraints done
      · show (blockedHashes (commit st.db op)).Perm _
        rw [same]
        exact t.tally
      · intro h listed
        refine (t.consistent h listed).grow fun hash blocked => ?_
        show hash ∈ blockedHashes (commit st.db op)
        rw [same]
        exact blocked

theorem tallied (events : List Event) : Tallied ((tracker libs).run events) := by
  refine (tracker libs).invariant (P := Tallied) ?_ (fun _ e t => tallied_step t e) events
  refine ⟨sound_empty.constraints, List.Perm.refl _, ?_⟩
  intro h listed
  cases listed

/-! ## Requests only move on -/

/-- `later` is the record of the same request, no less far. -/
structure Handling.Follows {lib : TokenLib} (earlier later : Handling lib) : Prop where
  endpoint : later.endpoint = earlier.endpoint
  jti : later.jti = earlier.jti
  past : earlier.stage.isPast = true → later.stage.isPast = true
  answered : ∀ response, earlier.stage = .answered response → later.stage = .answered response

theorem Handling.Follows.refl {lib : TokenLib} (h : Handling lib) : h.Follows h :=
  ⟨rfl, rfl, id, fun _ => id⟩

theorem Handling.Follows.trans {lib : TokenLib} {a b c : Handling lib} (first : a.Follows b)
    (second : b.Follows c) : a.Follows c :=
  ⟨second.endpoint.trans first.endpoint, second.jti.trans first.jti,
    fun isPast => second.past (first.past isPast),
    fun response was => second.answered response (first.answered response was)⟩

theorem revokeStage_past {lib : TokenLib} {db : Database} {h : Handling lib}
    (isPast : h.stage.isPast = true) : (revokeStage db h).2 = h.stage := by
  rw [revokeStage_idle]
  intro claims verified
  rw [verified] at isPast
  cases isPast

theorem loadStage_past {lib : TokenLib} {db : Database} {h : Handling lib}
    (isPast : h.stage.isPast = true) : loadStage db h = h.stage := by
  unfold loadStage
  cases stage : h.stage with
  | revoked claims =>
      rw [stage] at isPast
      cases isPast
  | _ => rfl

theorem answerStage_answered {reading : Reading} {h : Handling libs.toTokenLib}
    {response : Response libs.toTokenLib} (was : h.stage = .answered response) :
    answerStage libs reading h = .answered response := by
  unfold answerStage
  rw [was]

theorem answerStage_past {reading : Reading} {h : Handling libs.toTokenLib}
    (isPast : h.stage.isPast = true) : (answerStage libs reading h).isPast = true := by
  rcases hasPassed : h.stage with claims | claims | value | response | raised | response
  case past =>
      unfold answerStage
      rw [hasPassed]
      cases value with
      | claims claims => cases h.endpoint with | _ => rfl
      | user user => cases h.endpoint with | _ => rfl
  case answered =>
      rw [answerStage_answered hasPassed]
      rfl
  all_goals
    rw [hasPassed] at isPast
    cases isPast

theorem advanceRequest_follows {lib : TokenLib} {st : Tracked lib} {n m : Nat}
    {f : Handling lib → Database × Stage lib} {h : Handling lib}
    (moves : ∀ h : Handling lib, h.Follows { h with stage := (f h).2 }) (at_ : st.requests[m]? = some h) :
    ∃ later, (advanceRequest st n f).requests[m]? = some later ∧ h.Follows later := by
  unfold advanceRequest
  cases isNext : st.requests[n]? with
  | none => exact ⟨h, at_, .refl h⟩
  | some found =>
      by_cases same : n = m
      · subst same
        rw [at_] at isNext
        cases isNext
        refine ⟨_, ?_, moves h⟩
        exact List.getElem?_set_self (List.getElem?_eq_some_iff.mp at_).1
      · exact ⟨h, (List.getElem?_set_ne same).trans at_, .refl h⟩

theorem trackedStep_follows {st : Tracked libs.toTokenLib} (e : Event) {m : Nat}
    {h : Handling libs.toTokenLib} (at_ : st.requests[m]? = some h) :
    ∃ later, (trackedStep libs st e).requests[m]? = some later ∧ h.Follows later := by
  cases e with
  | arrive endpoint token now =>
      refine ⟨h, ?_, .refl h⟩
      have inside := (List.getElem?_eq_some_iff.mp at_).1
      exact (List.getElem?_append_left inside).trans at_
  | revoke n =>
      refine advanceRequest_follows (fun h => ⟨rfl, rfl, ?_, ?_⟩) at_
      · intro isPast
        exact (congrArg Stage.isPast (revokeStage_past isPast)).trans isPast
      · intro response was
        exact (revokeStage_past (congrArg Stage.isPast was)).trans was
  | load n =>
      refine advanceRequest_follows (fun h => ⟨rfl, rfl, ?_, ?_⟩) at_
      · intro isPast
        exact (congrArg Stage.isPast (loadStage_past isPast)).trans isPast
      · intro response was
        exact (loadStage_past (congrArg Stage.isPast was)).trans was
  | answer n reading =>
      exact advanceRequest_follows
        (fun h => ⟨rfl, rfl, answerStage_past, fun _ => answerStage_answered⟩) at_
  | elsewhere op noToken => exact ⟨h, at_, .refl h⟩

/-- The record of a request at the end of a run, from one along the way. -/
theorem run_follows {earlier events : List Event} (before : earlier <+: events) {m : Nat}
    {h : Handling libs.toTokenLib} (at_ : ((tracker libs).run earlier).requests[m]? = some h) :
    ∃ later, ((tracker libs).run events).requests[m]? = some later ∧ h.Follows later := by
  induction events using List.reverseRecOn with
  | nil =>
      rw [List.prefix_nil.mp before] at at_
      exact ⟨h, at_, .refl h⟩
  | append_singleton events e ih =>
      rcases List.prefix_concat_iff.mp before with rfl | within
      · exact ⟨h, at_, .refl h⟩
      · obtain ⟨between, betweenAt, first⟩ := ih within
        rw [System.run_snoc]
        obtain ⟨later, laterAt, second⟩ := trackedStep_follows e betweenAt
        exact ⟨later, laterAt, first.trans second⟩

/-! ## Logging out issues nothing -/

def Stage.IssuedPair {lib : TokenLib} (stage : Stage lib) (access refresh : IssuedToken lib) :
    Prop :=
  stage = .answered (.tokens access refresh)

/-- A logout has not been answered with tokens. -/
def Handling.LogsOutOnly {lib : TokenLib} (h : Handling lib) : Prop :=
  h.endpoint = .logout → ∀ access refresh, ¬ h.stage.IssuedPair access refresh

theorem advanceRequest_forall {lib : TokenLib} {st : Tracked lib} {n : Nat}
    {f : Handling lib → Database × Stage lib} {P : Handling lib → Prop}
    (now : ∀ h ∈ st.requests, P h) (kept : ∀ h, P h → P { h with stage := (f h).2 }) :
    ∀ h ∈ (advanceRequest st n f).requests, P h := by
  unfold advanceRequest
  cases at_ : st.requests[n]? with
  | none => exact now
  | some found =>
      intro h listed
      rcases List.mem_or_eq_of_mem_set listed with old | rfl
      · exact now h old
      · exact kept found (now found (List.mem_of_getElem? at_))

theorem logout_issues_nothing {lib : TokenLib} (claims : TokenClaims)
    (access refresh : IssuedToken lib) : logout lib claims ≠ .tokens access refresh := by
  unfold logout
  cases claims.userId with
  | error raised => exact fun same => by cases same
  | ok userId => exact fun same => by cases same

theorem revokeStage_answered {lib : TokenLib} {db : Database} {h : Handling lib}
    {response : Response lib} (is : (revokeStage db h).2 = .answered response) :
    h.stage = .answered response := by
  cases stage : h.stage with
  | verified claims =>
      unfold revokeStage at is
      rw [stage] at is
      dsimp only at is
      cases outcome : revokeToken lib db claims with
      | error raised =>
          rw [outcome] at is
          cases is
      | ok after =>
          rw [outcome] at is
          cases isEndpoint : h.endpoint with
          | _ =>
              rw [isEndpoint] at is
              cases is
  | _ =>
      rw [revokeStage_idle (fun claims verified => by rw [stage] at verified; cases verified),
        stage] at is
      exact is

theorem loadStage_answered {lib : TokenLib} {db : Database} {h : Handling lib}
    {response : Response lib} (is : loadStage db h = .answered response) :
    h.stage = .answered response := by
  unfold loadStage at is
  cases stage : h.stage with
  | revoked claims =>
      rw [stage] at is
      dsimp only at is
      cases outcome : (loadUser db claims : Except (Response lib) User) with
      | _ =>
          rw [outcome] at is
          cases is
  | _ =>
      rw [stage] at is
      exact is

theorem answerStage_logout {reading : Reading} {h : Handling libs.toTokenLib}
    (isLogout : h.endpoint = .logout) {access refresh : IssuedToken libs.toTokenLib}
    (is : (answerStage libs reading h).IssuedPair access refresh) :
    h.stage.IssuedPair access refresh := by
  unfold answerStage at is
  rw [isLogout] at is
  cases stage : h.stage with
  | past value =>
      rw [stage] at is
      cases value with
      | claims claims => exact absurd (Stage.answered.inj is) (logout_issues_nothing claims _ _)
      | user user => cases is
  | _ =>
      rw [stage] at is
      exact is

theorem logsOutOnly (events : List Event) :
    ∀ h ∈ ((tracker libs).run events).requests, h.LogsOutOnly := by
  refine (tracker libs).invariant (P := fun st => ∀ h ∈ st.requests, h.LogsOutOnly) ?_ ?_ events
  · intro h listed
    cases listed
  · intro st e now
    cases e with
    | arrive endpoint token decodedAt =>
        intro h listed
        rcases List.mem_append.mp listed with old | new
        · exact now h old
        · rw [List.mem_singleton.mp new]
          intro _ access refresh issued
          have isStage : verifyStage libs.toTokenLib st.db endpoint token decodedAt =
              .answered (.tokens access refresh) := issued
          have unrevoked := congrArg Stage.hasRevoked isStage
          rw [verifyStage_hasRevoked] at unrevoked
          cases unrevoked
    | revoke n =>
        refine advanceRequest_forall now fun h logsOut isLogout access refresh issued => ?_
        exact logsOut isLogout access refresh (revokeStage_answered issued)
    | load n =>
        refine advanceRequest_forall now fun h logsOut isLogout access refresh issued => ?_
        exact logsOut isLogout access refresh (loadStage_answered issued)
    | answer n reading =>
        refine advanceRequest_forall now fun h logsOut isLogout access refresh issued => ?_
        exact logsOut isLogout access refresh (answerStage_logout (h := h) isLogout issued)
    | elsewhere op noToken => exact now

/-! ## Single use -/

variable (libs)

/-- At some point of the run the `n`-th request, presenting the `jti`, is past its
dependency. -/
def EverPast (events : List Event) (jti : String) (n : Nat) (endpoint : TokenEndpoint) : Prop :=
  ∃ earlier h, earlier <+: events ∧ ((tracker libs).run earlier).requests[n]? = some h ∧
    h.jti = some jti ∧ h.endpoint = endpoint ∧ h.stage.isPast = true

/-- At some point of the run it has been answered with a token pair. -/
def EverIssued (events : List Event) (jti : String) (n : Nat)
    (access refresh : IssuedToken libs.toTokenLib) : Prop :=
  ∃ earlier h, earlier <+: events ∧ ((tracker libs).run earlier).requests[n]? = some h ∧
    h.jti = some jti ∧ h.stage.IssuedPair access refresh

/-- How often the `jti` is on the blocklist. -/
def entriesFor (db : Database) (jti : String) : Nat :=
  (blockedHashes db).count (libs.sha256 jti)

/-- A `jti` is used once in the run, and in nobody else's way. -/
structure SingleUse (events : List Event) (jti : String) : Prop where
  onePasses : ∀ n m endpoint endpoint', EverPast libs events jti n endpoint →
    EverPast libs events jti m endpoint' → n = m
  onePair : ∀ n m access refresh access' refresh', EverIssued libs events jti n access refresh →
    EverIssued libs events jti m access' refresh' →
      n = m ∧ access = access' ∧ refresh = refresh'
  noneAfterLogout : ∀ n m access refresh, EverPast libs events jti n .logout →
    ¬ EverIssued libs events jti m access refresh
  oneEntry : entriesFor libs ((tracker libs).run events).db jti ≤ 1
  entryStays : ∀ n endpoint, EverPast libs events jti n endpoint →
    entriesFor libs ((tracker libs).run events).db jti = 1
  othersUnaffected : ∀ h ∈ ((tracker libs).run events).requests, ∀ other, other ≠ jti →
    h.jti = some other → h.RefusedByBlocklist →
      ∃ h' ∈ ((tracker libs).run events).requests, h'.jti = some other ∧
        h'.stage.hasRevoked = true

variable {libs}

theorem Stage.isPast_hasRevoked {lib : TokenLib} {stage : Stage lib}
    (isPast : stage.isPast = true) : stage.hasRevoked = true := by
  cases stage with
  | past value => rfl
  | answered response => rfl
  | _ => cases isPast

/-- Once past, a request shows its hash in the tally. -/
theorem everPast_shows {events : List Event} {jti : String} {n : Nat} {endpoint : TokenEndpoint}
    (everPast : EverPast libs events jti n endpoint) :
    ∃ h, ((tracker libs).run events).requests[n]? = some h ∧ h.endpoint = endpoint ∧
      revokedHash h = some (libs.sha256 jti) := by
  obtain ⟨earlier, h, before, at_, isJti, isEndpoint, isPast⟩ := everPast
  obtain ⟨later, laterAt, follows⟩ := run_follows before at_
  refine ⟨later, laterAt, follows.endpoint.trans isEndpoint, ?_⟩
  unfold revokedHash
  rw [Stage.isPast_hasRevoked (follows.past isPast), follows.jti, isJti]
  rfl

theorem everIssued_everPast {events : List Event} {jti : String} {n : Nat}
    {access refresh : IssuedToken libs.toTokenLib}
    (issued : EverIssued libs events jti n access refresh) :
    ∃ endpoint, EverPast libs events jti n endpoint := by
  obtain ⟨earlier, h, before, at_, isJti, isPair⟩ := issued
  exact ⟨h.endpoint, earlier, h, before, at_, isJti, rfl, congrArg Stage.isPast isPair⟩

/-- The answer with the pair is there at the end of the run. -/
theorem everIssued_stays {events : List Event} {jti : String} {n : Nat}
    {access refresh : IssuedToken libs.toTokenLib}
    (issued : EverIssued libs events jti n access refresh) :
    ∃ h, ((tracker libs).run events).requests[n]? = some h ∧
      h.stage.IssuedPair access refresh := by
  obtain ⟨earlier, h, before, at_, -, isPair⟩ := issued
  obtain ⟨later, laterAt, follows⟩ := run_follows before at_
  exact ⟨later, laterAt, follows.answered _ isPair⟩

theorem blocked_by_request {events : List Event} {hash : Bytes}
    (blocked : hash ∈ blockedHashes ((tracker libs).run events).db) :
    ∃ h ∈ ((tracker libs).run events).requests, revokedHash h = some hash := by
  have shown := (tallied events).tally.mem_iff.mp blocked
  exact List.mem_filterMap.mp shown

/-- **Refresh and pre-auth tokens are single-use under any interleaving.** -/
theorem single_use (libs : Libraries V) (events : List Event) (jti : String)
    (injective : ∀ h ∈ ((tracker libs).run events).requests,
      ∀ h' ∈ ((tracker libs).run events).requests,
        h.jti.map libs.sha256 = h'.jti.map libs.sha256 → h.jti = h'.jti) :
    SingleUse libs events jti := by
  have t : Tallied ((tracker libs).run events) := tallied events
  have once : (blockedHashes ((tracker libs).run events).db).Nodup :=
    t.constraints.refreshTokenBlocklist
  have shownOnce := t.tally.nodup_iff.mp once
  have onePasses : ∀ n m endpoint endpoint', EverPast libs events jti n endpoint →
      EverPast libs events jti m endpoint' → n = m := by
    intro n m endpoint endpoint' first second
    obtain ⟨h, at_, -, shows⟩ := everPast_shows first
    obtain ⟨h', at_', -, shows'⟩ := everPast_shows second
    exact position_unique shownOnce at_ shows at_' shows'
  refine ⟨onePasses, ?_, ?_, ?_, ?_, ?_⟩
  · intro n m access refresh access' refresh' first second
    obtain ⟨endpoint, past⟩ := everIssued_everPast first
    obtain ⟨endpoint', past'⟩ := everIssued_everPast second
    have same := onePasses n m _ _ past past'
    subst same
    obtain ⟨h, at_, isPair⟩ := everIssued_stays first
    obtain ⟨h', at_', isPair'⟩ := everIssued_stays second
    rw [at_] at at_'
    cases at_'
    have pair := Stage.answered.inj (isPair.symm.trans isPair')
    exact ⟨rfl, Response.tokens.inj pair⟩
  · intro n m access refresh loggedOut issued
    obtain ⟨endpoint, past⟩ := everIssued_everPast issued
    have same := onePasses n m _ _ loggedOut past
    subst same
    obtain ⟨h, at_, isLogout, -⟩ := everPast_shows loggedOut
    obtain ⟨h', at_', isPair⟩ := everIssued_stays issued
    rw [at_] at at_'
    cases at_'
    exact logsOutOnly events h (List.mem_of_getElem? at_) isLogout access refresh isPair
  · exact List.nodup_iff_count_le_one.mp once _
  · intro n endpoint everPast
    obtain ⟨h, at_, -, shows⟩ := everPast_shows everPast
    have shown := List.mem_filterMap.mpr ⟨h, List.mem_of_getElem? at_, shows⟩
    exact List.count_eq_one_of_mem once (t.tally.mem_iff.mpr shown)
  · intro h listed other _ isJti refused
    have blocked := (t.consistent h listed).refusal other isJti refused
    obtain ⟨h', listed', shows⟩ := blocked_by_request blocked
    unfold revokedHash at shows
    by_cases revoked : h'.stage.hasRevoked = true
    · rw [if_pos revoked] at shows
      have same : h'.jti = h.jti := by
        refine injective h' listed' h listed ?_
        rw [shows, isJti]
        rfl
      exact ⟨h', listed', same.trans isJti, revoked⟩
    · rw [if_neg revoked] at shows
      cases shows

end Run

/-! ## A token presented three times -/

def replayed : Payload :=
  (tokenPayload 0 1 .refresh refreshTokenTtlSeconds).set "jti" (.str "a1")

def unrelated : Payload :=
  (tokenPayload 0 2 .refresh refreshTokenTtlSeconds).set "jti" (.str "b2")

def replayLibs : Libraries Unit where
  toTokenLib := recordingLib [replayed, unrelated] sampleDigest
  srp := ⟨fun _ _ _ _ _ => (), fun _ => none, fun _ _ => (none, ()), fun _ => false⟩
  aead := ⟨fun _ plaintext => plaintext, fun _ ciphertext => some ciphertext⟩
  pyotp := ⟨fun _ _ _ _ => false, fun _ _ _ => ""⟩

/-- Two refreshes and a logout pass the lookup with one token; the logout inserts
first.  A refresh with another token goes on in between. -/
def replay : List Event :=
  [.arrive .refresh (payloadText replayed) 5, .arrive .logout (payloadText replayed) 5,
    .arrive .refresh (payloadText unrelated) 6, .arrive .refresh (payloadText replayed) 7,
    .revoke 1, .revoke 2, .revoke 0, .answer 2 { jti := "c3" }, .revoke 3, .answer 1 {}]

theorem single_use_replay : SingleUse replayLibs replay "a1" :=
  single_use replayLibs replay "a1" (by decide)

example : ((tracker replayLibs).run replay).requests.map (fun h => h.stage.isPast) =
    [false, true, true, false] := by decide

end SecureMsg.Auth
