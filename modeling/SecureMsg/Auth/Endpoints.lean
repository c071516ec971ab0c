/-
# Auth.Endpoints — `app/api/auth.py` and the token dependencies of `app/api/deps.py`

Registration, the SRP handshake, the second factor, refresh, logout and account
deletion.  The two single-use dependencies are one: `consumeToken` verifies a
token in one transaction and revokes it in a second one, before the endpoint
runs.

Bodies are taken after validation, so their fields are of the types the schemas
accept.  What a request reads from outside (clocks, random draws) is its
`Reading`.

`serve_challenge`, `serve_verified` and `serve_tokens` say what stands behind a
challenge and behind every answer that carries a token.
-/
import SecureMsg.Auth.Totp
import SecureMsg.Auth.SrpSession
import SecureMsg.Repository.Personal

namespace SecureMsg.Auth

open SecureMsg.Theory SecureMsg.Store SecureMsg.Repository

set_option autoImplicit false

/-! ## Bodies -/

/-- `^[0-9a-fA-F]+$`. -/
def IsHex (text : String) : Prop :=
  text ≠ "" ∧ text.toList.all fun c =>
    c.isDigit || ('a' ≤ c && c ≤ 'f') || ('A' ≤ c && c ≤ 'F')

/-- `^[a-zA-Z0-9]+$`, 3 to 32 characters. -/
def IsUsername (text : String) : Prop :=
  3 ≤ text.length ∧ text.length ≤ 32 ∧ text.toList.all Char.isAlphanum

/-- `^[0-9]{6}$`. -/
def IsTotpCode (text : String) : Prop :=
  text.length = 6 ∧ text.toList.all Char.isDigit

instance (text : String) : Decidable (IsHex text) := inferInstanceAs (Decidable (_ ∧ _))
instance (text : String) : Decidable (IsUsername text) := inferInstanceAs (Decidable (_ ∧ _))
instance (text : String) : Decidable (IsTotpCode text) := inferInstanceAs (Decidable (_ ∧ _))

abbrev Hex := { text : String // IsHex text }
abbrev Username := { text : String // IsUsername text }
abbrev TotpCode := { text : String // IsTotpCode text }

theorem Hex.sendable (text : Hex) : Sendable text.val := by
  intro nul
  have digit := List.all_eq_true.mp text.property.2 _ nul
  revert digit
  decide

theorem Username.sendable (username : Username) : Sendable username.val := by
  intro nul
  have letter := List.all_eq_true.mp username.property.2.2 _ nul
  revert letter
  decide

structure RegisterRequest where
  username : Username
  srpSalt : Hex
  srpVerifier : Hex

structure SRPInitRequest where
  username : Username
  clientPublic : Hex

structure SRPVerifyRequest where
  sessionId : String
  clientProof : Hex

structure VerifyTOTPRequest where
  totpCode : TotpCode
  preAuthToken : String

inductive Request where
  | register (body : RegisterRequest)
  | srpInit (body : SRPInitRequest)
  | srpVerify (body : SRPVerifyRequest)
  | verify2fa (body : VerifyTOTPRequest)
  | refresh (refreshToken : String)
  | logout (refreshToken : String)
  | deleteMe (credentials : String)
  /-- A committed repository call of an endpoint that handles no token. -/
  | elsewhere (op : Operation)

/-! ## Surroundings -/

structure Libraries (V : Type) extends TokenLib where
  srp : SrpLib V
  aead : Aead
  pyotp : Pyotp

/-- What one request reads from outside while it is served. -/
structure Reading where
  /-- The wall clock in `jwt.decode`. -/
  decodedAt : Rat := 0
  /-- The wall clock when the pre-auth or the access token is issued. -/
  issuedAt : Rat := 0
  refreshIssuedAt : Rat := 0
  codeCheckedAt : Rat := 0
  jti : String := ""
  srp : SrpReading := {}
  totpSecret : String := ""
  totpNonce : Bytes := []
  verifierNonce : Bytes := []

structure Step where
  request : Request
  reading : Reading := {}

structure State (V : Type) where
  db : Database := {}
  sessions : Sessions V := Dict.empty

inductive Response (lib : TokenLib) where
  | registered (userId : UserId) (totpProvisioningUri : String)
  | challenge (sessionId srpSalt serverPublic : String)
  | verified (serverProof : String) (preAuthToken : IssuedToken lib)
  | tokens (accessToken refreshToken : IssuedToken lib)
  | noContent
  | httpException (status : Nat) (detail : String)
  /-- An exception no handler catches: the framework answers 500. -/
  | unhandled (raised : Raised)

/-! ## Dependencies -/

section Dependencies

variable {lib : TokenLib}

/-- The `except InvalidTokenError` clause of a dependency. -/
def refuse (detail : String) : Raised → Response lib
  | .invalidToken _ => .httpException 401 detail
  | raised => .unhandled raised

def loadUser (db : Database) (claims : TokenClaims) : Except (Response lib) User :=
  match claims.userId with
  | .error raised => .error (.unhandled raised)
  | .ok userId =>
      match getUserById db userId with
      | none => .error (.httpException 401 "User not found")
      | some user => .ok user

variable (lib)

def getCurrentUser (db : Database) (now : Rat) (credentials : String) :
    Except (Response lib) User :=
  match verifyToken lib db now credentials .full with
  | .error raised => .error (refuse "Invalid token" raised)
  | .ok claims => loadUser db claims

/-- Verify, then revoke: what the two single-use dependencies share. -/
def consumeToken (db : Database) (now : Rat) (token : String) (expectedScope : Scope)
    (detail : String) : Database × Except (Response lib) TokenClaims :=
  match verifyToken lib db now token expectedScope with
  | .error raised => (db, .error (refuse detail raised))
  | .ok claims =>
      match revokeToken lib db claims with
      | .error raised => (db, .error (.unhandled raised))
      | .ok after => (after, .ok claims)

def requireValidRefresh (db : Database) (now : Rat) (refreshToken : String) :
    Database × Except (Response lib) TokenClaims :=
  consumeToken lib db now refreshToken .refresh "Invalid refresh token"

/-- The token stays revoked when the user is not found. -/
def requirePreauthUser (db : Database) (now : Rat) (preAuthToken : String) :
    Database × Except (Response lib) User :=
  match consumeToken lib db now preAuthToken .totpOnly "Invalid pre-auth token" with
  | (after, .error response) => (after, .error response)
  | (after, .ok claims) => (after, loadUser after claims)

end Dependencies

/-! ## Endpoints -/

section Endpoints

variable {V : Type} (libs : Libraries V)

def register (st : State V) (reading : Reading) (body : RegisterRequest) :
    State V × Response libs.toTokenLib :=
  if (getUserByUsername st.db body.username).isSome then
    (st, .httpException 409 "Username taken")
  else
    match fromHex body.srpVerifier with
    | none => (st, .unhandled notHexadecimal)
    | some verifier =>
        let totpEnc := encrypt libs.aead reading.totpNonce (encodeText reading.totpSecret)
        let verifierEnc := encrypt libs.aead reading.verifierNonce verifier
        match createUser st.db body.username body.srpSalt verifierEnc totpEnc with
        | .ok (after, userId) =>
            ({ st with db := after },
              .registered userId (getProvisioningUri libs.pyotp reading.totpSecret body.username))
        | .error raised => (st, .unhandled (.repository raised))

/-- Every failure is answered alike; the session table keeps what `srp_init` did. -/
def srpInitEndpoint (st : State V) (reading : Reading) (body : SRPInitRequest) :
    State V × Response libs.toTokenLib :=
  match getUserByUsername st.db body.username with
  | none => (st, .httpException 401 "Invalid credentials")
  | some user =>
      match decrypt libs.aead user.srpVerifierEnc with
      | none => (st, .httpException 401 "Invalid credentials")
      | some verifier =>
          let (sessions, result) := srpInit libs.srp reading.srp st.sessions body.username
            user.srpSalt (toHex verifier) body.clientPublic
          ({ st with sessions := sessions },
            match result with
            | .ok (sessionId, salt, serverPublic) => .challenge sessionId salt serverPublic
            | .error _ => .httpException 401 "Invalid credentials")

def srpVerifyEndpoint (st : State V) (reading : Reading) (body : SRPVerifyRequest) :
    State V × Response libs.toTokenLib :=
  let (sessions, result) := srpVerify libs.srp reading.srp st.sessions body.sessionId
    body.clientProof
  ({ st with sessions := sessions },
    match result with
    | .error (.valueError _) => .httpException 401 "Invalid credentials"
    | .error raised => .unhandled raised
    | .ok (username, serverProof) =>
        match getUserByUsername st.db username with
        | none => .httpException 401 "Invalid credentials"
        | some user =>
            .verified serverProof
              (issuePreauthToken libs.toTokenLib reading.issuedAt reading.jti user.id))

/-- `decrypt(user.totp_secret_enc).decode()`. -/
def storedTotpSecret (aead : Aead) (user : User) : Option String :=
  (decrypt aead user.totpSecretEnc).bind decodeText

def issuePair (lib : TokenLib) (reading : Reading) (userId : UserId) : Response lib :=
  .tokens (issueAccessToken lib reading.issuedAt userId)
    (issueRefreshToken lib reading.refreshIssuedAt reading.jti userId)

def verify2fa (reading : Reading) (totpCode : TotpCode) (user : User) :
    Response libs.toTokenLib :=
  match storedTotpSecret libs.aead user with
  | none => .unhandled .undecryptable
  | some totpSecret =>
      if verifyTotp libs.pyotp reading.codeCheckedAt totpSecret totpCode then
        issuePair libs.toTokenLib reading user.id
      else .httpException 401 "Invalid TOTP code"

def refreshTokens (lib : TokenLib) (reading : Reading) (claims : TokenClaims) : Response lib :=
  match claims.userId with
  | .error raised => .unhandled raised
  | .ok userId => issuePair lib reading userId

/-- The user id is read for the log line. -/
def logout (lib : TokenLib) (claims : TokenClaims) : Response lib :=
  match claims.userId with
  | .error raised => .unhandled raised
  | .ok _ => .noContent

def deleteMe (lib : TokenLib) (db : Database) (currentUser : User) : Database × Response lib :=
  match deleteUser db currentUser.id with
  | .ok (after, deleted) =>
      (after, if deleted then .noContent else .httpException 404 "User not found")
  | .error raised => (db, .unhandled (.repository raised))

/-- The answer of an endpoint behind a dependency. -/
def andThen {α : Type} {lib : TokenLib} (dependency : Except (Response lib) α)
    (handler : α → Response lib) : Response lib :=
  match dependency with
  | .ok value => handler value
  | .error response => response

def serve (st : State V) (s : Step) : State V × Response libs.toTokenLib :=
  match s.request with
  | .register body => register libs st s.reading body
  | .srpInit body => srpInitEndpoint libs st s.reading body
  | .srpVerify body => srpVerifyEndpoint libs st s.reading body
  | .verify2fa body =>
      let (after, user) :=
        requirePreauthUser libs.toTokenLib st.db s.reading.decodedAt body.preAuthToken
      ({ st with db := after }, andThen user (verify2fa libs s.reading body.totpCode))
  | .refresh refreshToken =>
      let (after, claims) :=
        requireValidRefresh libs.toTokenLib st.db s.reading.decodedAt refreshToken
      ({ st with db := after }, andThen claims (refreshTokens libs.toTokenLib s.reading))
  | .logout refreshToken =>
      let (after, claims) :=
        requireValidRefresh libs.toTokenLib st.db s.reading.decodedAt refreshToken
      ({ st with db := after }, andThen claims (logout libs.toTokenLib))
  | .deleteMe credentials =>
      match getCurrentUser libs.toTokenLib st.db s.reading.decodedAt credentials with
      | .error response => (st, response)
      | .ok currentUser =>
          let (after, response) := deleteMe libs.toTokenLib st.db currentUser
          ({ st with db := after }, response)
  | .elsewhere op => ({ st with db := commit st.db op }, .noContent)

/-- The service from an empty database and no handshake. -/
def loginService : System (State V) Step := ⟨{}, fun st s => (serve libs st s).1⟩

end Endpoints

/-! ## What stands behind an answer -/

/-- A token was verified, then revoked. -/
structure Consumed (lib : TokenLib) (db : Database) (now : Rat) (token : String) (scope : Scope)
    (claims : TokenClaims) (after : Database) : Prop where
  verified : verifyToken lib db now token scope = .ok claims
  revoked : revokeToken lib db claims = .ok after

section Answers

variable {V : Type} {libs : Libraries V} {st : State V} {s : Step}

/-- The three ways a single-use dependency ends. -/
inductive ConsumeOutcome (lib : TokenLib) (db : Database) (now : Rat) (token : String)
    (scope : Scope) (detail : String) : Database × Except (Response lib) TokenClaims → Prop where
  | refused (raised : Raised) (refused : verifyToken lib db now token scope = .error raised) :
      ConsumeOutcome lib db now token scope detail (db, .error (refuse detail raised))
  | rejected (claims : TokenClaims) (raised : Raised)
      (verified : verifyToken lib db now token scope = .ok claims)
      (rejected : revokeToken lib db claims = .error raised) :
      ConsumeOutcome lib db now token scope detail (db, .error (.unhandled raised))
  | consumed (claims : TokenClaims) (after : Database)
      (consumed : Consumed lib db now token scope claims after) :
      ConsumeOutcome lib db now token scope detail (after, .ok claims)

theorem consumeToken_cases (lib : TokenLib) (db : Database) (now : Rat) (token : String)
    (scope : Scope) (detail : String) : ConsumeOutcome lib db now token scope detail
      (consumeToken lib db now token scope detail) := by
  unfold consumeToken
  cases verified : verifyToken lib db now token scope with
  | error raised => exact .refused raised verified
  | ok claims =>
      dsimp only
      cases revoked : revokeToken lib db claims with
      | error raised => exact .rejected claims raised verified revoked
      | ok after => exact .consumed claims after ⟨verified, revoked⟩

theorem consumeToken_ok {lib : TokenLib} {db : Database} {now : Rat} {token detail : String}
    {scope : Scope} {claims : TokenClaims}
    (passed : (consumeToken lib db now token scope detail).2 = .ok claims) :
    Consumed lib db now token scope claims (consumeToken lib db now token scope detail).1 := by
  have outcome := consumeToken_cases lib db now token scope detail
  generalize consumeToken lib db now token scope detail = result at passed outcome ⊢
  cases outcome with
  | refused => cases passed
  | rejected => cases passed
  | consumed found after consumed =>
      cases passed
      exact consumed

theorem loadUser_ok {lib : TokenLib} {db : Database} {claims : TokenClaims} {user : User}
    (loaded : (loadUser db claims : Except (Response lib) User) = .ok user) :
    claims.userId = .ok user.id ∧ getUserById db user.id = some user := by
  unfold loadUser at loaded
  cases isId : claims.userId with
  | error raised =>
      rw [isId] at loaded
      cases loaded
  | ok userId =>
      rw [isId] at loaded
      dsimp only at loaded
      cases found : getUserById db userId with
      | none =>
          rw [found] at loaded
          cases loaded
      | some row =>
          rw [found] at loaded
          cases loaded
          obtain ⟨rfl, -⟩ := getUserById_some found
          exact ⟨rfl, found⟩

/-- An error status: what a dependency that raises answers with. -/
def Response.IsFailure {lib : TokenLib} : Response lib → Prop
  | .httpException _ _ | .unhandled _ => True
  | _ => False

theorem refuse_isFailure {lib : TokenLib} (detail : String) (raised : Raised) :
    (refuse detail raised : Response lib).IsFailure := by
  cases raised with
  | _ => trivial

theorem consumeToken_error {lib : TokenLib} {db : Database} {now : Rat} {token detail : String}
    {scope : Scope} {response : Response lib}
    (failed : (consumeToken lib db now token scope detail).2 = .error response) :
    response.IsFailure := by
  have outcome := consumeToken_cases lib db now token scope detail
  generalize consumeToken lib db now token scope detail = result at failed outcome
  cases outcome with
  | refused raised =>
      cases failed
      exact refuse_isFailure detail raised
  | rejected =>
      cases failed
      trivial
  | consumed => cases failed

theorem loadUser_error {lib : TokenLib} {db : Database} {claims : TokenClaims}
    {response : Response lib} (failed : loadUser db claims = .error response) :
    response.IsFailure := by
  unfold loadUser at failed
  split at failed
  · cases failed
    trivial
  · split at failed
    · cases failed
      trivial
    · cases failed

theorem getCurrentUser_error {lib : TokenLib} {db : Database} {now : Rat} {credentials : String}
    {response : Response lib} (failed : getCurrentUser lib db now credentials = .error response) :
    response.IsFailure := by
  unfold getCurrentUser at failed
  split at failed
  · cases failed
    exact refuse_isFailure _ _
  · exact loadUser_error failed

theorem getCurrentUser_ok {lib : TokenLib} {db : Database} {now : Rat} {credentials : String}
    {user : User} (passed : getCurrentUser lib db now credentials = .ok user) :
    ∃ claims, verifyToken lib db now credentials .full = .ok claims ∧
      claims.userId = .ok user.id ∧ getUserById db user.id = some user := by
  unfold getCurrentUser at passed
  cases verified : verifyToken lib db now credentials .full with
  | error raised =>
      rw [verified] at passed
      cases passed
  | ok claims =>
      rw [verified] at passed
      exact ⟨claims, rfl, loadUser_ok passed⟩

/-- The two single-use dependencies, read from what they returned. -/
theorem requirePreauthUser_ok {lib : TokenLib} {db : Database} {now : Rat} {token : String}
    {user : User} (passed : (requirePreauthUser lib db now token).2 = .ok user) :
    ∃ claims, Consumed lib db now token .totpOnly claims (requirePreauthUser lib db now token).1 ∧
      claims.userId = .ok user.id ∧
      getUserById (requirePreauthUser lib db now token).1 user.id = some user := by
  unfold requirePreauthUser at passed ⊢
  match consumed : consumeToken lib db now token .totpOnly "Invalid pre-auth token" with
  | (after, .error response) =>
      rw [consumed] at passed
      cases passed
  | (after, .ok claims) =>
      rw [consumed] at passed
      have isOk := consumeToken_ok (congrArg Prod.snd consumed)
      rw [consumed] at isOk
      obtain ⟨subject, found⟩ := loadUser_ok passed
      exact ⟨claims, isOk, subject, found⟩

theorem requirePreauthUser_error {lib : TokenLib} {db : Database} {now : Rat} {token : String}
    {response : Response lib} (failed : (requirePreauthUser lib db now token).2 = .error response) :
    response.IsFailure := by
  unfold requirePreauthUser at failed
  match consumed : consumeToken lib db now token .totpOnly "Invalid pre-auth token" with
  | (after, .error raised) =>
      rw [consumed] at failed
      cases failed
      exact consumeToken_error (congrArg Prod.snd consumed)
  | (after, .ok claims) =>
      rw [consumed] at failed
      exact loadUser_error failed

/-- What a step that answered with a token pair did. -/
inductive PairIssued (libs : Libraries V) (st : State V) (s : Step)
    (access refresh : IssuedToken libs.toTokenLib) : Prop where
  | secondFactor (body : VerifyTOTPRequest) (claims : TokenClaims) (user : User)
      (totpSecret : String) (request : s.request = .verify2fa body)
      (consumed : Consumed libs.toTokenLib st.db s.reading.decodedAt body.preAuthToken .totpOnly
        claims (serve libs st s).1.db)
      (subject : claims.userId = .ok user.id) (found : getUserById st.db user.id = some user)
      (stored : storedTotpSecret libs.aead user = some totpSecret)
      (accepted : verifyTotp libs.pyotp s.reading.codeCheckedAt totpSecret body.totpCode = true)
      (pair : issuePair libs.toTokenLib s.reading user.id = .tokens access refresh)
  | refreshed (refreshToken : String) (claims : TokenClaims) (userId : UserId)
      (request : s.request = .refresh refreshToken)
      (consumed : Consumed libs.toTokenLib st.db s.reading.decodedAt refreshToken .refresh claims
        (serve libs st s).1.db)
      (subject : claims.userId = .ok userId)
      (pair : issuePair libs.toTokenLib s.reading userId = .tokens access refresh)

/-- An answer from behind a dependency that is no failure is the endpoint's. -/
theorem andThen_eq {α : Type} {lib : TokenLib} {dependency : Except (Response lib) α}
    {handler : α → Response lib} {response : Response lib}
    (answer : andThen dependency handler = response) (success : ¬ response.IsFailure)
    (fails : ∀ r, dependency = .error r → r.IsFailure) :
    ∃ value, dependency = .ok value ∧ handler value = response := by
  cases dependency with
  | error raised => exact absurd (answer ▸ fails raised rfl) success
  | ok value => exact ⟨value, rfl, answer⟩

/-- The users are not touched by a revocation. -/
theorem Consumed.users {lib : TokenLib} {db after : Database} {now : Rat} {token : String}
    {scope : Scope} {claims : TokenClaims} (consumed : Consumed lib db now token scope claims after) :
    after.users = db.users := by
  obtain ⟨jti, exp, -, -, rfl⟩ := revokeToken_ok consumed.revoked
  rfl

theorem Consumed.passes {lib : TokenLib} {db after : Database} {now : Rat} {token : String}
    {scope : Scope} {claims : TokenClaims} (consumed : Consumed lib db now token scope claims after)
    (detail : String) : consumeToken lib db now token scope detail = (after, .ok claims) := by
  unfold consumeToken
  rw [consumed.verified]
  dsimp only
  rw [consumed.revoked]

theorem Consumed.ne {lib : TokenLib} {db after : Database} {now : Rat} {token : String}
    {scope : Scope} {claims : TokenClaims} (consumed : Consumed lib db now token scope claims after) :
    after ≠ db := by
  obtain ⟨jti, exp, -, -, rfl⟩ := revokeToken_ok consumed.revoked
  intro same
  have longer := congrArg (fun d => d.refreshTokenBlocklist.length) same
  simp at longer

/-- The successes an endpoint declares as its `response_model` or status code. -/
def Request.Answers {lib : TokenLib} : Request → Response lib → Prop
  | .register _, .registered _ _ => True
  | .srpInit _, .challenge _ _ _ => True
  | .srpVerify _, .verified _ _ => True
  | .verify2fa _, .tokens _ _ | .refresh _, .tokens _ _ => True
  | .logout _, .noContent | .deleteMe _, .noContent | .elsewhere _, .noContent => True
  | _, response => response.IsFailure

theorem answers_of_isFailure {lib : TokenLib} {request : Request} {response : Response lib}
    (failure : response.IsFailure) : request.Answers response := by
  cases response with
  | httpException status detail => cases request with | _ => trivial
  | unhandled raised => cases request with | _ => trivial
  | _ => cases failure

theorem answers_andThen {α : Type} {lib : TokenLib} {request : Request}
    {dependency : Except (Response lib) α} {handler : α → Response lib}
    (fails : ∀ r, dependency = .error r → r.IsFailure)
    (answers : ∀ value, request.Answers (handler value)) :
    request.Answers (andThen dependency handler) := by
  cases dependency with
  | error raised => exact answers_of_isFailure (fails raised rfl)
  | ok value => exact answers value

/-- **Every answer is an error or what the endpoint declares.** -/
theorem serve_answers (libs : Libraries V) (st : State V) (s : Step) :
    s.request.Answers (serve libs st s).2 := by
  obtain ⟨request, reading⟩ := s
  cases request with
  | register body =>
      unfold serve register
      dsimp only
      split
      · trivial
      · split
        · trivial
        · split
          · trivial
          · trivial
  | srpInit body =>
      unfold serve srpInitEndpoint
      dsimp only
      split
      · trivial
      · split
        · trivial
        · dsimp only
          split
          · trivial
          · trivial
  | srpVerify body =>
      unfold serve srpVerifyEndpoint
      dsimp only
      split
      · trivial
      · trivial
      · split
        · trivial
        · trivial
  | verify2fa body =>
      refine answers_andThen (fun r => requirePreauthUser_error) fun user => ?_
      unfold verify2fa
      split
      · trivial
      · split
        · trivial
        · trivial
  | refresh refreshToken =>
      refine answers_andThen (fun r => consumeToken_error) fun claims => ?_
      unfold refreshTokens
      split
      · trivial
      · trivial
  | logout refreshToken =>
      refine answers_andThen (fun r => consumeToken_error) fun claims => ?_
      unfold logout
      split
      · trivial
      · trivial
  | deleteMe credentials =>
      unfold serve deleteMe
      dsimp only
      split
      case h_1 failed => exact answers_of_isFailure (getCurrentUser_error failed)
      case h_2 =>
          split
          · dsimp only
            split
            · trivial
            · trivial
          · trivial
  | elsewhere op => trivial

theorem serve_tokens {access refresh : IssuedToken libs.toTokenLib}
    (answer : (serve libs st s).2 = .tokens access refresh) : PairIssued libs st s access refresh := by
  have answers := serve_answers libs st s
  rw [answer] at answers
  obtain ⟨request, reading⟩ := s
  cases request with
  | verify2fa body =>
      obtain ⟨user, passed, answered⟩ := andThen_eq answer id fun r => requirePreauthUser_error
      obtain ⟨claims, consumed, subject, found⟩ := requirePreauthUser_ok passed
      rw [getUserById, consumed.users] at found
      unfold verify2fa at answered
      cases stored : storedTotpSecret libs.aead user with
      | none =>
          rw [stored] at answered
          cases answered
      | some totpSecret =>
          rw [stored] at answered
          dsimp only at answered
          by_cases accepted :
              verifyTotp libs.pyotp reading.codeCheckedAt totpSecret body.totpCode = true
          · rw [if_pos accepted] at answered
            exact .secondFactor body claims user totpSecret rfl consumed subject found stored accepted
              answered
          · rw [if_neg accepted] at answered
            cases answered
  | refresh refreshToken =>
      obtain ⟨claims, passed, answered⟩ := andThen_eq answer id fun r => consumeToken_error
      have consumed := consumeToken_ok passed
      unfold refreshTokens at answered
      cases subject : claims.userId with
      | error raised =>
          rw [subject] at answered
          cases answered
      | ok userId =>
          rw [subject] at answered
          exact .refreshed refreshToken claims userId rfl consumed subject answered
  | _ => cases answers

/-- What a step that answered with a challenge did. -/
theorem serve_challenge {sessionId srpSalt serverPublic : String}
    (answer : (serve libs st s).2 = .challenge sessionId srpSalt serverPublic) :
    ∃ body user srpVerifier salt clientPublic, s.request = .srpInit body ∧
      getUserByUsername st.db body.username = some user ∧
      decrypt libs.aead user.srpVerifierEnc = some srpVerifier ∧
      fromHex user.srpSalt = some salt ∧ fromHex body.clientPublic = some clientPublic ∧
      (serve libs st s).1.sessions =
        (purgeExpired st.sessions s.reading.srp.purgedAt).set sessionId
          ⟨body.username,
            libs.srp.verifier body.username salt srpVerifier clientPublic s.reading.srp.secret,
            s.reading.srp.readAt + srpSessionTtlSeconds⟩ := by
  have answers := serve_answers libs st s
  rw [answer] at answers
  obtain ⟨request, reading⟩ := s
  cases request with
  | srpInit body =>
      unfold serve srpInitEndpoint at answer ⊢
      dsimp only at answer ⊢
      split at answer
      · cases answer
      · next user found =>
          split at answer
          · cases answer
          · next srpVerifier decrypted =>
              dsimp only at answer
              split at answer
              · next id salt public_ opened =>
                  cases answer
                  obtain ⟨salt, clientPublic, isSalt, isPublic, stored⟩ := srpInit_ok opened
                  exact ⟨body, user, srpVerifier, salt, clientPublic, rfl, found, decrypted, isSalt,
                    isPublic, stored⟩
              · cases answer
  | _ => cases answers

/-- What a step that answered with a pre-auth token did. -/
theorem serve_verified {serverProof : String} {token : IssuedToken libs.toTokenLib}
    (answer : (serve libs st s).2 = .verified serverProof token) :
    ∃ body entry user, s.request = .srpVerify body ∧
      st.sessions.get? body.sessionId = some entry ∧ Live s.reading.srp entry ∧
      ProofAccepted libs.srp entry body.clientProof ∧
      getUserByUsername st.db entry.username = some user ∧
      token = issuePreauthToken libs.toTokenLib s.reading.issuedAt s.reading.jti user.id := by
  have answers := serve_answers libs st s
  rw [answer] at answers
  obtain ⟨request, reading⟩ := s
  cases request with
  | srpVerify body =>
      unfold serve srpVerifyEndpoint at answer
      dsimp only at answer
      split at answer
      · cases answer
      · cases answer
      · next username proof accepted =>
          obtain ⟨entry, stored, sameName, live, isAccepted⟩ := srpVerify_ok accepted
          split at answer
          · cases answer
          · next user found =>
              cases answer
              exact ⟨body, entry, user, rfl, stored, live, isAccepted, sameName ▸ found, rfl⟩
  | _ => cases answers

/-- A successful logout has consumed its token. -/
theorem serve_logout {refreshToken : String} (request : s.request = .logout refreshToken)
    (answer : (serve libs st s).2 = .noContent) :
    ∃ claims, Consumed libs.toTokenLib st.db s.reading.decodedAt refreshToken .refresh claims
      (serve libs st s).1.db := by
  obtain ⟨isRequest, reading⟩ := s
  cases request
  obtain ⟨claims, passed, -⟩ := andThen_eq answer id fun r => consumeToken_error
  exact ⟨claims, consumeToken_ok passed⟩

/-! ## What a request commits -/

/-- Nothing is committed, or one repository call. -/
def CommitsOnce (db after : Database) : Prop :=
  after = db ∨ ∃ op, after = commit db op

theorem consumeToken_commits {lib : TokenLib} {db : Database} {now : Rat} {token detail : String}
    {scope : Scope} : CommitsOnce db (consumeToken lib db now token scope detail).1 := by
  have outcome := consumeToken_cases lib db now token scope detail
  generalize consumeToken lib db now token scope detail = result at outcome ⊢
  cases outcome with
  | refused => exact Or.inl rfl
  | rejected => exact Or.inl rfl
  | consumed claims after consumed =>
      obtain ⟨jti, exp, -, -, inserted⟩ := revokeToken_inserts consumed.revoked
      have done : perform db (.blockRefreshToken (lib.sha256 jti) exp) = .ok after := inserted
      exact Or.inr ⟨_, (commit_ok done).symm⟩

theorem requirePreauthUser_fst {lib : TokenLib} {db : Database} {now : Rat} {token : String} :
    (requirePreauthUser lib db now token).1 =
      (consumeToken lib db now token .totpOnly "Invalid pre-auth token").1 := by
  unfold requirePreauthUser
  split
  case h_1 consumed => rw [consumed]
  case h_2 consumed => rw [consumed]

/-- `register` calls `create_user` or leaves the database as it is. -/
theorem register_db (libs : Libraries V) (st : State V) (reading : Reading) (body : RegisterRequest) :
    (register libs st reading body).1.db = st.db ∨ ∃ srpVerifierEnc totpSecretEnc,
      perform st.db (.createUser body.username body.srpSalt srpVerifierEnc totpSecretEnc) =
        .ok (register libs st reading body).1.db := by
  unfold register
  split
  · exact Or.inl rfl
  · split
    · exact Or.inl rfl
    · next verifier isHex =>
        dsimp only
        split
        case h_1 after userId created =>
            refine Or.inr ⟨encrypt libs.aead reading.verifierNonce verifier,
              encrypt libs.aead reading.totpNonce (encodeText reading.totpSecret), ?_⟩
            rw [perform, created]
            rfl
        case h_2 => exact Or.inl rfl

theorem srpInitEndpoint_db (libs : Libraries V) (st : State V) (reading : Reading)
    (body : SRPInitRequest) : (srpInitEndpoint libs st reading body).1.db = st.db := by
  unfold srpInitEndpoint
  split
  · rfl
  · split
    · rfl
    · rfl

/-- **A request commits at most one repository call.** -/
theorem serve_commits (libs : Libraries V) (st : State V) (s : Step) :
    CommitsOnce st.db (serve libs st s).1.db := by
  obtain ⟨request, reading⟩ := s
  cases request with
  | register body =>
      rcases register_db libs st reading body with same | ⟨srpVerifierEnc, totpSecretEnc, done⟩
      · exact Or.inl same
      · exact Or.inr ⟨_, (commit_ok done).symm⟩
  | srpInit body => exact Or.inl (srpInitEndpoint_db libs st reading body)
  | srpVerify body => exact Or.inl rfl
  | verify2fa body =>
      show CommitsOnce st.db (requirePreauthUser _ st.db _ _).1
      rw [requirePreauthUser_fst]
      exact consumeToken_commits
  | refresh refreshToken => exact consumeToken_commits
  | logout refreshToken => exact consumeToken_commits
  | deleteMe credentials =>
      unfold serve deleteMe
      dsimp only
      split
      · exact Or.inl rfl
      · next currentUser authenticated =>
          split
          case h_1 after wasThere deleted =>
              have done : perform st.db (.deleteUser currentUser.id) = .ok after := by
                rw [perform, deleted]
                rfl
              exact Or.inr ⟨_, (commit_ok done).symm⟩
          case h_2 => exact Or.inl rfl
  | elsewhere op => exact Or.inr ⟨op, rfl⟩

theorem CommitsOnce.users {db after : Database} (c : Constraints db)
    (commits : CommitsOnce db after) : UsersChange db after := by
  rcases commits with rfl | ⟨op, rfl⟩
  · exact .refl _
  · exact commit_keeps (.refl db) fun _ done => perform_users c done

/-- **The database is one the repositories reach.** -/
theorem login_reaches (libs : Libraries V) (steps : List Step) :
    ∃ ops, ((loginService libs).run steps).db = service.run ops := by
  induction steps using List.reverseRecOn with
  | nil => exact ⟨[], rfl⟩
  | append_singleton steps s ih =>
      obtain ⟨ops, same⟩ := ih
      rw [System.run_snoc]
      rcases serve_commits libs ((loginService libs).run steps) s with quiet | ⟨op, committed⟩
      · exact ⟨ops, quiet.trans same⟩
      · refine ⟨ops ++ [op], ?_⟩
        rw [System.run_snoc, ← same]
        exact committed

theorem login_sound (libs : Libraries V) (steps : List Step) :
    Sound ((loginService libs).run steps).db := by
  obtain ⟨ops, same⟩ := login_reaches libs steps
  rw [same]
  exact reachable ops

end Answers

end SecureMsg.Auth
