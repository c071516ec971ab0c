/-
# App.Service — the application of `app/main.py`: every endpoint, one request at a time

A request is served in three steps, in the order of the framework: its
dependencies are resolved, the limiter decides as the decorated endpoint function
is called, and only then does the function run.  What a dependency has committed
by then stays committed, whatever the limiter decides.

The limiter is whatever it is: a step carries its verdict.  Its 429 is a response
of its own, told apart from the one of a full inbox.

`serve_login` and `endpoint_authorized` connect the service with the login endpoints
and with the endpoints behind `get_current_user`.
-/
import SecureMsg.Auth.Endpoints
import SecureMsg.Api.Interleaving
import SecureMsg.Api.Keys
import SecureMsg.Api.Messages

namespace SecureMsg.App

open SecureMsg.Theory SecureMsg.Store SecureMsg.Repository SecureMsg.Auth

set_option autoImplicit false

/-! ## Requests and responses -/

/-- The routers behind `get_current_user`: `/auth/me` and `/groups`, `/keys`, `/messages`. -/
inductive Authorized where
  | account (request : Api.Request)
  | keys (request : Api.KeysRequest)
  | messages (request : Api.MessagesRequest)

inductive Request where
  | health
  | register (body : RegisterRequest)
  | srpInit (body : SRPInitRequest)
  | srpVerify (body : SRPVerifyRequest)
  | verify2fa (body : VerifyTOTPRequest)
  | refresh (refreshToken : String)
  | logout (refreshToken : String)
  | authorized (credentials : String) (request : Authorized)

structure Step where
  request : Request
  reading : Reading := {}
  /-- The limit that is exceeded when the endpoint function is called. -/
  exceeded : Option String := none

inductive Response (lib : TokenLib) where
  | status (text : String)
  | login (response : Auth.Response lib)
  | account (response : Api.Response)
  | keys (response : Api.KeysResponse)
  | messages (response : Api.MessagesResponse)
  /-- `rate_limit_exceeded_handler`: status 429. -/
  | rateLimitExceeded (error : String)

/-! ## Dependencies -/

/-- What an endpoint function is called with. -/
inductive Call where
  | health
  | register (body : RegisterRequest)
  | srpInit (body : SRPInitRequest)
  | srpVerify (body : SRPVerifyRequest)
  | verify2fa (totpCode : TotpCode) (user : User)
  | refresh (claims : TokenClaims)
  | logout (claims : TokenClaims)
  | account (pending : Api.Pending)
  | keys (currentUser : User) (request : Api.KeysRequest)
  | messages (currentUser : User) (request : Api.MessagesRequest)

section Serve

variable {V : Type} (libs : Libraries V)

/-- The group dependencies go on from the user that `get_current_user` returned. -/
def authorize (db : Database) (now : Rat) (credentials : String) (request : Authorized) :
    Except (Response libs.toTokenLib) Call := do
  let currentUser ← (getCurrentUser libs.toTokenLib db now credentials).mapError .login
  match request with
  | .account request =>
      let pending ← (Api.dependencies db currentUser.id request).mapError .account
      return .account pending
  | .keys request => return .keys currentUser request
  | .messages request => return .messages currentUser request

def dependencies (db : Database) (now : Rat) :
    Request → Database × Except (Response libs.toTokenLib) Call
  | .health => (db, .ok .health)
  | .register body => (db, .ok (.register body))
  | .srpInit body => (db, .ok (.srpInit body))
  | .srpVerify body => (db, .ok (.srpVerify body))
  | .verify2fa body =>
      let (after, user) := requirePreauthUser libs.toTokenLib db now body.preAuthToken
      (after, (user.mapError .login).map (.verify2fa body.totpCode))
  | .refresh refreshToken =>
      let (after, claims) := requireValidRefresh libs.toTokenLib db now refreshToken
      (after, (claims.mapError .login).map .refresh)
  | .logout refreshToken =>
      let (after, claims) := requireValidRefresh libs.toTokenLib db now refreshToken
      (after, (claims.mapError .login).map .logout)
  | .authorized credentials request => (db, authorize libs db now credentials request)

/-! ## The limiter and the endpoints -/

/-- `@limiter.limit` is on every endpoint but `/health`. -/
def Call.isLimited : Call → Bool
  | .health => false
  | _ => true

def limiter (exceeded : Option String) (call : Call) : Option String :=
  if call.isLimited then exceeded else none

def endpoint (st : State V) (reading : Reading) : Call → State V × Response libs.toTokenLib
  | .health => (st, .status "ok")
  | .register body => (register libs st reading body).map id .login
  | .srpInit body => (srpInitEndpoint libs st reading body).map id .login
  | .srpVerify body => (srpVerifyEndpoint libs st reading body).map id .login
  | .verify2fa totpCode user => (st, .login (Auth.verify2fa libs reading totpCode user))
  | .refresh claims => (st, .login (refreshTokens libs.toTokenLib reading claims))
  | .logout claims => (st, .login (Auth.logout libs.toTokenLib claims))
  | .account pending => (Api.handle st.db pending).map (fun db => { st with db := db }) .account
  | .keys currentUser request =>
      (Api.handleKeys st.db currentUser request).map (fun db => { st with db := db }) .keys
  | .messages currentUser request =>
      (Api.handleMessages st.db currentUser request).map (fun db => { st with db := db }) .messages

def serve (st : State V) (s : Step) : State V × Response libs.toTokenLib :=
  let (db, resolved) := dependencies libs st.db s.reading.decodedAt s.request
  match resolved with
  | .error response => ({ st with db := db }, response)
  | .ok call =>
      match limiter s.exceeded call with
      | some detail => ({ st with db := db }, .rateLimitExceeded ("Rate limit exceeded: " ++ detail))
      | none => endpoint libs { st with db := db } s.reading call

/-- The application from an empty database and no handshake. -/
def application : System (State V) Step := ⟨{}, fun st s => (serve libs st s).1⟩

def respond (earlier : List Step) (s : Step) : Response libs.toTokenLib :=
  (serve libs ((application libs).run earlier) s).2

end Serve

/-! ## How a request is served -/

section Served

variable {V : Type} {libs : Libraries V} {st : State V} {s : Step}

/-- What the limiter lets pass is within its limits, but for `/health`. -/
theorem exceeded_none {exceeded : Option String} {call : Call} (within : limiter exceeded call = none)
    (isLimited : call.isLimited = true) : exceeded = none := by
  rwa [limiter, if_pos isLimited] at within

/-- The three ways a request ends: at a dependency, at the limiter, in the endpoint. -/
inductive ServeOutcome (libs : Libraries V) (st : State V) (s : Step) :
    State V × Response libs.toTokenLib → Prop where
  | refused (db : Database) (response : Response libs.toTokenLib)
      (resolved : dependencies libs st.db s.reading.decodedAt s.request = (db, .error response)) :
      ServeOutcome libs st s ({ st with db := db }, response)
  | limited (db : Database) (call : Call) (detail : String)
      (resolved : dependencies libs st.db s.reading.decodedAt s.request = (db, .ok call))
      (exceeds : limiter s.exceeded call = some detail) :
      ServeOutcome libs st s
        ({ st with db := db }, .rateLimitExceeded ("Rate limit exceeded: " ++ detail))
  | called (db : Database) (call : Call)
      (resolved : dependencies libs st.db s.reading.decodedAt s.request = (db, .ok call))
      (within : limiter s.exceeded call = none) :
      ServeOutcome libs st s (endpoint libs { st with db := db } s.reading call)

theorem serve_cases (libs : Libraries V) (st : State V) (s : Step) :
    ServeOutcome libs st s (serve libs st s) := by
  unfold serve
  match resolved : dependencies libs st.db s.reading.decodedAt s.request with
  | (db, .error response) => exact .refused db response resolved
  | (db, .ok call) =>
      dsimp only
      cases verdict : limiter s.exceeded call with
      | some detail => exact .limited db call detail resolved verdict
      | none => exact .called db call resolved verdict

/-- What an authorized request calls, for the user whose token it presents. -/
inductive CallsFor (db : Database) (currentUser : User) : Authorized → Call → Prop where
  | account (request : Api.Request) (pending : Api.Pending)
      (ready : Api.dependencies db currentUser.id request = .ok pending) :
      CallsFor db currentUser (.account request) (.account pending)
  | keys (request : Api.KeysRequest) :
      CallsFor db currentUser (.keys request) (.keys currentUser request)
  | messages (request : Api.MessagesRequest) :
      CallsFor db currentUser (.messages request) (.messages currentUser request)

theorem authorize_ok {db : Database} {now : Rat} {credentials : String} {request : Authorized}
    {call : Call} (passed : authorize libs db now credentials request = .ok call) :
    ∃ currentUser, getCurrentUser libs.toTokenLib db now credentials = .ok currentUser ∧
      CallsFor db currentUser request call := by
  obtain ⟨currentUser, found, rest⟩ := bind_eq_ok.mp passed
  refine ⟨currentUser, mapError_eq_ok.mp found, ?_⟩
  cases request with
  | account request =>
      obtain ⟨pending, ready, returned⟩ := bind_eq_ok.mp rest
      cases returned
      exact .account request pending (mapError_eq_ok.mp ready)
  | keys request =>
      cases rest
      exact .keys request
  | messages request =>
      cases rest
      exact .messages request

/-- The answers a dependency can give in place of an endpoint. -/
inductive Refusal {lib : TokenLib} : Response lib → Prop where
  | login (failure : Auth.Response lib) (isFailure : failure.IsFailure) : Refusal (.login failure)
  | account (failure : Api.Response) : Refusal (.account failure)

theorem authorize_error {db : Database} {now : Rat} {credentials : String} {request : Authorized}
    {response : Response libs.toTokenLib}
    (refused : authorize libs db now credentials request = .error response) : Refusal response := by
  rcases bind_eq_error.mp refused with unauthenticated | ⟨currentUser, -, rest⟩
  · obtain ⟨failure, failed, rfl⟩ := mapError_eq_error.mp unauthenticated
    exact .login failure (getCurrentUser_error failed)
  · cases request with
    | account request =>
        rcases bind_eq_error.mp rest with notReady | ⟨pending, -, returned⟩
        · obtain ⟨failure, -, rfl⟩ := mapError_eq_error.mp notReady
          exact .account failure
        · cases returned
    | keys request => cases rest
    | messages request => cases rest

theorem dependencies_error {db after : Database} {now : Rat} {request : Request}
    {response : Response libs.toTokenLib}
    (refused : dependencies libs db now request = (after, .error response)) :
    Refusal response := by
  have result := congrArg Prod.snd refused
  cases request with
  | verify2fa body =>
      obtain ⟨failure, failed, rfl⟩ := mapError_eq_error.mp (map_eq_error.mp result)
      exact .login failure (requirePreauthUser_error failed)
  | refresh refreshToken =>
      obtain ⟨failure, failed, rfl⟩ := mapError_eq_error.mp (map_eq_error.mp result)
      exact .login failure (consumeToken_error failed)
  | logout refreshToken =>
      obtain ⟨failure, failed, rfl⟩ := mapError_eq_error.mp (map_eq_error.mp result)
      exact .login failure (consumeToken_error failed)
  | authorized credentials request => exact authorize_error result
  | _ => cases result

/-- What stands behind resolved dependencies: the database they leave and the call. -/
inductive Resolved (lib : TokenLib) (db : Database) (now : Rat) :
    Request → Database → Call → Prop where
  | health : Resolved lib db now .health db .health
  | register (body : RegisterRequest) : Resolved lib db now (.register body) db (.register body)
  | srpInit (body : SRPInitRequest) : Resolved lib db now (.srpInit body) db (.srpInit body)
  | srpVerify (body : SRPVerifyRequest) : Resolved lib db now (.srpVerify body) db (.srpVerify body)
  | verify2fa (body : VerifyTOTPRequest) (after : Database) (claims : TokenClaims) (user : User)
      (consumed : Consumed lib db now body.preAuthToken .totpOnly claims after)
      (subject : claims.userId = .ok user.id) (found : getUserById after user.id = some user) :
      Resolved lib db now (.verify2fa body) after (.verify2fa body.totpCode user)
  | refresh (refreshToken : String) (after : Database) (claims : TokenClaims)
      (consumed : Consumed lib db now refreshToken .refresh claims after) :
      Resolved lib db now (.refresh refreshToken) after (.refresh claims)
  | logout (refreshToken : String) (after : Database) (claims : TokenClaims)
      (consumed : Consumed lib db now refreshToken .refresh claims after) :
      Resolved lib db now (.logout refreshToken) after (.logout claims)
  | authorized (credentials : String) (request : Authorized) (claims : TokenClaims) (user : User)
      (call : Call) (verified : verifyToken lib db now credentials .full = .ok claims)
      (subject : claims.userId = .ok user.id) (found : getUserById db user.id = some user)
      (calls : CallsFor db user request call) :
      Resolved lib db now (.authorized credentials request) db call

/-- **What the dependencies of a request establish.** -/
theorem dependencies_ok {db after : Database} {now : Rat} {request : Request} {call : Call}
    (resolved : dependencies libs db now request = (after, .ok call)) :
    Resolved libs.toTokenLib db now request after call := by
  cases request with
  | health => cases resolved; exact .health
  | register body => cases resolved; exact .register body
  | srpInit body => cases resolved; exact .srpInit body
  | srpVerify body => cases resolved; exact .srpVerify body
  | verify2fa body =>
      obtain ⟨rfl, mapped⟩ := Prod.mk.inj resolved
      obtain ⟨user, passed, rfl⟩ := map_eq_ok.mp mapped
      obtain ⟨claims, consumed, subject, found⟩ := requirePreauthUser_ok (mapError_eq_ok.mp passed)
      exact .verify2fa body _ claims user consumed subject found
  | refresh refreshToken =>
      obtain ⟨rfl, mapped⟩ := Prod.mk.inj resolved
      obtain ⟨claims, passed, rfl⟩ := map_eq_ok.mp mapped
      exact .refresh refreshToken _ claims (consumeToken_ok (mapError_eq_ok.mp passed))
  | logout refreshToken =>
      obtain ⟨rfl, mapped⟩ := Prod.mk.inj resolved
      obtain ⟨claims, passed, rfl⟩ := map_eq_ok.mp mapped
      exact .logout refreshToken _ claims (consumeToken_ok (mapError_eq_ok.mp passed))
  | authorized credentials request =>
      obtain ⟨rfl, passed⟩ := Prod.mk.inj resolved
      obtain ⟨user, authenticated, calls⟩ := authorize_ok passed
      obtain ⟨claims, verified, subject, found⟩ := getCurrentUser_ok authenticated
      exact .authorized credentials request claims user call verified subject found calls

/-! ## The service and its parts -/

/-- The login endpoint a request goes to. -/
def Request.login? : Request → Option Auth.Request
  | .register body => some (.register body)
  | .srpInit body => some (.srpInit body)
  | .srpVerify body => some (.srpVerify body)
  | .verify2fa body => some (.verify2fa body)
  | .refresh refreshToken => some (.refresh refreshToken)
  | .logout refreshToken => some (.logout refreshToken)
  | .health | .authorized _ _ => none

/-- **Within its limits a login request is served as by the login service.** -/
theorem serve_login {request : Auth.Request} (isLogin : s.request.login? = some request)
    (within : s.exceeded = none) :
    serve libs st s = (Auth.serve libs st ⟨request, s.reading⟩).map id .login := by
  obtain ⟨appRequest, reading, exceeded⟩ := s
  cases within
  cases appRequest with
  | register body => cases isLogin; rfl
  | srpInit body => cases isLogin; rfl
  | srpVerify body => cases isLogin; rfl
  | verify2fa body =>
      cases isLogin
      simp only [serve, dependencies, Auth.serve]
      match requirePreauthUser libs.toTokenLib st.db reading.decodedAt body.preAuthToken with
      | (after, .error response) => rfl
      | (after, .ok user) => rfl
  | refresh refreshToken =>
      cases isLogin
      simp only [serve, dependencies, Auth.serve]
      match requireValidRefresh libs.toTokenLib st.db reading.decodedAt refreshToken with
      | (after, .error response) => rfl
      | (after, .ok claims) => rfl
  | logout refreshToken =>
      cases isLogin
      simp only [serve, dependencies, Auth.serve]
      match requireValidRefresh libs.toTokenLib st.db reading.decodedAt refreshToken with
      | (after, .error response) => rfl
      | (after, .ok claims) => rfl
  | health => cases isLogin
  | authorized credentials request => cases isLogin

/-- What the endpoints behind `get_current_user` commit for a requester. -/
def serveAuthorized (db : Database) (requesterId : UserId) : Authorized → Database
  | .account request => (Api.serve db requesterId request).1
  | .keys request => (Api.serveKeys db requesterId request).1
  | .messages request => Api.commitCall db (request.call requesterId)

/-- **Behind its dependencies a request is served as by the endpoints of its router.** -/
theorem endpoint_authorized {db : Database} {user : User} {request : Authorized} {call : Call}
    (sessions : Sessions V) (reading : Reading) (found : getUserById db user.id = some user)
    (calls : CallsFor db user request call) :
    (endpoint libs ⟨db, sessions⟩ reading call).1 =
      ⟨serveAuthorized db user.id request, sessions⟩ := by
  cases calls with
  | account request pending ready =>
      simp only [endpoint, serveAuthorized, Api.serve, ready]
      rfl
  | keys request =>
      simp only [endpoint, serveAuthorized, Api.serveKeys, found]
      rfl
  | messages request =>
      simp only [endpoint, serveAuthorized, ← Api.handleMessages_fst]
      rfl

end Served

end SecureMsg.App
