/-
# App.Commits — the repository calls a run of requests commits

`committed` lists the repository calls a request commits, in order; it reads the
state the request finds and follows the dependencies, the limiter and the endpoint.
`serve_committed`: serving a request is committing them, and nothing else.  So the
database of a run of requests is one of the repository service, on the `history` of
the run (`application_db`), and whatever holds of every run of the service holds
behind the application.

`Entitled` is the access policy, said without the endpoints: who may have a call
committed, judged on the state before.  `application_entitled`: every call in the
history was committed for a request that was entitled to it.
-/
import SecureMsg.Schemas.Application

namespace SecureMsg.App

open SecureMsg.Theory SecureMsg.Store SecureMsg.Repository SecureMsg.Auth

set_option autoImplicit false

/-- The calls, one after the other, each in a transaction of its own. -/
def commitAll (db : Database) (ops : List Operation) : Database := ops.foldl commit db

@[simp] theorem commitAll_nil (db : Database) : commitAll db [] = db := rfl

@[simp] theorem commitAll_cons (db : Database) (op : Operation) (ops : List Operation) :
    commitAll db (op :: ops) = commitAll (commit db op) ops := rfl

theorem commitAll_append (db : Database) (ops later : List Operation) :
    commitAll db (ops ++ later) = commitAll (commitAll db ops) later := List.foldl_append

theorem commitCall_toList (db : Database) (call : Option Operation) :
    commitAll db call.toList = Api.commitCall db call := by
  cases call with
  | none => rfl
  | some op => rfl

/-! ## What a request commits -/

/-- The insert of `revoke_token`. -/
def revocation (lib : TokenLib) (claims : TokenClaims) : List Operation :=
  match claims.jti, claims.exp with
  | some jti, some exp => [.blockRefreshToken (lib.sha256 jti) exp]
  | _, _ => []

def consumption (lib : TokenLib) (db : Database) (now : Rat) (token : String) (scope : Scope) :
    List Operation :=
  match verifyToken lib db now token scope with
  | .ok claims => revocation lib claims
  | .error _ => []

def keysCommits (db : Database) (requesterId : UserId) : Api.KeysRequest → List Operation
  | .publishBundle body =>
      [.storeKeyBundle (body.row requesterId), .addOneTimePrekeys requesterId body.oneTimePrekeys]
  | .uploadPrekeys prekeys => [.addOneTimePrekeys requesterId prekeys]
  | .getPrekeyCount | .lookupIdentityPubByUsername _ => []
  | .fetchBundle userId =>
      if (getUserById db userId).isSome && (getKeyBundle db userId).isSome then
        [.popOneTimePrekey userId]
      else []

section Committed

variable {V : Type} (libs : Libraries V)

def dependencyCommits (db : Database) (now : Rat) : Request → List Operation
  | .verify2fa body => consumption libs.toTokenLib db now body.preAuthToken .totpOnly
  | .refresh refreshToken | .logout refreshToken =>
      consumption libs.toTokenLib db now refreshToken .refresh
  | .health | .register _ | .srpInit _ | .srpVerify _ | .authorized _ _ => []

def registration (db : Database) (reading : Reading) (body : RegisterRequest) : List Operation :=
  if (getUserByUsername db body.username).isSome then []
  else
    match fromHex body.srpVerifier with
    | none => []
    | some verifier =>
        [.createUser body.username body.srpSalt (encrypt libs.aead reading.verifierNonce verifier)
          (encrypt libs.aead reading.totpNonce (encodeText reading.totpSecret))]

def endpointCommits (db : Database) (reading : Reading) : Call → List Operation
  | .register body => registration libs db reading body
  | .account pending => pending.call.toList
  | .keys currentUser request => keysCommits db currentUser.id request
  | .messages currentUser request => (request.call currentUser.id).toList
  | .health | .srpInit _ | .srpVerify _ | .verify2fa _ _ | .refresh _ | .logout _ => []

/-- The calls a request commits: its dependencies', and its endpoint's if it is called. -/
def committed (st : State V) (s : Step) : List Operation :=
  dependencyCommits libs st.db s.reading.decodedAt s.request ++
    match dependencies libs st.db s.reading.decodedAt s.request with
    | (db, .ok call) =>
        if limiter s.exceeded call = none then endpointCommits libs db s.reading call else []
    | (_, .error _) => []

/-- The calls of a run. -/
def history (steps : List Step) : List Operation := (application libs).expand (committed libs) steps

end Committed

/-! ## Serving is committing -/

section Served

variable {V : Type} {libs : Libraries V} {st : State V} {s : Step} {db : Database}

theorem consumption_committed (lib : TokenLib) (db : Database) (now : Rat) (token : String)
    (scope : Scope) (detail : String) :
    (consumeToken lib db now token scope detail).1 =
      commitAll db (consumption lib db now token scope) := by
  unfold consumption
  have outcome := consumeToken_cases lib db now token scope detail
  generalize consumeToken lib db now token scope detail = result at outcome ⊢
  cases outcome with
  | refused raised refused => rw [refused]; rfl
  | rejected claims raised verified rejected =>
      rw [verified]
      unfold revokeToken at rejected
      match hasJti : claims.jti, hasExp : claims.exp with
      | none, _ => simp [revocation, hasJti]
      | some jti, none => simp [revocation, hasJti, hasExp]
      | some jti, some exp =>
          simp only [hasJti, hasExp] at rejected
          simp only [revocation, hasJti, hasExp, commitAll_cons, commitAll_nil]
          cases inserted : blockRefreshToken db (lib.sha256 jti) exp with
          | error e =>
              have failed : perform db (.blockRefreshToken (lib.sha256 jti) exp) = .error e := inserted
              exact (commit_error failed).symm
          | ok after =>
              rw [inserted] at rejected
              cases rejected
  | consumed claims after consumed =>
      obtain ⟨jti, exp, hasJti, hasExp, inserted⟩ := revokeToken_inserts consumed.revoked
      rw [consumed.verified]
      simp only [revocation, hasJti, hasExp, commitAll_cons, commitAll_nil]
      have done : perform db (.blockRefreshToken (lib.sha256 jti) exp) = .ok after := inserted
      exact (commit_ok done).symm

theorem dependencies_committed (libs : Libraries V) (db : Database) (now : Rat) (request : Request) :
    (dependencies libs db now request).1 = commitAll db (dependencyCommits libs db now request) := by
  cases request with
  | verify2fa body =>
      show (requirePreauthUser _ db _ _).1 = _
      rw [requirePreauthUser_fst]
      exact consumption_committed _ _ _ _ _ _
  | refresh refreshToken => exact consumption_committed _ _ _ _ _ _
  | logout refreshToken => exact consumption_committed _ _ _ _ _ _
  | _ => rfl

theorem register_committed (libs : Libraries V) (st : State V) (reading : Reading)
    (body : RegisterRequest) :
    (register libs st reading body).1.db = commitAll st.db (registration libs st.db reading body) := by
  unfold register registration
  by_cases taken : (getUserByUsername st.db body.username).isSome
  · rw [if_pos taken, if_pos taken]
    rfl
  · rw [if_neg taken, if_neg taken]
    cases isHex : fromHex body.srpVerifier with
    | none => rfl
    | some verifier =>
        simp only [commitAll_cons, commitAll_nil, commit, perform]
        cases createUser st.db body.username body.srpSalt
            (encrypt libs.aead reading.verifierNonce verifier)
            (encrypt libs.aead reading.totpNonce (encodeText reading.totpSecret)) with
        | ok created => rfl
        | error e => rfl

theorem uploadPrekeys_committed (db : Database) (currentUser : User) (prekeys : List Bytes) :
    (Api.uploadPrekeys db currentUser prekeys).1 =
      commit db (.addOneTimePrekeys currentUser.id prekeys) := by
  simp only [Api.uploadPrekeys, commit, perform]
  cases addOneTimePrekeys db currentUser.id prekeys with
  | ok after => rfl
  | error e => rfl

/-- The owner of a bundle exists, so it is stored. -/
theorem storeKeyBundle_known (bundle : UserKeyBundle) (known : bundle.userId ∈ db.userIds) :
    ∃ stored, storeKeyBundle db bundle = .ok stored := by
  by_cases there : bundle.userId ∈ db.userKeyBundles.map UserKeyBundle.userId
  · exact ⟨_, Database.upsertUserKeyBundle_ok.mpr (Or.inl ⟨there, rfl⟩)⟩
  · exact ⟨_, Database.upsertUserKeyBundle_ok.mpr (Or.inr ⟨there, known, rfl⟩)⟩

theorem handleKeys_committed {currentUser : User} (known : currentUser.id ∈ db.userIds)
    (request : Api.KeysRequest) :
    (Api.handleKeys db currentUser request).1 =
      commitAll db (keysCommits db currentUser.id request) := by
  cases request with
  | publishBundle body =>
      obtain ⟨stored, bundle⟩ := storeKeyBundle_known (body.row currentUser.id) known
      have done : perform db (.storeKeyBundle (body.row currentUser.id)) = .ok stored := bundle
      simp only [Api.handleKeys, Api.publishBundle, keysCommits, commitAll_cons, commitAll_nil,
        commit_ok done, bundle]
      exact uploadPrekeys_committed stored currentUser body.oneTimePrekeys
  | uploadPrekeys prekeys => exact uploadPrekeys_committed db currentUser prekeys
  | getPrekeyCount => rfl
  | lookupIdentityPubByUsername username => rfl
  | fetchBundle userId =>
      simp only [Api.handleKeys, Api.fetchBundle, keysCommits]
      cases owner : getUserById db userId with
      | none => rfl
      | some user =>
          cases getKeyBundle db userId with
          | none => rfl
          | some bundle => rfl

/-- An endpoint behind resolved dependencies. -/
theorem endpoint_committed {now : Rat} {request : Request} {after : Database} {call : Call}
    (resolved : dependencies libs db now request = (after, .ok call)) (sessions : Sessions V)
    (reading : Reading) :
    (endpoint libs ⟨after, sessions⟩ reading call).1.db =
      commitAll after (endpointCommits libs after reading call) := by
  cases dependencies_ok resolved with
  | register body => exact register_committed libs ⟨db, sessions⟩ reading body
  | srpInit body => exact srpInitEndpoint_db libs ⟨db, sessions⟩ reading body
  | authorized credentials request claims user call verified subject found calls =>
      cases calls with
      | account request pending ready =>
          show (Api.handle db pending).1 = commitAll db pending.call.toList
          rw [commitCall_toList, Api.handle_dependencies ready]
      | keys request => exact handleKeys_committed (getUserById_some found).2 request
      | messages request =>
          show (Api.handleMessages db user request).1 = commitAll db (request.call user.id).toList
          rw [commitCall_toList, Api.handleMessages_fst]
  | _ => rfl

/-- **Serving a request is committing its calls.** -/
theorem serve_committed (libs : Libraries V) (st : State V) (s : Step) :
    (serve libs st s).1.db = commitAll st.db (committed libs st s) := by
  have first := dependencies_committed libs st.db s.reading.decodedAt s.request
  unfold committed
  rw [commitAll_append, ← first]
  have outcome := serve_cases libs st s
  generalize serve libs st s = served at outcome ⊢
  cases outcome with
  | refused db response resolved => rw [resolved]; rfl
  | limited db call detail resolved exceeds =>
      have refused : ¬ limiter s.exceeded call = none := by simp [exceeds]
      simp only [resolved, if_neg refused]
      rfl
  | called db call resolved within =>
      simp only [resolved, if_pos within]
      exact endpoint_committed resolved st.sessions s.reading

/-- **The application refines the repository service.** -/
theorem application_db (libs : Libraries V) (steps : List Step) :
    ((application libs).run steps).db = service.run (history libs steps) :=
  (application libs).run_expand (N := service) (f := State.db) rfl (serve_committed libs) steps

end Served

/-! ## The access policy -/

/-- The request presents an access token of the user, and the account exists. -/
def Authenticated (lib : TokenLib) (db : Database) (s : Step) (u : UserId) : Prop :=
  ∃ credentials request claims, s.request = .authorized credentials request ∧
    verifyToken lib db s.reading.decodedAt credentials .full = .ok claims ∧
    claims.userId = .ok u ∧ u ∈ db.userIds

/-- The single-use token a request presents, and the scope it must have. -/
def Request.presents : Request → Option (String × Scope)
  | .verify2fa body => some (body.preAuthToken, .totpOnly)
  | .refresh refreshToken | .logout refreshToken => some (refreshToken, .refresh)
  | .health | .register _ | .srpInit _ | .srpVerify _ | .authorized _ _ => none

/-- Who may have a call committed: an account for whoever registers it, a token's `jti` for
whoever presents the token, everything else for the user who is named as the actor and,
where a group is concerned, is a member of it. -/
def Entitled (lib : TokenLib) (db : Database) (s : Step) : Operation → Prop
  | .createUser username srpSalt _ _ =>
      ∃ body : RegisterRequest, s.request = .register body ∧ body.username.val = username ∧
        body.srpSalt.val = srpSalt
  | .blockRefreshToken jtiHash expiresAt =>
      ∃ token scope claims jti, s.request.presents = some (token, scope) ∧
        verifyToken lib db s.reading.decodedAt token scope = .ok claims ∧
        claims.jti = some jti ∧ jtiHash = lib.sha256 jti ∧ claims.exp = some expiresAt
  | .deleteUser u | .createGroup _ u _ | .storeMessage u _ _ _ | .deleteMessage _ _ u
  | .addOneTimePrekeys u _ => Authenticated lib db s u
  | .storeKeyBundle bundle => Authenticated lib db s bundle.userId
  | .addMember g u _ _ | .removeMember g u _ _ | .popSkdmsForUser u g | .storeGroupMessage g u _ _ =>
      Authenticated lib db s u ∧ db.IsMember g u
  | .storeSkdms g _ => ∃ u, Authenticated lib db s u ∧ db.IsMember g u
  | .revokeGroupMessage _ u | .recordGroupReceipt _ u =>
      Authenticated lib db s u ∧ ∃ g, db.IsMember g u
  | .popOneTimePrekey _ => ∃ u, Authenticated lib db s u
  | .rolledBack _ => False

section Entitled

variable {V : Type} {libs : Libraries V} {db : Database} {s : Step}

theorem consumption_entitled {lib : TokenLib} {token : String} {scope : Scope}
    (presents : s.request.presents = some (token, scope)) {op : Operation}
    (listed : op ∈ consumption lib db s.reading.decodedAt token scope) : Entitled lib db s op := by
  unfold consumption at listed
  cases verified : verifyToken lib db s.reading.decodedAt token scope with
  | error raised =>
      rw [verified] at listed
      cases listed
  | ok claims =>
      rw [verified] at listed
      unfold revocation at listed
      match hasJti : claims.jti, hasExp : claims.exp with
      | none, _ => simp [hasJti] at listed
      | some jti, none => simp [hasJti, hasExp] at listed
      | some jti, some exp =>
          simp only [hasJti, hasExp, List.mem_singleton] at listed
          subst listed
          exact ⟨token, scope, claims, jti, presents, verified, hasJti, rfl, hasExp⟩

theorem dependencyCommits_entitled {op : Operation}
    (listed : op ∈ dependencyCommits libs db s.reading.decodedAt s.request) :
    Entitled libs.toTokenLib db s op := by
  cases asks : s.request with
  | verify2fa body =>
      rw [asks] at listed
      exact consumption_entitled (by rw [asks]; rfl) listed
  | refresh refreshToken =>
      rw [asks] at listed
      exact consumption_entitled (by rw [asks]; rfl) listed
  | logout refreshToken =>
      rw [asks] at listed
      exact consumption_entitled (by rw [asks]; rfl) listed
  | _ =>
      rw [asks] at listed
      cases listed

section Behind

variable {lib : TokenLib} {u : UserId} (who : Authenticated lib db s u) {op : Operation}

include who

theorem account_entitled {request : Api.Request} {pending : Api.Pending}
    (ready : Api.dependencies db u request = .ok pending) (isCall : accountCall u request = some op) :
    Entitled lib db s op := by
  cases request with
  | listGroups => cases isCall
  | createGroup name initialMembers =>
      cases isCall
      exact who
  | deleteMe =>
      cases isCall
      exact who
  | onGroup g request =>
      obtain ⟨-, -, -, -, -, -, member⟩ := onGroup_ready ready
      cases request with
      | info => cases isCall
      | listMessages => cases isCall
      | sendSkdms => cases isCall; exact ⟨u, who, member⟩
      | revokeMessage => cases isCall; exact ⟨who, g, member⟩
      | recordReceipt => cases isCall; exact ⟨who, g, member⟩
      | _ => cases isCall; exact ⟨who, member⟩

theorem keysCommits_entitled {request : Api.KeysRequest} (listed : op ∈ keysCommits db u request) :
    Entitled lib db s op := by
  cases request with
  | publishBundle body =>
      rcases List.mem_cons.mp listed with rfl | later
      · exact who
      · rw [List.mem_singleton.mp later]
        exact who
  | uploadPrekeys prekeys =>
      rw [List.mem_singleton.mp listed]
      exact who
  | getPrekeyCount => cases listed
  | lookupIdentityPubByUsername username => cases listed
  | fetchBundle userId =>
      simp only [keysCommits] at listed
      split at listed
      · rw [List.mem_singleton.mp listed]
        exact ⟨u, who⟩
      · cases listed

theorem messages_entitled {request : Api.MessagesRequest} (isCall : request.call u = some op) :
    Entitled lib db s op := by
  cases request with
  | sendMessage body =>
      simp only [Api.MessagesRequest.call] at isCall
      split at isCall
      · cases isCall
      · cases isCall
        exact who
  | listMessages => cases isCall
  | markReceipt => cases isCall; exact who
  | revoke => cases isCall; exact who

end Behind

theorem endpointCommits_entitled {after : Database} {call : Call}
    (resolved : dependencies libs db s.reading.decodedAt s.request = (after, .ok call))
    {op : Operation} (listed : op ∈ endpointCommits libs after s.reading call) :
    Entitled libs.toTokenLib db s op := by
  have behind := dependencies_ok resolved
  generalize asks : s.request = request at behind
  cases behind with
  | register body =>
      simp only [endpointCommits, registration] at listed
      split at listed
      · cases listed
      · split at listed
        · cases listed
        · rw [List.mem_singleton.mp listed]
          exact ⟨body, asks, rfl, rfl⟩
  | authorized credentials request claims user call verified subject found calls =>
      have known := (getUserById_some found).2
      have who : Authenticated libs.toTokenLib db s user.id :=
        ⟨credentials, request, claims, asks, verified, subject, known⟩
      cases calls with
      | account request pending ready =>
          have isCall : pending.call = some op := Option.mem_toList.mp listed
          rw [pending_call ready] at isCall
          exact account_entitled who ready isCall
      | keys request => exact keysCommits_entitled who listed
      | messages request => exact messages_entitled who (Option.mem_toList.mp listed)
  | _ => cases listed

/-- **Every call a request commits is one it is entitled to.** -/
theorem committed_entitled {st : State V} {op : Operation} (listed : op ∈ committed libs st s) :
    Entitled libs.toTokenLib st.db s op := by
  rcases List.mem_append.mp listed with dependency | called
  · exact dependencyCommits_entitled dependency
  · match resolved : dependencies libs st.db s.reading.decodedAt s.request with
    | (after, .error response) =>
        rw [resolved] at called
        cases called
    | (after, .ok call) =>
        simp only [resolved] at called
        split at called
        · exact endpointCommits_entitled resolved called
        · cases called

/-- **The application refines the repository service, call by call as its policy allows**:
the database after any requests, with bodies as they are sent, is the service's after
the calls of the accepted ones, and each of these calls was committed for a request that
was entitled to it in the state it found. -/
theorem application_refines_service (libs : Libraries V) (steps : List Schemas.Step) :
    ((Schemas.application libs).run steps).db =
        service.run (history libs (Schemas.acceptedSteps steps)) ∧
      EachStep (fun earlier s =>
        history libs (earlier ++ [s]) =
            history libs earlier ++ committed libs ((application libs).run earlier) s ∧
          ∀ op ∈ committed libs ((application libs).run earlier) s,
            Entitled libs.toTokenLib (service.run (history libs earlier)) s op)
        (Schemas.acceptedSteps steps) := by
  constructor
  · rw [Schemas.run_accepted]
    exact application_db libs _
  · intro earlier s _
    refine ⟨(application libs).expand_snoc (committed libs) earlier s, fun op listed => ?_⟩
    rw [← application_db]
    exact committed_entitled listed

end Entitled

end SecureMsg.App
