/-
# App.DeletedAccount — is a deleted account dead?

Tokens outlive the account they were issued for.  The dependencies for access and
pre-auth tokens look the subject up in the users table; the one for refresh tokens
does not, and `refresh` issues a new pair to whatever id the token names.  And a
dependency looks once: an account can be deleted between the dependency and the
endpoint function of a `verify-2fa` or a `refresh` (`App.Interleaving`), which issues
the pair all the same.

`dead_iff`: over every interleaving, no request that arrives with a token of a deleted
account is accepted and no token is issued for one, exactly when no `refresh` or
`logout` arrives with a valid refresh token of a deleted account and no second factor
or refresh is answered whose account was deleted meanwhile.
-/
import SecureMsg.App.Interleaving
import SecureMsg.Auth.Login

namespace SecureMsg.App

open SecureMsg.Theory SecureMsg.Store SecureMsg.Repository SecureMsg.Auth

set_option autoImplicit false

variable {V : Type} (libs : Libraries V)

/-! ## Tokens and deletions of a run -/

def Response.issued {lib : TokenLib} : Response lib → List (IssuedToken lib)
  | .login response => response.issued
  | _ => []

/-- The text a request presents as a token. -/
def Request.presented : Request → Option String
  | .verify2fa body => some body.preAuthToken
  | .refresh refreshToken | .logout refreshToken => some refreshToken
  | .authorized credentials _ => some credentials
  | .health | .register _ | .srpInit _ | .srpVerify _ => none

/-- The tokens of the response that an event sends. -/
def handedOut (earlier : List Event) (event : Event) : List (IssuedToken libs.toTokenLib) :=
  ((answered libs earlier event).map Response.issued).getD []

/-- `jwt.decode` accepts only what `jwt.encode` has produced in the run so far. -/
def Unforgeable (events : List Event) : Prop :=
  ∀ earlier s, earlier ++ [.arrive s] <+: events → ∀ token payload,
    s.request.presented = some token →
      libs.decode s.reading.decodedAt token = .ok payload →
        SomeStep (fun before event => ∃ issued ∈ handedOut libs before event,
          issued.text = token ∧ issued.payload = payload) earlier

/-- `jwt.decode` gives back the payload of a token of the run. -/
def ReadBack (events : List Event) : Prop :=
  EachStep (fun earlier event => ∀ issued ∈ handedOut libs earlier event, ∀ now payload,
    libs.decode now issued.text = .ok payload → payload = issued.payload) events

/-- The account was there before the event and is not afterwards. -/
def Deletes (earlier : List Event) (event : Event) (userId : UserId) : Prop :=
  userId ∈ ((overlapped libs).run earlier).state.db.userIds ∧
    userId ∉ ((overlapped libs).run (earlier ++ [event])).state.db.userIds

def Deleted (earlier : List Event) (userId : UserId) : Prop :=
  SomeStep (fun before event => Deletes libs before event userId) earlier

/-- The request presents a token that was issued for the user id. -/
def PresentsTokenOf (earlier : List Event) (s : Step) (userId : UserId) : Prop :=
  ∃ token, s.request.presented = some token ∧
    SomeStep (fun before event => ∃ issued ∈ handedOut libs before event, issued.text = token ∧
      issued.IsFor userId) earlier

/-- The request gets as far as its endpoint function. -/
def Accepted (earlier : List Event) (s : Step) : Prop :=
  ∃ db call, dependencies libs ((overlapped libs).run earlier).state.db s.reading.decodedAt
    s.request = (db, .ok call) ∧ limiter s.exceeded call = none

/-- A deleted account is dead at the event: no request that arrives with a token of it is
accepted, no token is issued for it. -/
def Dead (earlier : List Event) (event : Event) : Prop :=
  ∀ userId, Deleted libs earlier userId →
    (∀ s, event = .arrive s → PresentsTokenOf libs earlier s userId → ¬ Accepted libs earlier s) ∧
      ∀ token ∈ handedOut libs earlier event, ¬ token.IsFor userId

/-- The events that treat a deleted account as one that is there, all within the limits. -/
inductive RevivesDeleted (earlier : List Event) : Event → Prop where
  /-- A `refresh` or `logout` arrives with a valid refresh token of the account. -/
  | presented (s : Step) (refreshToken : String) (claims : TokenClaims) (after : Database)
      (userId : UserId)
      (isRequest : s.request = .refresh refreshToken ∨ s.request = .logout refreshToken)
      (within : s.exceeded = none)
      (consumed : Consumed libs.toTokenLib ((overlapped libs).run earlier).state.db
        s.reading.decodedAt refreshToken .refresh claims after)
      (subject : claims.userId = .ok userId) (deleted : Deleted libs earlier userId) :
      RevivesDeleted earlier (.arrive s)
  /-- A `refresh` in flight is answered. -/
  | refreshed (n : Nat) (s : Step) (claims : TokenClaims) (userId : UserId)
      (isNext : ((overlapped libs).run earlier).inFlight[n]? = some ⟨s, .refresh claims⟩)
      (within : s.exceeded = none) (subject : claims.userId = .ok userId)
      (deleted : Deleted libs earlier userId) : RevivesDeleted earlier (.handle n)
  /-- A `verify-2fa` in flight is answered, and its code is right. -/
  | secondFactor (n : Nat) (s : Step) (totpCode : TotpCode) (user : User) (totpSecret : String)
      (isNext : ((overlapped libs).run earlier).inFlight[n]? =
        some ⟨s, .verify2fa totpCode user⟩)
      (within : s.exceeded = none) (stored : storedTotpSecret libs.aead user = some totpSecret)
      (accepted : verifyTotp libs.pyotp s.reading.codeCheckedAt totpSecret totpCode = true)
      (deleted : Deleted libs earlier user.id) : RevivesDeleted earlier (.handle n)

variable {libs} {events : List Event}

theorem kept_drawn (userId : UserId) :
    KeptInSessions fun db => Constraints db ∧ userId < db.sequences.users := by
  rintro session before op after done ⟨c, drawn⟩
  exact ⟨performIn_constraints c done, lt_of_lt_of_le drawn (performIn_users c done).drawn⟩

/-- **A deleted id is not handed out again.** -/
theorem Deleted.departed {userId : UserId} (deleted : Deleted libs events userId) :
    Departed ((overlapped libs).run events).state.db userId := by
  obtain ⟨before, event, within, there, gone⟩ := deleted
  obtain ⟨row, stored, rfl⟩ := List.mem_map.mp there
  have drawn : row.id < ((overlapped libs).run (before ++ [event])).state.db.sequences.users := by
    have now := overlapped_keeps libs (kept_drawn row.id) (List.prefix_append before [event])
      ⟨overlapped_constraints libs before,
        (overlapped_constraints libs before).nextUser row stored⟩
    exact now.2
  exact overlapped_departed libs within ⟨gone, drawn⟩

/-! ## For whom a token is issued -/

theorem issued_of_isFailure {lib : TokenLib} {response : Auth.Response lib}
    (failure : response.IsFailure) : response.issued = [] := by
  cases response with
  | httpException status detail => rfl
  | unhandled raised => rfl
  | _ => cases failure

theorem Refusal.issued {lib : TokenLib} {response : Response lib} (refusal : Refusal response) :
    response.issued = [] := by
  cases refusal with
  | login failure isFailure => exact issued_of_isFailure isFailure
  | account failure => rfl

/-- Only login requests are answered with a token. -/
theorem endpoint_issued {db : Database} {now : Rat} {after : Database} {request : Request}
    {call : Call} {st : State V} {reading : Reading} {token : IssuedToken libs.toTokenLib}
    (resolved : Resolved libs.toTokenLib db now request after call)
    (issued : token ∈ (endpoint libs st reading call).2.issued) :
    (∃ login, request.login? = some login) ∧ call.isLimited = true := by
  cases resolved with
  | health => cases issued
  | authorized credentials request claims user call verified subject found calls =>
      cases calls with | _ => cases issued
  | _ => exact ⟨⟨_, rfl⟩, rfl⟩

/-- Whom an endpoint function may issue a token for: an account that is there, or the one
its dependency has verified or loaded. -/
inductive MayIssue (libs : Libraries V) (st : State V) (reading : Reading) :
    Call → UserId → Prop where
  | present (call : Call) (userId : UserId) (known : userId ∈ st.db.userIds) :
      MayIssue libs st reading call userId
  | refreshed (claims : TokenClaims) (userId : UserId) (subject : claims.userId = .ok userId) :
      MayIssue libs st reading (.refresh claims) userId
  | secondFactor (totpCode : TotpCode) (user : User) (totpSecret : String)
      (stored : storedTotpSecret libs.aead user = some totpSecret)
      (accepted : verifyTotp libs.pyotp reading.codeCheckedAt totpSecret totpCode = true) :
      MayIssue libs st reading (.verify2fa totpCode user) user.id

theorem issuePair_names {lib : TokenLib} {reading : Reading} {userId : UserId}
    {token : IssuedToken lib} (listed : token ∈ (issuePair lib reading userId).issued) :
    ∃ scope, token.Names userId scope := by
  obtain ⟨access, refresh⟩ := issuePair_pairFor (rfl : issuePair lib reading userId = _)
  rcases List.mem_cons.mp listed with rfl | last
  · exact ⟨.full, access⟩
  · rw [List.mem_singleton.mp last]
    exact ⟨.refresh, refresh⟩

/-- The login functions without a dependency that loads an account: only `srp-verify` answers
with a token. -/
theorem opening_issued {st : State V} {login : Auth.Request} {reading : Reading} (call : Call)
    (isOpening : login.presented = none) {token : IssuedToken libs.toTokenLib}
    (issued : token ∈ (Auth.serve libs st ⟨login, reading⟩).2.issued) :
    ∃ scope userId, token.Names userId scope ∧ MayIssue libs st reading call userId := by
  have answers := serve_answers libs st ⟨login, reading⟩
  cases answer : (Auth.serve libs st ⟨login, reading⟩).2 with
  | verified serverProof preAuth =>
      rw [answer] at issued
      cases List.mem_singleton.mp issued
      obtain ⟨body, entry, user, -, -, -, -, found, rfl⟩ := serve_verified answer
      have known : user.id ∈ st.db.userIds :=
        List.mem_map_of_mem (List.mem_of_find?_eq_some found)
      exact ⟨.totpOnly, user.id, issueToken_names, .present call user.id known⟩
  | tokens access refresh =>
      rw [answer] at answers
      cases login with
      | verify2fa body => cases isOpening
      | refresh refreshToken => cases isOpening
      | _ => cases answers
  | _ =>
      rw [answer] at issued
      cases issued

/-- **Every token an endpoint function issues** names an id it may issue one for. -/
theorem endpoint_mayIssue {st : State V} {reading : Reading} {call : Call}
    {token : IssuedToken libs.toTokenLib}
    (issued : token ∈ (endpoint libs st reading call).2.issued) :
    call.isLimited = true ∧ ∃ scope userId, token.Names userId scope ∧
      MayIssue libs st reading call userId := by
  cases call with
  | register body =>
      exact ⟨rfl, opening_issued _ (rfl : (Auth.Request.register body).presented = none) issued⟩
  | srpInit body =>
      exact ⟨rfl, opening_issued _ (rfl : (Auth.Request.srpInit body).presented = none) issued⟩
  | srpVerify body =>
      exact ⟨rfl, opening_issued _ (rfl : (Auth.Request.srpVerify body).presented = none) issued⟩
  | verify2fa totpCode user =>
      simp only [endpoint, Response.issued, Auth.verify2fa] at issued
      cases stored : storedTotpSecret libs.aead user with
      | none =>
          rw [stored] at issued
          cases issued
      | some totpSecret =>
          rw [stored] at issued
          dsimp only at issued
          by_cases accepted :
              verifyTotp libs.pyotp reading.codeCheckedAt totpSecret totpCode = true
          · rw [if_pos accepted] at issued
            obtain ⟨scope, names⟩ := issuePair_names issued
            exact ⟨rfl, scope, user.id, names, .secondFactor totpCode user totpSecret stored accepted⟩
          · rw [if_neg accepted] at issued
            cases issued
  | refresh claims =>
      simp only [endpoint, Response.issued, refreshTokens] at issued
      cases subject : claims.userId with
      | error raised =>
          rw [subject] at issued
          cases issued
      | ok userId =>
          rw [subject] at issued
          obtain ⟨scope, names⟩ := issuePair_names issued
          exact ⟨rfl, scope, userId, names, .refreshed claims userId subject⟩
  | logout claims =>
      simp only [endpoint, Response.issued, Auth.logout] at issued
      cases subject : claims.userId with
      | error raised =>
          rw [subject] at issued
          cases issued
      | ok userId =>
          rw [subject] at issued
          cases issued
  | _ => cases issued

/-- **Every token of the run** is handed out by an endpoint function that may issue it, called
within the limits. -/
theorem handedOut_mayIssue {earlier : List Event} {event : Event}
    {token : IssuedToken libs.toTokenLib} (handed : token ∈ handedOut libs earlier event) :
    ∃ n pending scope userId, event = .handle n ∧
      ((overlapped libs).run earlier).inFlight[n]? = some pending ∧
      pending.step.exceeded = none ∧ token.Names userId scope ∧
      MayIssue libs ((overlapped libs).run earlier).state pending.step.reading pending.call
        userId := by
  unfold handedOut answered at handed
  cases event with
  | arrive s =>
      match resolved : dependencies libs ((overlapped libs).run earlier).state.db
          s.reading.decodedAt s.request with
      | (db, .error response) =>
          rw [advance_refused resolved] at handed
          dsimp only [Option.map_some, Option.getD_some] at handed
          rw [(dependencies_error resolved).issued] at handed
          cases handed
      | (db, .ok call) =>
          rw [advance_resolved resolved] at handed
          cases handed
  | handle n =>
      cases isNext : ((overlapped libs).run earlier).inFlight[n]? with
      | none =>
          rw [advance_idle isNext] at handed
          cases handed
      | some pending =>
          rw [advance_handle isNext] at handed
          dsimp only [Option.map_some, Option.getD_some, finish] at handed
          cases verdict : limiter pending.step.exceeded pending.call with
          | some detail =>
              rw [verdict] at handed
              cases handed
          | none =>
              rw [verdict] at handed
              obtain ⟨isLimited, scope, userId, names, may⟩ := endpoint_mayIssue handed
              exact ⟨n, pending, scope, userId, rfl, isNext, exceeded_none verdict isLimited, names,
                may⟩

/-- What a function in flight within its limits issues is handed out. -/
theorem handedOut_handle {earlier : List Event} {n : Nat} {s : Step} {call : Call}
    (isNext : ((overlapped libs).run earlier).inFlight[n]? = some ⟨s, call⟩)
    (within : s.exceeded = none) : handedOut libs earlier (.handle n) =
      (endpoint libs ((overlapped libs).run earlier).state s.reading call).2.issued := by
  have verdict : limiter s.exceeded call = none := by
    rw [within]
    exact ite_self _
  unfold handedOut answered
  rw [advance_handle isNext]
  dsimp only [Option.map_some, Option.getD_some, finish]
  rw [verdict]

/-! ## No later request -/

theorem userId_of_isFor {lib : TokenLib} {token : IssuedToken lib} {userId : UserId}
    {claims : TokenClaims} (isFor : token.IsFor userId)
    (parsed : parseClaims token.payload = .ok claims) : claims.userId = .ok userId := by
  obtain ⟨sub, -, -⟩ := parseClaims_ok parsed
  rw [isFor] at sub
  rw [TokenClaims.userId, sub]
  exact toInt_repr userId

/-- The token of the account is verified for the account. -/
theorem PresentsTokenOf.subject {earlier : List Event} {s : Step}
    (readBack : ReadBack libs events) (within : earlier ++ [.arrive s] <+: events) {userId : UserId}
    (presents : PresentsTokenOf libs earlier s userId) {token : String}
    (presented : s.request.presented = some token) {db : Database} {now : Rat} {scope : Scope}
    {claims : TokenClaims}
    (verified : verifyToken libs.toTokenLib db now token scope = .ok claims) :
    claims.userId = .ok userId := by
  obtain ⟨_, isPresented, before, event, isEarlier, issued, handed, rfl, isFor⟩ := presents
  cases presented.symm.trans isPresented
  obtain ⟨raw, decoded, parsed, -, -⟩ := verifyToken_ok verified
  have inRun : before ++ [event] <+: events :=
    (isEarlier.trans (List.prefix_append _ _)).trans within
  rw [readBack before event inRun issued handed now raw decoded] at parsed
  exact userId_of_isFor isFor parsed

/-- A verified token was issued in the run for the user it names. -/
theorem presentsTokenOf_of_verified {earlier : List Event} {s : Step}
    (unforgeable : Unforgeable libs events) (within : earlier ++ [.arrive s] <+: events)
    {token : String} {db : Database} {scope : Scope}
    {claims : TokenClaims} {userId : UserId} (presented : s.request.presented = some token)
    (verified : verifyToken libs.toTokenLib db s.reading.decodedAt token scope = .ok claims)
    (subject : claims.userId = .ok userId) : PresentsTokenOf libs earlier s userId := by
  obtain ⟨raw, decoded, parsed, -, -⟩ := verifyToken_ok verified
  obtain ⟨before, event, isEarlier, issued, handed, sameText, rfl⟩ :=
    unforgeable earlier s within token raw presented decoded
  obtain ⟨-, -, scope', owner, -, -, -, names, -⟩ := handedOut_mayIssue handed
  cases subject.symm.trans (userId_of_isFor names.isFor parsed)
  exact ⟨token, presented, before, event, isEarlier, issued, handed, sameText, names.isFor⟩

/-- A request with a token of a deleted account gets past its dependencies only with a
refresh token. -/
theorem accepted_revives {earlier : List Event} {s : Step} (readBack : ReadBack libs events)
    (within : earlier ++ [.arrive s] <+: events) {userId : UserId}
    (deleted : Deleted libs earlier userId) (presents : PresentsTokenOf libs earlier s userId)
    (accepted : Accepted libs earlier s) : RevivesDeleted libs earlier (.arrive s) := by
  obtain ⟨absent, -⟩ := deleted.departed
  obtain ⟨after, call, resolved, limit⟩ := accepted
  have behind := dependencies_ok resolved
  obtain ⟨request, reading, exceeded⟩ := s
  cases behind with
  | verify2fa body _ claims user consumed subject found =>
      cases subject.symm.trans (presents.subject readBack within rfl consumed.verified)
      rw [getUserById, consumed.users] at found
      exact absurd (getUserById_some found).2 absent
  | refresh refreshToken _ claims consumed =>
      exact .presented _ refreshToken claims after userId (Or.inl rfl) (exceeded_none limit rfl)
        consumed (presents.subject readBack within rfl consumed.verified) deleted
  | logout refreshToken _ claims consumed =>
      exact .presented _ refreshToken claims after userId (Or.inr rfl) (exceeded_none limit rfl)
        consumed (presents.subject readBack within rfl consumed.verified) deleted
  | authorized credentials request claims user call verified subject found calls =>
      cases subject.symm.trans (presents.subject readBack within rfl verified)
      exact absurd (getUserById_some found).2 absent
  | _ =>
      obtain ⟨token, presented, -⟩ := presents
      cases presented

/-- The pair that `refresh` and `verify-2fa` answer with is for the account. -/
theorem issuePair_isFor (lib : TokenLib) (reading : Reading) (userId : UserId) :
    ∃ token ∈ (issuePair lib reading userId).issued, token.IsFor userId :=
  ⟨issueAccessToken lib reading.issuedAt userId, List.mem_cons_self, issueToken_names.isFor⟩

theorem RevivesDeleted.not_dead {earlier : List Event} {event : Event}
    (unforgeable : Unforgeable libs events) (within : earlier ++ [event] <+: events)
    (revives : RevivesDeleted libs earlier event) : ¬ Dead libs earlier event := by
  intro dead
  cases revives with
  | presented s refreshToken claims after userId isRequest limit consumed subject deleted =>
      obtain ⟨refuses, -⟩ := dead userId deleted
      obtain ⟨request, reading, exceeded⟩ := s
      cases limit
      rcases isRequest with rfl | rfl
      · have presents :=
          presentsTokenOf_of_verified unforgeable within rfl consumed.verified subject
        refine refuses _ rfl presents ⟨after, .refresh claims, ?_, rfl⟩
        simp only [dependencies, requireValidRefresh, consumed.passes]
        rfl
      · have presents :=
          presentsTokenOf_of_verified unforgeable within rfl consumed.verified subject
        refine refuses _ rfl presents ⟨after, .logout claims, ?_, rfl⟩
        simp only [dependencies, requireValidRefresh, consumed.passes]
        rfl
  | refreshed n s claims userId isNext limit subject deleted =>
      obtain ⟨token, issued, isFor⟩ := issuePair_isFor libs.toTokenLib s.reading userId
      refine (dead userId deleted).2 token ?_ isFor
      rw [handedOut_handle isNext limit]
      simp only [endpoint, Response.issued, refreshTokens, subject]
      exact issued
  | secondFactor n s totpCode user totpSecret isNext limit stored accepted deleted =>
      obtain ⟨token, issued, isFor⟩ := issuePair_isFor libs.toTokenLib s.reading user.id
      refine (dead user.id deleted).2 token ?_ isFor
      rw [handedOut_handle isNext limit]
      simp only [endpoint, Response.issued, Auth.verify2fa, stored, accepted, if_true]
      exact issued

theorem dead_step_iff {earlier : List Event} {event : Event}
    (unforgeable : Unforgeable libs events) (readBack : ReadBack libs events)
    (within : earlier ++ [event] <+: events) :
    Dead libs earlier event ↔ ¬ RevivesDeleted libs earlier event := by
  refine ⟨fun dead revives => revives.not_dead unforgeable within dead, ?_⟩
  intro notRevived userId deleted
  constructor
  · rintro s rfl presents accepted
    exact notRevived (accepted_revives readBack within deleted presents accepted)
  · intro token handed isFor
    obtain ⟨n, ⟨s, call⟩, scope, owner, rfl, isNext, limit, names, may⟩ :=
      handedOut_mayIssue handed
    cases names.isFor.unique isFor
    cases may with
    | present _ _ known => exact deleted.departed.1 known
    | refreshed claims _ subject =>
        exact notRevived (.refreshed n s claims userId isNext limit subject deleted)
    | secondFactor totpCode user totpSecret stored accepted =>
        exact notRevived
          (.secondFactor n s totpCode user totpSecret isNext limit stored accepted deleted)

/-- **A deleted account is dead** in a run exactly when no event of it takes it for one that
is there. -/
theorem dead_iff (libs : Libraries V) (events : List Event) (unforgeable : Unforgeable libs events)
    (readBack : ReadBack libs events) :
    EachStep (Dead libs) events ↔ ¬ SomeStep (RevivesDeleted libs) events :=
  eachStep_iff_not_someStep fun _ _ within => dead_step_iff unforgeable readBack within

/-! ## A login that outlives its account -/

/-- The second pre-auth token of `deletionRun`. -/
def secondPreAuthPayload : Payload :=
  (tokenPayload 21 1 .totpOnly preauthTokenTtlSeconds).set "jti" (.str "d4")

/-- The tokens the requests of `deletionRun` present. -/
def presentedPayloads : List Payload :=
  [preAuthPayload, accessPayload, refreshPayload, secondPreAuthPayload]

def deletionDigest (jti : String) : Bytes :=
  if jti = "d4" then
    [175, 50, 122, 100, 120, 83, 114, 70, 224, 217, 240, 197, 137, 152, 109, 95,
      6, 125, 46, 35, 81, 161, 202, 90, 10, 73, 98, 66, 77, 160, 228, 8]
  else sampleDigest jti

def deletionLibs : Libraries Bool where
  toTokenLib := recordingLib presentedPayloads deletionDigest
  srp := loginLibs.srp
  aead := loginLibs.aead
  pyotp := loginLibs.pyotp

/-- Ada logs in with both factors.  She begins a second login, and deletes the account
between the two steps of its second factor.  Then she refreshes the first login. -/
def deletionRun : List Event :=
  [.arrive ⟨.register ⟨ada, adaSalt, adaVerifier⟩, adaDraws, none⟩, .handle 0,
    .arrive ⟨.srpInit ⟨ada, adaPublic⟩, { srp := { readAt := 5, sessionId := "s1" } }, none⟩,
    .handle 0,
    .arrive ⟨.srpVerify ⟨"s1", adaProof⟩,
      { issuedAt := 10, jti := "a1", srp := { purgedAt := 6, readAt := 6 } }, none⟩,
    .handle 0,
    .arrive ⟨.verify2fa ⟨adaCode, payloadText preAuthPayload⟩,
      { decodedAt := 19, issuedAt := 20, refreshIssuedAt := 20, jti := "b2" }, none⟩,
    .handle 0,
    .arrive ⟨.srpInit ⟨ada, adaPublic⟩,
      { srp := { purgedAt := 20, readAt := 20, sessionId := "s2" } }, none⟩,
    .handle 0,
    .arrive ⟨.srpVerify ⟨"s2", adaProof⟩,
      { issuedAt := 21, jti := "d4", srp := { purgedAt := 21, readAt := 21 } }, none⟩,
    .handle 0,
    .arrive ⟨.verify2fa ⟨adaCode, payloadText secondPreAuthPayload⟩,
      { decodedAt := 22, issuedAt := 24, refreshIssuedAt := 24, jti := "e5" }, none⟩,
    .arrive ⟨.authorized (payloadText accessPayload) (.account .deleteMe), { decodedAt := 23 }, none⟩,
    .handle 1, .handle 0,
    .arrive ⟨.refresh (payloadText refreshPayload),
      { decodedAt := 30, issuedAt := 31, refreshIssuedAt := 31, jti := "c3" }, none⟩,
    .handle 0]

theorem deletionRun_readBack : ReadBack deletionLibs deletionRun := by
  have known : EachStep (fun earlier event => ∀ issued ∈ handedOut deletionLibs earlier event,
      ∀ payload ∈ presentedPayloads.find? (fun p => payloadText p = issued.text),
        payload = issued.payload) deletionRun := by
    decide +kernel
  intro earlier event within issued handed now payload decoded
  exact known earlier event within issued handed payload (recordingLib_decode decoded).1

/-- What an event presents. -/
def Event.presented : Event → Option String
  | .arrive s => s.request.presented
  | .handle _ => none

theorem deletionRun_unforgeable : Unforgeable deletionLibs deletionRun := by
  have known : EachStep (fun earlier event => ∀ token ∈ event.presented,
      ∀ payload ∈ presentedPayloads.find? (fun p => payloadText p = token),
        SomeStep (fun before event' => ∃ issued ∈ handedOut deletionLibs before event',
          issued.text = token ∧ issued.payload = payload) earlier) deletionRun := by
    decide +kernel
  intro earlier s within token payload presented decoded
  exact known earlier (.arrive s) within token presented payload (recordingLib_decode decoded).1

theorem dead_iff_deletionRun :
    EachStep (Dead deletionLibs) deletionRun ↔ ¬ SomeStep (RevivesDeleted deletionLibs) deletionRun :=
  dead_iff deletionLibs deletionRun deletionRun_unforgeable deletionRun_readBack

/-- The last request of `deletionRun` gets a token pair for the deleted account. -/
theorem deleted_account_refreshes : ¬ EachStep (Dead deletionLibs) deletionRun := by
  intro each
  have deleted : Deleted deletionLibs (deletionRun.take 17) 1 :=
    ⟨deletionRun.take 14, deletionRun[14], ⟨[deletionRun[15], deletionRun[16]], rfl⟩,
      by decide +kernel, by decide +kernel⟩
  obtain ⟨-, notIssued⟩ := each (deletionRun.take 17) deletionRun[17] (List.prefix_refl _) 1 deleted
  have issued : ∃ token ∈ handedOut deletionLibs (deletionRun.take 17) deletionRun[17],
      token.payload.get? "sub" = some (.str (1 : Int).repr) := by
    decide +kernel
  obtain ⟨token, issues, isFor⟩ := issued
  exact notIssued token issues isFor

/-- So does the second factor that was overtaken by the deletion. -/
example : (handedOut deletionLibs (deletionRun.take 15) deletionRun[15]).map
    (fun token => token.payload.get? "sub") = [some (.str "1"), some (.str "1")] := by
  decide +kernel

end SecureMsg.App
