/-
# Auth.Login — no token without both factors

A run is a list of served requests, by any clients in any order; the texts they
present as tokens and session ids are arbitrary.  What is assumed of
`jwt.decode` is `TokenLib.Lawful` and, about the run, `Unforged`: a text it
accepts was issued before, with the payload it gives.

A `Chain` is the ancestry of a token pair: an accepted SRP proof, an accepted
TOTP code for the pre-auth token it issued, then refreshes, each with the refresh
token of the link before.  `both_factors`: every access or refresh token issued
in a run ends a chain of that run, and no two steps get past with one token.
-/
import SecureMsg.Auth.Endpoints

namespace SecureMsg.Auth

open SecureMsg.Theory SecureMsg.Store SecureMsg.Repository

set_option autoImplicit false

variable {V : Type} (libs : Libraries V)

/-! ## Steps and tokens of a run -/

/-- The response to a step after a run. -/
def respond (earlier : List Step) (s : Step) : Response libs.toTokenLib :=
  (serve libs ((loginService libs).run earlier) s).2

def Response.issued {lib : TokenLib} : Response lib → List (IssuedToken lib)
  | .verified _ preAuthToken => [preAuthToken]
  | .tokens accessToken refreshToken => [accessToken, refreshToken]
  | _ => []

/-- The text a request presents as a token. -/
def Request.presented : Request → Option String
  | .verify2fa body => some body.preAuthToken
  | .refresh refreshToken | .logout refreshToken => some refreshToken
  | .deleteMe credentials => some credentials
  | .register _ | .srpInit _ | .srpVerify _ | .elsewhere _ => none

/-- `jwt.decode` accepts only what `jwt.encode` has produced in the run so far. -/
def Unforged (steps : List Step) : Prop :=
  ∀ earlier s, earlier ++ [s] <+: steps → ∀ token payload,
    s.request.presented = some token →
      libs.decode s.reading.decodedAt token = .ok payload →
        ∃ before s', before ++ [s'] <+: earlier ∧
          ∃ issued ∈ (respond libs before s').issued,
            issued.text = token ∧ issued.payload = payload

/-! ## Ancestry -/

/-- An `srp-verify` whose proof was accepted for a session whose username resolved
to the user issued the pre-auth token. -/
def FirstFactor (earlier : List Step) (s : Step) (userId : UserId)
    (preAuth : IssuedToken libs.toTokenLib) : Prop :=
  let st := (loginService libs).run earlier
  ∃ body entry user serverProof, s.request = .srpVerify body ∧
    st.sessions.get? body.sessionId = some entry ∧
    ProofAccepted libs.srp entry body.clientProof ∧
    getUserByUsername st.db entry.username = some user ∧ user.id = userId ∧
    respond libs earlier s = .verified serverProof preAuth ∧ preAuth.Names userId .totpOnly

/-- The token was presented before its expiry. -/
def InTime (token : IssuedToken libs.toTokenLib) (s : Step) : Prop :=
  ∃ exp, token.payload.get? "exp" = some (.int exp) ∧ s.reading.decodedAt < exp

/-- A `verify-2fa` that presented the pre-auth token in time, with a code accepted
for the user's stored secret, issued the pair. -/
def SecondFactor (earlier : List Step) (s : Step) (userId : UserId)
    (preAuth access refresh : IssuedToken libs.toTokenLib) : Prop :=
  ∃ totpCode user totpSecret, s.request = .verify2fa ⟨totpCode, preAuth.text⟩ ∧
    InTime libs preAuth s ∧
    getUserById ((loginService libs).run earlier).db userId = some user ∧
    storedTotpSecret libs.aead user = some totpSecret ∧
    verifyTotp libs.pyotp s.reading.codeCheckedAt totpSecret totpCode = true ∧
    respond libs earlier s = .tokens access refresh

/-- A `refresh` that presented the previous refresh token in time issued the pair. -/
def Refreshed (earlier : List Step) (s : Step)
    (previous access refresh : IssuedToken libs.toTokenLib) : Prop :=
  s.request = .refresh previous.text ∧ InTime libs previous s ∧
    respond libs earlier s = .tokens access refresh

/-- The ancestry of a pair issued for the user at a step of a run. -/
inductive Chain (userId : UserId) : List Step → Step →
    IssuedToken libs.toTokenLib → IssuedToken libs.toTokenLib → Prop where
  | login {before earlier : List Step} {proof s : Step}
      {preAuth access refresh : IssuedToken libs.toTokenLib}
      (first : FirstFactor libs before proof userId preAuth)
      (later : before ++ [proof] <+: earlier)
      (second : SecondFactor libs earlier s userId preAuth access refresh) :
      Chain userId earlier s access refresh
  | refresh {before earlier : List Step} {link s : Step}
      {access refresh access' refresh' : IssuedToken libs.toTokenLib}
      (chain : Chain userId before link access refresh)
      (later : before ++ [link] <+: earlier)
      (refreshed : Refreshed libs earlier s refresh access' refresh') :
      Chain userId earlier s access' refresh'

/-- A step that presented a token and was answered with a pair. -/
def Link (earlier : List Step) (s : Step) (token : String) : Prop :=
  s.request.presented = some token ∧ ∃ access refresh, respond libs earlier s = .tokens access refresh

/-- What holds of a run in which nobody gets a token without both factors. -/
structure BothFactors (steps : List Step) : Prop where
  ancestry : ∀ earlier s, earlier ++ [s] <+: steps → ∀ token ∈ (respond libs earlier s).issued,
    token.HasScope .full ∨ token.HasScope .refresh → ∀ userId, token.IsFor userId →
      ∃ access refresh, (token = access ∨ token = refresh) ∧
        Chain libs userId earlier s access refresh
  presentedOnce : ∀ earlier s earlier' s' token, earlier ++ [s] <+: steps →
    earlier' ++ [s'] <+: steps → Link libs earlier s token → Link libs earlier' s' token →
      earlier = earlier'
  loggedOut : ∀ earlier s earlier' s' token, earlier ++ [s] <+: steps →
    earlier' ++ [s'] <+: steps → s.request = .logout token → respond libs earlier s = .noContent →
      ¬ Link libs earlier' s' token

variable {libs} {steps : List Step}

/-! ## A consumed token is consumed once -/

/-- The step verified the token and revoked it. -/
def Consumes (libs : Libraries V) (earlier : List Step) (s : Step) (token : String) : Prop :=
  ∃ scope claims, scope ≠ .full ∧
    Consumed libs.toTokenLib ((loginService libs).run earlier).db s.reading.decodedAt token scope
      claims ((loginService libs).run (earlier ++ [s])).db

theorem Link.consumes {earlier : List Step} {s : Step} {token : String}
    (link : Link libs earlier s token) : Consumes libs earlier s token := by
  obtain ⟨presented, access, refresh, answer⟩ := link
  unfold Consumes
  rw [System.run_snoc]
  cases serve_tokens answer with
  | secondFactor body claims user totpSecret request consumed =>
      rw [request] at presented
      cases presented
      exact ⟨.totpOnly, claims, Scope.noConfusion, consumed⟩
  | refreshed refreshToken claims userId request consumed =>
      rw [request] at presented
      cases presented
      exact ⟨.refresh, claims, Scope.noConfusion, consumed⟩

theorem consumes_of_logout {earlier : List Step} {s : Step} {token : String}
    (request : s.request = .logout token) (answer : respond libs earlier s = .noContent) :
    Consumes libs earlier s token := by
  obtain ⟨claims, consumed⟩ := serve_logout request answer
  unfold Consumes
  rw [System.run_snoc]
  exact ⟨.refresh, claims, Scope.noConfusion, consumed⟩

theorem blocklist_grows {earlier : List Step} (before : earlier <+: steps) {hash : Bytes}
    (blocked : hash ∈ blockedHashes ((loginService libs).run earlier).db) :
    hash ∈ blockedHashes ((loginService libs).run steps).db := by
  induction steps using List.reverseRecOn with
  | nil => exact List.prefix_nil.mp before ▸ blocked
  | append_singleton steps s ih =>
      rcases List.prefix_concat_iff.mp before with rfl | within
      · exact blocked
      · have stays := ih within
        rw [System.run_snoc]
        show hash ∈ blockedHashes (serve libs _ s).1.db
        rcases serve_commits libs ((loginService libs).run steps) s with quiet | ⟨op, committed⟩
        · rw [quiet]
          exact stays
        · rw [committed]
          exact commit_blocklist_grows (login_sound libs steps).constraints op stays

/-- The claims of a token do not depend on when it is presented. -/
theorem consumed_jti (lawful : libs.Lawful) {db after db' after' : Database} {now later : Rat}
    {token : String} {scope scope' : Scope} {claims claims' : TokenClaims}
    (one : Consumed libs.toTokenLib db now token scope claims after)
    (other : Consumed libs.toTokenLib db' later token scope' claims' after') :
    claims.jti = claims'.jti := by
  obtain ⟨raw, decoded, parsed, -, -⟩ := verifyToken_ok one.verified
  obtain ⟨raw', decoded', parsed', -, -⟩ := verifyToken_ok other.verified
  rw [(parseClaims_ok parsed).2.2, (parseClaims_ok parsed').2.2,
    lawful.readsToken decoded decoded']

/-- A consumed token is refused ever after. -/
theorem not_consumes_again (lawful : libs.Lawful) {earlier earlier' : List Step} {s s' : Step}
    {token : String} (first : Consumes libs earlier s token)
    (later : earlier ++ [s] <+: earlier') : ¬ Consumes libs earlier' s' token := by
  rintro ⟨scope', claims', limited, second⟩
  obtain ⟨scope, claims, -, first⟩ := first
  obtain ⟨jti, hasJti, -, inserted⟩ := revokeToken_blocked first.revoked
  have blocked : libs.sha256 jti ∈ blockedHashes ((loginService libs).run (earlier ++ [s])).db := by
    rw [inserted]
    exact List.mem_append_right _ (List.mem_singleton.mpr rfl)
  have still := blocklist_grows later blocked
  obtain ⟨jti', hasJti', fresh, -⟩ := revokeToken_blocked second.revoked
  have same := consumed_jti lawful first second
  rw [hasJti, hasJti'] at same
  cases same
  exact fresh still

theorem consumes_once (lawful : libs.Lawful) {earlier earlier' : List Step} {s s' : Step}
    {token : String} (one : earlier ++ [s] <+: steps) (other : earlier' ++ [s'] <+: steps)
    (first : Consumes libs earlier s token) (second : Consumes libs earlier' s' token) :
    earlier = earlier' := by
  rcases step_order one other with same | before | after
  · exact same
  · exact absurd second (not_consumes_again lawful first before)
  · exact absurd first (not_consumes_again lawful second after)

/-! ## Where an accepted token comes from -/

/-- An access and a refresh token for the user. -/
structure PairFor {lib : TokenLib} (access refresh : IssuedToken lib) (userId : UserId) : Prop where
  access : access.Names userId .full
  refresh : refresh.Names userId .refresh

theorem issuePair_pairFor {lib : TokenLib} {reading : Reading} {userId : UserId}
    {access refresh : IssuedToken lib}
    (pair : issuePair lib reading userId = .tokens access refresh) :
    PairFor access refresh userId := by
  obtain ⟨rfl, rfl⟩ := Response.tokens.inj pair
  exact ⟨issueToken_names, issueToken_names⟩

theorem respond_pairFor {earlier : List Step} {s : Step}
    {access refresh : IssuedToken libs.toTokenLib}
    (answer : respond libs earlier s = .tokens access refresh) :
    ∃ userId, PairFor access refresh userId := by
  cases serve_tokens answer with
  | secondFactor body claims user totpSecret request consumed subject found stored accepted pair =>
      exact ⟨user.id, issuePair_pairFor pair⟩
  | refreshed refreshToken claims userId request consumed subject pair =>
      exact ⟨userId, issuePair_pairFor pair⟩

/-- A token that was issued in the run, by the response that carries it. -/
inductive IssuedAs (libs : Libraries V) (before : List Step) (s : Step)
    (token : IssuedToken libs.toTokenLib) : Scope → UserId → Prop where
  | preAuth (userId : UserId) (factor : FirstFactor libs before s userId token) :
      IssuedAs libs before s token .totpOnly userId
  | access (userId : UserId) (refresh : IssuedToken libs.toTokenLib)
      (answer : respond libs before s = .tokens token refresh)
      (pair : PairFor token refresh userId) : IssuedAs libs before s token .full userId
  | refresh (userId : UserId) (access : IssuedToken libs.toTokenLib)
      (answer : respond libs before s = .tokens access token)
      (pair : PairFor access token userId) : IssuedAs libs before s token .refresh userId

theorem firstFactor_of_verified {before : List Step} {s : Step} {serverProof : String}
    {token : IssuedToken libs.toTokenLib}
    (answer : respond libs before s = .verified serverProof token) :
    ∃ userId, FirstFactor libs before s userId token := by
  obtain ⟨body, entry, user, request, stored, -, proof, found, rfl⟩ := serve_verified answer
  exact ⟨user.id, body, entry, user, serverProof, request, stored, proof, found, rfl, answer,
    issueToken_names⟩

theorem issuedAs_of_issued {before : List Step} {s : Step} {token : IssuedToken libs.toTokenLib}
    (issued : token ∈ (respond libs before s).issued) :
    ∃ scope userId, IssuedAs libs before s token scope userId := by
  cases answer : respond libs before s with
  | verified serverProof preAuth =>
      rw [answer] at issued
      cases List.mem_singleton.mp issued
      obtain ⟨userId, factor⟩ := firstFactor_of_verified answer
      exact ⟨.totpOnly, userId, .preAuth userId factor⟩
  | tokens access refresh =>
      rw [answer] at issued
      obtain ⟨userId, pair⟩ := respond_pairFor answer
      rcases List.mem_cons.mp issued with rfl | last
      · exact ⟨.full, userId, .access userId refresh answer pair⟩
      · cases List.mem_singleton.mp last
        exact ⟨.refresh, userId, .refresh userId access answer pair⟩
  | _ =>
      rw [answer] at issued
      cases issued

theorem IssuedAs.names {before : List Step} {s : Step} {token : IssuedToken libs.toTokenLib}
    {scope : Scope} {userId : UserId} (issued : IssuedAs libs before s token scope userId) :
    token.Names userId scope := by
  cases issued with
  | preAuth userId factor =>
      obtain ⟨body, entry, user, serverProof, -, -, -, -, -, -, names⟩ := factor
      exact names
  | access userId refresh answer pair => exact pair.access
  | refresh userId access answer pair => exact pair.refresh

/-- **An accepted token was issued in the run**, in the scope it is accepted in, for
the user its subject names, and is presented in time. -/
theorem accepted_issued (lawful : libs.Lawful) (unforged : Unforged libs steps)
    {earlier : List Step} {s : Step} (within : earlier ++ [s] <+: steps) {token : String}
    {scope : Scope} {claims : TokenClaims} {db : Database}
    (presented : s.request.presented = some token)
    (accepted : verifyToken libs.toTokenLib db s.reading.decodedAt token scope = .ok claims) :
    ∃ before s' issued userId, before ++ [s'] <+: earlier ∧ issued.text = token ∧
      IssuedAs libs before s' issued scope userId ∧ claims.userId = .ok userId ∧
      InTime libs issued s := by
  obtain ⟨raw, decoded, parsed, inScope, -⟩ := verifyToken_ok accepted
  obtain ⟨before, s', earlierStep, issued, listed, sameText, rfl⟩ :=
    unforged earlier s within token raw presented decoded
  obtain ⟨sub, hasScope, -⟩ := parseClaims_ok parsed
  obtain ⟨scope', userId, issuedAs⟩ := issuedAs_of_issued listed
  have names := issuedAs.names
  have sameScope : scope' = scope := by
    rw [inScope, names.hasScope] at hasScope
    exact Scope.text_injective (Option.some.inj hasScope).symm
  subst sameScope
  refine ⟨before, s', issued, userId, earlierStep, sameText, issuedAs, ?_, ?_⟩
  · rw [names.isFor] at sub
    rw [TokenClaims.userId, sub]
    exact toInt_repr userId
  · obtain ⟨exp, isExp⟩ := names.expires
    exact ⟨exp, isExp, lawful.checksExpiry decoded isExp⟩

/-! ## Every pair ends a chain -/

theorem chain_of_pair (lawful : libs.Lawful) (unforged : Unforged libs steps) :
    ∀ (earlier : List Step) (s : Step) (access refresh : IssuedToken libs.toTokenLib),
      earlier ++ [s] <+: steps → respond libs earlier s = .tokens access refresh →
        ∃ userId, PairFor access refresh userId ∧ Chain libs userId earlier s access refresh := by
  intro earlier
  -- by the length of the run before the step: the token presented was issued earlier
  induction length : earlier.length using Nat.strong_induction_on generalizing earlier with
  | _ n ih =>
      intro s access refresh within answer
      cases serve_tokens answer with
      | secondFactor body claims user totpSecret request consumed subject found stored accepted pair =>
          obtain ⟨before, proof, preAuth, userId, later, sameText, issuedAs, hasId, inTime⟩ :=
            accepted_issued lawful unforged within (by rw [request]; rfl) consumed.verified
          rw [subject] at hasId
          cases hasId
          refine ⟨user.id, issuePair_pairFor pair, ?_⟩
          cases issuedAs with
          | preAuth _ first =>
              refine .login first later ⟨body.totpCode, user, totpSecret, ?_, inTime, found, stored,
                accepted, answer⟩
              rw [request, sameText]
      | refreshed refreshToken claims userId request consumed subject pair =>
          obtain ⟨before, link, previous, userId', later, sameText, issuedAs, hasId, inTime⟩ :=
            accepted_issued lawful unforged within (by rw [request]; rfl) consumed.verified
          rw [subject] at hasId
          cases hasId
          refine ⟨userId, issuePair_pairFor pair, ?_⟩
          cases issuedAs with
          | refresh _ previousAccess previousAnswer previousPair =>
              have shorter : before.length < n := by
                have bound := later.length_le
                rw [List.length_append, List.length_singleton] at bound
                omega
              have isStep : before ++ [link] <+: steps :=
                (later.trans (List.prefix_append _ _)).trans within
              obtain ⟨owner, ownerPair, chain⟩ := ih before.length shorter before rfl link
                previousAccess previous isStep previousAnswer
              have same := ownerPair.refresh.isFor.unique previousPair.refresh.isFor
              subst same
              exact .refresh chain later ⟨by rw [request, sameText], inTime, answer⟩

/-- **No token without both factors.** -/
theorem both_factors (libs : Libraries V) (lawful : libs.Lawful) (steps : List Step)
    (unforged : Unforged libs steps) : BothFactors libs steps where
  ancestry := by
    intro earlier s within token listed limited userId isFor
    cases answer : respond libs earlier s with
    | verified serverProof preAuth =>
        rw [answer] at listed
        cases List.mem_singleton.mp listed
        obtain ⟨owner, factor⟩ := firstFactor_of_verified answer
        have names := (IssuedAs.preAuth owner factor).names
        rcases limited with full | refresh
        · cases full.unique names.hasScope
        · cases refresh.unique names.hasScope
    | tokens access refresh =>
        rw [answer] at listed
        obtain ⟨owner, pair, chain⟩ :=
          chain_of_pair lawful unforged earlier s access refresh within answer
        refine ⟨access, refresh, ?_, ?_⟩
        · rcases List.mem_cons.mp listed with same | last
          · exact Or.inl same
          · exact Or.inr (List.mem_singleton.mp last)
        · have same : owner = userId := by
            rcases List.mem_cons.mp listed with rfl | last
            · exact pair.access.isFor.unique isFor
            · rw [List.mem_singleton.mp last] at isFor
              exact pair.refresh.isFor.unique isFor
          exact same ▸ chain
    | _ =>
        rw [answer] at listed
        cases listed
  presentedOnce := fun _ _ _ _ _ one other first second =>
    consumes_once lawful one other first.consumes second.consumes
  loggedOut := by
    intro earlier s earlier' s' token one other request answer link
    have same := consumes_once lawful one other (consumes_of_logout request answer) link.consumes
    subst same
    cases step_unique one other
    obtain ⟨-, access, refresh, pair⟩ := link
    rw [answer] at pair
    cases pair

/-! ## A login -/

def preAuthPayload : Payload :=
  (tokenPayload 10 1 .totpOnly preauthTokenTtlSeconds).set "jti" (.str "a1")

def accessPayload : Payload := tokenPayload 20 1 .full accessTokenTtlSeconds

def refreshPayload : Payload :=
  (tokenPayload 20 1 .refresh refreshTokenTtlSeconds).set "jti" (.str "b2")

/-- The SRP object is the flag of the accepted proof. -/
def loginLibs : Libraries Bool where
  toTokenLib := recordingLib [preAuthPayload, refreshPayload] sampleDigest
  srp := ⟨fun _ _ _ _ _ => false, fun _ => some ([90], [17]),
    fun _ clientProof => if clientProof = [171] then (some [205], true) else (none, false), id⟩
  aead := ⟨fun _ plaintext => plaintext, fun _ ciphertext => some ciphertext⟩
  pyotp := ⟨fun secret code _ _ => secret = "JBSWY3DP" && code = "123456", fun _ name _ => name⟩

/-- Ada registers, logs in with both factors and refreshes once. -/
def loginRun : List Step :=
  [⟨.register ⟨⟨"ada", by decide⟩, ⟨"5a", by decide⟩, ⟨"0b", by decide⟩⟩,
      { totpSecret := "JBSWY3DP"
        totpNonce := List.replicate 12 0
        verifierNonce := List.replicate 12 1 }⟩,
    ⟨.srpInit ⟨⟨"ada", by decide⟩, ⟨"0c", by decide⟩⟩,
      { srp := { readAt := 5, sessionId := "s1" } }⟩,
    ⟨.srpVerify ⟨"s1", ⟨"ab", by decide⟩⟩,
      { issuedAt := 10, jti := "a1", srp := { purgedAt := 6, readAt := 6 } }⟩,
    ⟨.verify2fa ⟨⟨"123456", by decide⟩, payloadText preAuthPayload⟩,
      { decodedAt := 19, issuedAt := 20, refreshIssuedAt := 20, jti := "b2" }⟩,
    ⟨.refresh (payloadText refreshPayload),
      { decodedAt := 900, issuedAt := 901, refreshIssuedAt := 901, jti := "c3" }⟩]

/-! The requests of the first factor, for other runs. -/

def ada : Username := ⟨"ada", by decide⟩

def adaSalt : Hex := ⟨"5a", by decide⟩

def adaVerifier : Hex := ⟨"0b", by decide⟩

def adaPublic : Hex := ⟨"0c", by decide⟩

def adaProof : Hex := ⟨"ab", by decide⟩

def adaCode : TotpCode := ⟨"123456", by decide⟩

def adaDraws : Reading where
  totpSecret := "JBSWY3DP"
  totpNonce := List.replicate 12 0
  verifierNonce := List.replicate 12 1

/-- Each token presented in the run was issued by the step before. -/
theorem loginRun_unforged : Unforged loginLibs loginRun := by
  intro earlier s within token payload presented accepted
  have found := (recordingLib_decode accepted).1
  obtain ⟨isNext, isTake⟩ := step_iff_take.mp within
  match length : earlier.length with
  | 0 =>
      rw [length] at isNext
      cases isNext
      cases presented
  | 1 =>
      rw [length] at isNext
      cases isNext
      cases presented
  | 2 =>
      rw [length] at isNext
      cases isNext
      cases presented
  | 3 =>
      rw [length] at isNext isTake
      cases isNext
      cases presented
      have known : [preAuthPayload, refreshPayload].find?
          (fun p => payloadText p = payloadText preAuthPayload) = some preAuthPayload := by
        decide +kernel
      rw [known] at found
      cases found
      refine ⟨loginRun.take 2, loginRun[2], by rw [isTake]; exact List.prefix_refl _, ?_⟩
      decide +kernel
  | 4 =>
      rw [length] at isNext isTake
      cases isNext
      cases presented
      have known : [preAuthPayload, refreshPayload].find?
          (fun p => payloadText p = payloadText refreshPayload) = some refreshPayload := by
        decide +kernel
      rw [known] at found
      cases found
      refine ⟨loginRun.take 3, loginRun[3], by rw [isTake]; exact List.prefix_refl _, ?_⟩
      decide +kernel
  | n + 5 =>
      rw [length] at isNext
      cases isNext

theorem both_factors_loginRun : BothFactors loginLibs loginRun :=
  both_factors loginLibs (recordingLib_lawful _ _) loginRun loginRun_unforged

example : (respond loginLibs (loginRun.take 4) loginRun[4]).issued.length = 2 := by
  decide +kernel

end SecureMsg.Auth
