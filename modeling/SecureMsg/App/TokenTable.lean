/-
# App.TokenTable — signed tokens are as good as a table of them

The application stores no token it has issued: a token is believed for its signature and
its `exp`, and the blocklist holds the `jti`s of those that were used up.  `tabled` is the
same application the plain way.  It keeps the issued tokens in a table, looks a presented
token up there, and strikes a single-use one out; it signs nothing, reads no payload and
has no blocklist.

`served_from_table`: in every run both give every request the same answer and leave the
same rows in the other tables, provided that nobody forges a token, `jwt.decode` reads the
issued ones from `iat` to `exp`, and no `jti` is drawn twice (`Trusted`).
-/
import SecureMsg.Theory.Vouchers
import SecureMsg.Auth.HonestLogin
import SecureMsg.App.Frame
import SecureMsg.App.DeletedAccount

namespace SecureMsg.App

open SecureMsg.Theory SecureMsg.Store SecureMsg.Repository SecureMsg.Auth

set_option autoImplicit false

/-! ## The table -/

/-- The tokens that still open something, by their texts. -/
abbrev TokenTable := Dict String TokenClaims

/-- From the second it was issued until it expires. -/
def inForce (claims : TokenClaims) (now : Rat) : Bool :=
  match claims.iat, claims.exp with
  | some iat, some exp => decide ((iat : Rat) ≤ now) && decide (now < exp)
  | _, _ => false

def look (tokens : TokenTable) (now : Rat) (token : String) (expectedScope : Scope) :
    Option TokenClaims :=
  (tokens.get? token).filter fun claims =>
    decide (claims.scope = some expectedScope.text) && inForce claims now

section Dependencies

variable {lib : TokenLib}

/-- `get_current_user`, by the table. -/
def lookUser (db : Database) (tokens : TokenTable) (now : Rat) (credentials : String) :
    Except (Auth.Response lib) User :=
  match look tokens now credentials .full with
  | none => .error (.httpException 401 "Invalid token")
  | some claims => loadUser db claims

/-- A single-use dependency, by the table. -/
def take (tokens : TokenTable) (now : Rat) (token : String) (expectedScope : Scope)
    (detail : String) : TokenTable × Except (Auth.Response lib) TokenClaims :=
  match look tokens now token expectedScope with
  | none => (tokens, .error (.httpException 401 detail))
  | some claims => (tokens.erase token, .ok claims)

def takeUser (db : Database) (tokens : TokenTable) (now : Rat) (preAuthToken : String) :
    TokenTable × Except (Auth.Response lib) User :=
  match take tokens now preAuthToken .totpOnly "Invalid pre-auth token" with
  | (left, .error response) => (left, .error response)
  | (left, .ok claims) => (left, loadUser db claims)

/-- What a response adds to the table: its tokens, with what they claim. -/
def Response.entries (response : Response lib) : List (String × TokenClaims) :=
  response.issued.filterMap fun token =>
    match parseClaims token.payload with
    | .ok claims => some (token.text, claims)
    | .error _ => none

end Dependencies

section Serve

variable {V : Type} (libs : Libraries V)

def authorizeTabled (db : Database) (tokens : TokenTable) (now : Rat) (credentials : String)
    (request : Authorized) : Except (Response libs.toTokenLib) Call := do
  let currentUser ← (lookUser db tokens now credentials).mapError .login
  match request with
  | .account request =>
      let pending ← (Api.dependencies db currentUser.id request).mapError .account
      return .account pending
  | .keys request => return .keys currentUser request
  | .messages request => return .messages currentUser request

def tabledDependencies (db : Database) (tokens : TokenTable) (now : Rat) :
    Request → TokenTable × Except (Response libs.toTokenLib) Call
  | .health => (tokens, .ok .health)
  | .register body => (tokens, .ok (.register body))
  | .srpInit body => (tokens, .ok (.srpInit body))
  | .srpVerify body => (tokens, .ok (.srpVerify body))
  | .verify2fa body =>
      let (left, user) := takeUser db tokens now body.preAuthToken
      (left, (user.mapError .login).map (.verify2fa body.totpCode))
  | .refresh refreshToken =>
      let (left, claims) := take tokens now refreshToken .refresh "Invalid refresh token"
      (left, (claims.mapError .login).map .refresh)
  | .logout refreshToken =>
      let (left, claims) := take tokens now refreshToken .refresh "Invalid refresh token"
      (left, (claims.mapError .login).map .logout)
  | .authorized credentials request =>
      (tokens, authorizeTabled libs db tokens now credentials request)

/-- The state with a table of tokens; its blocklist stays empty. -/
structure Tabled (V : Type) where
  st : State V := {}
  tokens : TokenTable := Dict.empty

def serveTabled (before : Tabled V) (s : Step) : Tabled V × Response libs.toTokenLib :=
  let (left, resolved) :=
    tabledDependencies libs before.st.db before.tokens s.reading.decodedAt s.request
  match resolved with
  | .error response => (⟨before.st, left⟩, response)
  | .ok call =>
      match limiter s.exceeded call with
      | some detail => (⟨before.st, left⟩, .rateLimitExceeded ("Rate limit exceeded: " ++ detail))
      | none =>
          let (after, response) := endpoint libs before.st s.reading call
          (⟨after, left.setAll response.entries⟩, response)

/-- The application that keeps its tokens. -/
def tabled : System (Tabled V) Step := ⟨{}, fun before s => (serveTabled libs before s).1⟩

def respondTabled (earlier : List Step) (s : Step) : Response libs.toTokenLib :=
  (serveTabled libs ((tabled libs).run earlier) s).2

/-! ## What is relied on -/

/-- The step's response carries the token. -/
def Issues (earlier : List Step) (s : Step) (token : IssuedToken libs.toTokenLib) : Prop :=
  token ∈ (respond libs earlier s).issued

/-- `jwt.decode` accepts only what `jwt.encode` has produced in the run so far. -/
def Unforged (steps : List Step) : Prop :=
  ∀ earlier s, earlier ++ [s] <+: steps → ∀ token payload, s.request.presented = some token →
    libs.decode s.reading.decodedAt token = .ok payload →
      SomeStep (fun before s' => ∃ issued, Issues libs before s' issued ∧ issued.text = token ∧
        issued.payload = payload) earlier

/-- The payload says it was issued and has not expired. -/
def Timely (payload : Payload) (now : Rat) : Prop :=
  ∃ iat exp, payload.get? "iat" = some (.int iat) ∧ payload.get? "exp" = some (.int exp) ∧
    iat ≤ now ∧ now < exp

/-- `jwt.decode` accepts what was issued, in its time, and nothing else; a `jti` drawn for a
token was not drawn for one before. -/
structure Trusted (steps : List Step) : Prop where
  unforged : Unforged libs steps
  reads : EachStep (fun earlier s => ∀ issued, Issues libs earlier s issued → ∀ now payload,
    libs.decode now issued.text = .ok payload ↔ payload = issued.payload ∧ Timely payload now) steps
  fresh : EachStep (fun earlier s => (respond libs earlier s).issued ≠ [] →
    ¬ SomeStep (fun before s' => (respond libs before s').issued ≠ [] ∧
      libs.sha256 s'.reading.jti = libs.sha256 s.reading.jti) earlier) steps

/-- Every answer is the same, and so are all rows but those of the blocklist. -/
structure ServedAlike (steps : List Step) : Prop where
  answers : EachStep (fun earlier s => respond libs earlier s = respondTabled libs earlier s) steps
  rows : ((tabled libs).run steps).st = restock [] ((application libs).run steps)

end Serve

/-! ## What a response issues -/

section Issued

variable {V : Type} {libs : Libraries V} {st : State V} {s : Step}

/-- The tokens of a response: none, a pre-auth token, or a pair. -/
inductive IssuedBy (lib : TokenLib) (reading : Reading) : List (IssuedToken lib) → Prop where
  | nothing : IssuedBy lib reading []
  | preAuth (userId : UserId) :
      IssuedBy lib reading [issuePreauthToken lib reading.issuedAt reading.jti userId]
  | pair (userId : UserId) :
      IssuedBy lib reading [issueAccessToken lib reading.issuedAt userId,
        issueRefreshToken lib reading.refreshIssuedAt reading.jti userId]

theorem login_issuedBy (libs : Libraries V) (st : State V) (login : Auth.Request)
    (reading : Reading) :
    IssuedBy libs.toTokenLib reading (Auth.serve libs st ⟨login, reading⟩).2.issued := by
  cases answer : (Auth.serve libs st ⟨login, reading⟩).2 with
  | verified serverProof preAuth =>
      obtain ⟨body, entry, user, -, -, -, -, -, rfl⟩ := serve_verified answer
      exact .preAuth user.id
  | tokens access refresh =>
      cases serve_tokens answer with
      | secondFactor body claims user totpSecret isRequest consumed subject found stored accepted
          pair =>
          obtain ⟨rfl, rfl⟩ := Response.tokens.inj pair
          exact .pair user.id
      | refreshed refreshToken claims userId isRequest consumed subject pair =>
          obtain ⟨rfl, rfl⟩ := Response.tokens.inj pair
          exact .pair userId
  | _ => exact .nothing

theorem serve_issuedBy (libs : Libraries V) (st : State V) (s : Step) :
    IssuedBy libs.toTokenLib s.reading (serve libs st s).2.issued := by
  cases issued : (serve libs st s).2.issued with
  | nil => exact .nothing
  | cons token rest =>
      have listed : token ∈ (serve libs st s).2.issued := issued ▸ List.mem_cons_self
      rw [← issued]
      have outcome := serve_cases libs st s
      generalize answered : serve libs st s = served at listed outcome
      cases outcome with
      | refused db response resolved =>
          rw [(dependencies_error resolved).issued] at listed
          cases listed
      | limited => cases listed
      | called db call resolved within =>
          obtain ⟨⟨login, isLogin⟩, isLimited⟩ := endpoint_issued (dependencies_ok resolved) listed
          rw [← answered, serve_login isLogin (exceeded_none within isLimited)]
          exact login_issuedBy libs st login s.reading

theorem serve_issuedToken {token : IssuedToken libs.toTokenLib}
    (issued : token ∈ (serve libs st s).2.issued) : ∃ time jti userId scope ttlSeconds,
      token = issueToken libs.toTokenLib time jti userId scope ttlSeconds := by
  have by_ := serve_issuedBy libs st s
  generalize (serve libs st s).2.issued = tokens at issued by_
  cases by_ with
  | nothing => cases issued
  | preAuth userId => exact ⟨_, _, userId, _, _, List.mem_singleton.mp issued⟩
  | pair userId =>
      rcases List.mem_cons.mp issued with isAccess | last
      · exact ⟨_, _, userId, _, _, isAccess⟩
      · exact ⟨_, _, userId, _, _, List.mem_singleton.mp last⟩

/-- Single-use tokens carry the `jti` that was drawn for them. -/
def drawnFor (reading : Reading) : Scope → Option String
  | .full => none
  | .refresh | .totpOnly => some reading.jti

/-- The entry is an issued token with what it claims. -/
structure EntryOf (lib : TokenLib) (reading : Reading) (issued : List (IssuedToken lib))
    (e : String × TokenClaims) (time : Rat) (userId : UserId) (scope : Scope) (ttlSeconds : Int) :
    Prop where
  lasts : 0 < ttlSeconds
  listed : issueToken lib time (drawnFor reading scope) userId scope ttlSeconds ∈ issued
  text : e.1 = (issueToken lib time (drawnFor reading scope) userId scope ttlSeconds).text
  claims : e.2 = claimsOf time (drawnFor reading scope) userId scope ttlSeconds

/-- What is entered for a response, by its tokens. -/
inductive EntriesOf (lib : TokenLib) (reading : Reading) :
    List (IssuedToken lib) → List (String × TokenClaims) → Prop where
  | nothing : EntriesOf lib reading [] []
  | preAuth (userId : UserId) :
      EntriesOf lib reading [issuePreauthToken lib reading.issuedAt reading.jti userId]
        [((issuePreauthToken lib reading.issuedAt reading.jti userId).text,
          claimsOf reading.issuedAt (some reading.jti) userId .totpOnly preauthTokenTtlSeconds)]
  | pair (userId : UserId) :
      EntriesOf lib reading [issueAccessToken lib reading.issuedAt userId,
          issueRefreshToken lib reading.refreshIssuedAt reading.jti userId]
        [((issueAccessToken lib reading.issuedAt userId).text,
            claimsOf reading.issuedAt none userId .full accessTokenTtlSeconds),
          ((issueRefreshToken lib reading.refreshIssuedAt reading.jti userId).text,
            claimsOf reading.refreshIssuedAt (some reading.jti) userId .refresh
              refreshTokenTtlSeconds)]

theorem serve_entriesOf (libs : Libraries V) (st : State V) (s : Step) :
    EntriesOf libs.toTokenLib s.reading (serve libs st s).2.issued (serve libs st s).2.entries := by
  unfold Response.entries
  have issued := serve_issuedBy libs st s
  generalize (serve libs st s).2.issued = tokens at issued ⊢
  cases issued with
  | nothing => exact .nothing
  | preAuth userId =>
      simp only [List.filterMap_cons, issuePreauthToken, parseClaims_issued]
      exact .preAuth userId
  | pair userId =>
      simp only [List.filterMap_cons, issueAccessToken, issueRefreshToken, parseClaims_issued]
      exact .pair userId

/-! ## What an entry says -/

variable {lib : TokenLib} {reading : Reading} {issued : List (IssuedToken lib)}
  {entries : List (String × TokenClaims)} {e e' : String × TokenClaims}

theorem EntriesOf.entry (of : EntriesOf lib reading issued entries) (listed : e ∈ entries) :
    ∃ time userId scope ttlSeconds, EntryOf lib reading issued e time userId scope ttlSeconds := by
  cases of with
  | nothing => cases listed
  | preAuth userId =>
      cases List.mem_singleton.mp listed
      exact ⟨_, userId, .totpOnly, _, by decide, List.mem_singleton_self _, rfl, rfl⟩
  | pair userId =>
      rcases List.mem_cons.mp listed with rfl | last
      · exact ⟨_, userId, .full, _, by decide, List.mem_cons_self, rfl, rfl⟩
      · cases List.mem_singleton.mp last
        exact ⟨_, userId, .refresh, _, by decide,
          List.mem_cons_of_mem _ (List.mem_singleton_self _), rfl, rfl⟩

/-- Every issued token is entered. -/
theorem EntriesOf.entered (of : EntriesOf lib reading issued entries) {token : IssuedToken lib}
    (listed : token ∈ issued) :
    ∃ claims, parseClaims token.payload = .ok claims ∧ (token.text, claims) ∈ entries := by
  cases of with
  | nothing => cases listed
  | preAuth userId =>
      cases List.mem_singleton.mp listed
      exact ⟨_, parseClaims_issued _, List.mem_singleton_self _⟩
  | pair userId =>
      rcases List.mem_cons.mp listed with rfl | last
      · exact ⟨_, parseClaims_issued _, List.mem_cons_self⟩
      · cases List.mem_singleton.mp last
        exact ⟨_, parseClaims_issued _, List.mem_cons_of_mem _ (List.mem_singleton_self _)⟩

/-- A response carries one single-use token at most. -/
theorem EntriesOf.one_drawn (of : EntriesOf lib reading issued entries) (one : e ∈ entries)
    (other : e' ∈ entries) (drawn : e.2.jti ≠ none) (drawn' : e'.2.jti ≠ none) : e = e' := by
  cases of with
  | nothing => cases one
  | preAuth userId => exact (List.mem_singleton.mp one).trans (List.mem_singleton.mp other).symm
  | pair userId =>
      rcases List.mem_cons.mp one with rfl | last
      · exact absurd rfl drawn
      · rcases List.mem_cons.mp other with rfl | last'
        · exact absurd rfl drawn'
        · exact (List.mem_singleton.mp last).trans (List.mem_singleton.mp last').symm

namespace EntryOf

variable {time : Rat} {userId : UserId} {scope : Scope} {ttlSeconds : Int}

theorem jti (entry : EntryOf lib reading issued e time userId scope ttlSeconds) {drawn : String}
    (hasJti : e.2.jti = some drawn) : drawn = reading.jti := by
  rw [entry.claims] at hasJti
  cases scope with
  | full => cases hasJti
  | refresh => exact (Option.some.inj hasJti).symm
  | totpOnly => exact (Option.some.inj hasJti).symm

end EntryOf

theorem timely_issueToken {lib : TokenLib} {time now : Rat} {jti : Option String} {userId : UserId}
    {scope : Scope} {ttlSeconds : Int} :
    Timely (issueToken lib time jti userId scope ttlSeconds).payload now ↔
      (time.floor : Rat) ≤ now ∧ now < (time.floor + ttlSeconds : Int) := by
  have iat : (issueToken lib time jti userId scope ttlSeconds).payload.get? "iat" =
      some (.int time.floor) := issueToken_get? (by decide)
  have exp : (issueToken lib time jti userId scope ttlSeconds).payload.get? "exp" =
      some (.int (time.floor + ttlSeconds)) := issueToken_get? (by decide)
  unfold Timely
  rw [iat, exp]
  constructor
  · rintro ⟨_, _, ⟨⟩, ⟨⟩, started, ends⟩
    exact ⟨started, ends⟩
  · rintro ⟨started, ends⟩
    exact ⟨_, _, rfl, rfl, started, ends⟩

theorem inForce_claimsOf {time now : Rat} {jti : Option String} {userId : UserId} {scope : Scope}
    {ttlSeconds : Int} : inForce (claimsOf time jti userId scope ttlSeconds) now = true ↔
      (time.floor : Rat) ≤ now ∧ now < (time.floor + ttlSeconds : Int) := by
  rw [claimsOf, inForce, Bool.and_eq_true, decide_eq_true_eq, decide_eq_true_eq]

/-- The entry's token, which is good at some time. -/
theorem EntryOf.token {time : Rat} {userId : UserId} {scope : Scope} {ttlSeconds : Int}
    (entry : EntryOf lib reading issued e time userId scope ttlSeconds) :
    ∃ token ∈ issued, token.text = e.1 ∧ parseClaims token.payload = .ok e.2 ∧
      (∀ now, Timely token.payload now ↔ inForce e.2 now = true) ∧
      ∃ now, Timely token.payload now := by
  refine ⟨_, entry.listed, entry.text.symm, ?_, fun now => ?_, time.floor, ?_⟩
  · rw [entry.claims]
    exact parseClaims_issued _
  · rw [entry.claims, timely_issueToken, inForce_claimsOf]
  · rw [timely_issueToken]
    refine ⟨Rat.le_refl, ?_⟩
    rw [Rat.intCast_lt_intCast]
    exact Int.lt_add_of_pos_right _ entry.lasts

/-- The hash a token is blocked under, if it is a single-use one. -/
def serialOf (lib : TokenLib) (claims : TokenClaims) : Option Bytes := claims.jti.map lib.sha256

theorem serialOf_some {claims : TokenClaims} {hash : Bytes} :
    serialOf lib claims = some hash ↔ ∃ jti, claims.jti = some jti ∧ lib.sha256 jti = hash :=
  Option.map_eq_some_iff

/-- In the scope it was issued in, a token that is not revoked is a good one. -/
theorem EntryOf.good {time : Rat} {userId : UserId} {scope : Scope} {ttlSeconds : Int}
    (entry : EntryOf lib reading issued e time userId scope ttlSeconds) (db : Database) :
    isRevoked lib db e.2 scope = false ↔
      Vouchers.Good (serialOf lib) (blockedHashes db) e.2 := by
  by_cases limited : scope = .full
  · subst limited
    have noJti : e.2.jti = none := by
      rw [entry.claims]
      rfl
    refine iff_of_true ?_ ?_
    · rw [isRevoked, noJti]
    · intro hash isSerial
      rw [serialOf, noJti] at isSerial
      cases isSerial
  · rw [← Bool.not_eq_true, isRevoked_iff limited]
    constructor
    · intro notBlocked hash isSerial blocked
      obtain ⟨jti, hasJti, rfl⟩ := serialOf_some.mp isSerial
      exact notBlocked ⟨jti, hasJti, blocked⟩
    · rintro good ⟨jti, hasJti, blocked⟩
      exact good _ (serialOf_some.mpr ⟨jti, hasJti, rfl⟩) blocked

end Issued

/-! ## The tokens of a run -/

section Entered

variable {V : Type} (libs : Libraries V)

/-- What the responses of a run have issued. -/
def entered (steps : List Step) : List (String × TokenClaims) :=
  (application libs).expand (fun st s => (serve libs st s).2.entries) steps

variable {libs} {steps : List Step}

theorem mem_entered {e : String × TokenClaims} : e ∈ entered libs steps ↔
    SomeStep (fun earlier s => e ∈ (respond libs earlier s).entries) steps :=
  System.mem_expand

theorem entriesOf (earlier : List Step) (s : Step) :
    EntriesOf libs.toTokenLib s.reading (respond libs earlier s).issued
      (respond libs earlier s).entries :=
  serve_entriesOf libs _ s

namespace Trusted

theorem of_prefix {earlier : List Step} (trusted : Trusted libs steps) (before : earlier <+: steps) :
    Trusted libs earlier where
  unforged first s within := trusted.unforged first s (within.trans before)
  reads first s within := trusted.reads first s (within.trans before)
  fresh first s within := trusted.fresh first s (within.trans before)

/-- A hash is not drawn again. -/
theorem drawn_once (trusted : Trusted libs steps) {earlier before : List Step} {s s' : Step}
    (within : earlier ++ [s] <+: steps) (first : before ++ [s'] <+: earlier)
    {e e' : String × TokenClaims} (listed : e ∈ (respond libs earlier s).entries)
    (listed' : e' ∈ (respond libs before s').entries) {hash : Bytes}
    (isSerial : serialOf libs.toTokenLib e.2 = some hash) :
    serialOf libs.toTokenLib e'.2 ≠ some hash := by
  intro isSerial'
  obtain ⟨jti, hasJti, rfl⟩ := serialOf_some.mp isSerial
  obtain ⟨jti', hasJti', sameHash⟩ := serialOf_some.mp isSerial'
  obtain ⟨_, _, _, _, entry⟩ := (entriesOf earlier s).entry listed
  obtain ⟨_, _, _, _, entry'⟩ := (entriesOf before s').entry listed'
  rw [entry.jti hasJti, entry'.jti hasJti'] at sameHash
  exact trusted.fresh earlier s within (List.ne_nil_of_mem entry.listed)
    ⟨before, s', first, List.ne_nil_of_mem entry'.listed, sameHash⟩

/-- Two single-use tokens blocked under one hash are one. -/
theorem one_serial (trusted : Trusted libs steps) {earlier earlier' : List Step} {s s' : Step}
    (one : earlier ++ [s] <+: steps) (other : earlier' ++ [s'] <+: steps)
    {e e' : String × TokenClaims} (listed : e ∈ (respond libs earlier s).entries)
    (listed' : e' ∈ (respond libs earlier' s').entries) {hash : Bytes}
    (isSerial : serialOf libs.toTokenLib e.2 = some hash)
    (isSerial' : serialOf libs.toTokenLib e'.2 = some hash) : e = e' := by
  rcases step_order one other with same | before | after
  · subst same
    cases step_unique one other
    obtain ⟨jti, hasJti, -⟩ := serialOf_some.mp isSerial
    obtain ⟨jti', hasJti', -⟩ := serialOf_some.mp isSerial'
    exact (entriesOf earlier s).one_drawn listed listed' (by simp [hasJti]) (by simp [hasJti'])
  · exact absurd isSerial (trusted.drawn_once other before listed' listed isSerial')
  · exact absurd isSerial' (trusted.drawn_once one after listed listed' isSerial)

/-- A text is the text of one token. -/
theorem one_text (trusted : Trusted libs steps) {earlier earlier' : List Step} {s s' : Step}
    (one : earlier ++ [s] <+: steps) (other : earlier' ++ [s'] <+: steps)
    {text : String} {claims claims' : TokenClaims}
    (listed : (text, claims) ∈ (respond libs earlier s).entries)
    (listed' : (text, claims') ∈ (respond libs earlier' s').entries) : claims = claims' := by
  obtain ⟨_, _, _, _, entry⟩ := (entriesOf earlier s).entry listed
  obtain ⟨_, _, _, _, entry'⟩ := (entriesOf earlier' s').entry listed'
  obtain ⟨token, issued, isText, parsed, -, now, timely⟩ := entry.token
  obtain ⟨token', issued', isText', parsed', -⟩ := entry'.token
  have decoded := (trusted.reads earlier s one token issued now _).mpr ⟨rfl, timely⟩
  rw [isText.trans isText'.symm] at decoded
  have samePayload := ((trusted.reads earlier' s' other token' issued' now _).mp decoded).1
  rw [samePayload, parsed'] at parsed
  exact (Except.ok.inj parsed).symm

theorem distinct (trusted : Trusted libs steps) :
    Vouchers.Distinct (serialOf libs.toTokenLib) (entered libs steps) where
  voucher := by
    intro text claims claims' one other
    obtain ⟨earlier, s, within, listed⟩ := mem_entered.mp one
    obtain ⟨earlier', s', within', listed'⟩ := mem_entered.mp other
    exact trusted.one_text within within' listed listed'
  key := by
    intro text claims text' claims' hash one other isSerial isSerial'
    obtain ⟨earlier, s, within, listed⟩ := mem_entered.mp one
    obtain ⟨earlier', s', within', listed'⟩ := mem_entered.mp other
    exact congrArg Prod.fst (trusted.one_serial within within' listed listed' isSerial isSerial')

end Trusted

/-! ## A presented token -/

/-- The table has the issued tokens that are not blocked; what is blocked was issued. -/
structure Keeps (lib : TokenLib) (issued : List (String × TokenClaims)) (db : Database)
    (tokens : TokenTable) : Prop where
  represents : Vouchers.Represents (serialOf lib) issued (blockedHashes db) tokens
  spent : ∀ hash ∈ blockedHashes db, ∃ e ∈ issued, serialOf lib e.2 = some hash

section Presented

variable {earlier : List Step} {s : Step} {db : Database} {tokens : TokenTable} {token : String}
  {expectedScope : Scope}

theorem look_eq_some {now : Rat} {claims : TokenClaims} :
    look tokens now token expectedScope = some claims ↔ tokens.get? token = some claims ∧
      claims.scope = some expectedScope.text ∧ inForce claims now = true := by
  rw [look, Option.filter_eq_some_iff, Bool.and_eq_true, decide_eq_true_eq]

theorem entered_within (within : earlier ++ [s] <+: steps) {before : List Step} {s' : Step}
    (first : before ++ [s'] <+: earlier) : before ++ [s'] <+: steps :=
  (first.trans (List.prefix_append _ _)).trans within

/-- What is found in the table decodes. -/
theorem Trusted.decode_of_look (trusted : Trusted libs steps) (within : earlier ++ [s] <+: steps)
    (keeps : Keeps libs.toTokenLib (entered libs earlier) db tokens) {now : Rat}
    {claims : TokenClaims} (found : look tokens now token expectedScope = some claims) :
    ∃ raw, libs.decode now token = .ok raw := by
  obtain ⟨registered, -, inTime⟩ := look_eq_some.mp found
  obtain ⟨before, s', first, listed⟩ := mem_entered.mp ((keeps.represents token claims).mp registered).1
  obtain ⟨_, _, _, _, entry⟩ := (entriesOf before s').entry listed
  obtain ⟨issued, issues, rfl, -, timely, -⟩ := entry.token
  exact ⟨_, (trusted.reads before s' (entered_within within first) issued issues now _).mpr
    ⟨rfl, (timely now).mpr inTime⟩⟩

/-- What decodes was entered, and is in its time. -/
theorem Trusted.entered_of_decode (trusted : Trusted libs steps) (within : earlier ++ [s] <+: steps)
    (presented : s.request.presented = some token) {raw : Payload}
    (decoded : libs.decode s.reading.decodedAt token = .ok raw) :
    ∃ claims reading issued time userId scope ttlSeconds, parseClaims raw = .ok claims ∧
      (token, claims) ∈ entered libs earlier ∧ inForce claims s.reading.decodedAt = true ∧
      EntryOf libs.toTokenLib reading issued (token, claims) time userId scope ttlSeconds := by
  obtain ⟨before, s', first, issued, issues, rfl, rfl⟩ :=
    trusted.unforged earlier s within token raw presented decoded
  obtain ⟨claims, parsed, listed⟩ := (entriesOf before s').entered issues
  obtain ⟨time, userId, scope, ttlSeconds, entry⟩ := (entriesOf before s').entry listed
  obtain ⟨other, issues', sameText, -, timely, -⟩ := entry.token
  rw [show issued.text = other.text from sameText.symm] at decoded
  have inTime :=
    ((trusted.reads before s' (entered_within within first) other issues' _ _).mp decoded)
  refine ⟨claims, s'.reading, _, time, userId, scope, ttlSeconds, parsed,
    mem_entered.mpr ⟨before, s', first, listed⟩, ?_, entry⟩
  rw [inTime.1] at inTime
  exact (timely _).mp inTime.2

/-- **Verifying a presented token is looking it up.** -/
theorem Trusted.verifyToken_look (trusted : Trusted libs steps) (within : earlier ++ [s] <+: steps)
    (keeps : Keeps libs.toTokenLib (entered libs earlier) db tokens)
    (presented : s.request.presented = some token) :
    (∃ claims, look tokens s.reading.decodedAt token expectedScope = some claims ∧
      verifyToken libs.toTokenLib db s.reading.decodedAt token expectedScope = .ok claims) ∨
    (look tokens s.reading.decodedAt token expectedScope = none ∧ ∃ detail,
      verifyToken libs.toTokenLib db s.reading.decodedAt token expectedScope =
        .error (.invalidToken detail)) := by
  cases decoded : libs.decode s.reading.decodedAt token with
  | error detail =>
      refine Or.inr ⟨?_, detail, ?_⟩
      · rw [Option.eq_none_iff_forall_ne_some]
        intro claims found
        obtain ⟨raw, isOk⟩ := trusted.decode_of_look within keeps found
        rw [decoded] at isOk
        cases isOk
      · rw [verifyToken, decoded]
  | ok raw =>
      obtain ⟨claims, reading, issued, time, userId, scope, ttlSeconds, parsed, listed, inTime, entry⟩ :=
        trusted.entered_of_decode within presented decoded
      have distinct := (trusted.of_prefix ((List.prefix_append earlier [s]).trans within)).distinct
      -- what is under the text is what it claims
      have only : ∀ found, look tokens s.reading.decodedAt token expectedScope = some found →
          found = claims := fun found isFound =>
        keeps.represents.lookup distinct listed (look_eq_some.mp isFound).1
      have isScope : claims.scope = some scope.text := congrArg TokenClaims.scope entry.claims
      rw [verifyToken_of_parsed decoded parsed]
      by_cases sameScope : claims.scope = some expectedScope.text
      · rw [if_neg (not_not.mpr sameScope)]
        cases Scope.text_injective (Option.some.inj (isScope.symm.trans sameScope))
        by_cases revoked : isRevoked libs.toTokenLib db claims expectedScope = true
        · refine Or.inr ⟨?_, _, if_pos revoked⟩
          rw [Option.eq_none_iff_forall_ne_some]
          intro found isFound
          cases only found isFound
          have good := ((keeps.represents _ _).mp (look_eq_some.mp isFound).1).2
          rw [(entry.good db).mpr good] at revoked
          cases revoked
        · refine Or.inl ⟨claims, look_eq_some.mpr ⟨?_, isScope, inTime⟩, if_neg revoked⟩
          have good := (entry.good db).mp (Bool.not_eq_true _ ▸ revoked)
          exact (keeps.represents _ _).mpr ⟨listed, good⟩
      · refine Or.inr ⟨?_, _, if_pos sameScope⟩
        rw [Option.eq_none_iff_forall_ne_some]
        intro found isFound
        cases only found isFound
        exact sameScope (look_eq_some.mp isFound).2.1

/-! ## Dependencies -/

/-- Resolved alike, from a database and from a table: the same result, and only the blocklist
of the database has changed. -/
structure Agree {α : Type} (lib : TokenLib) (issued : List (String × TokenClaims)) (db : Database)
    (signed : Database × α) (plain : TokenTable × α) : Prop where
  result : signed.2 = plain.2
  keeps : Keeps lib issued signed.1 plain.1
  rest : withBlocklist [] signed.1 = withBlocklist [] db

theorem Agree.same {α : Type} {lib : TokenLib} {issued : List (String × TokenClaims)}
    (keeps : Keeps lib issued db tokens) (result : α) :
    Agree lib issued db (db, result) (tokens, result) :=
  ⟨rfl, keeps, rfl⟩

/-- The endpoint is called with what the dependency returned. -/
theorem Agree.toCall {α : Type} {lib : TokenLib} {issued : List (String × TokenClaims)}
    {signed : Database × Except (Auth.Response lib) α}
    {plain : TokenTable × Except (Auth.Response lib) α} (agree : Agree lib issued db signed plain)
    (call : α → Call) :
    Agree lib issued db (signed.1, (signed.2.mapError Response.login).map call)
      (plain.1, (plain.2.mapError Response.login).map call) := by
  refine ⟨?_, agree.keeps, agree.rest⟩
  dsimp only
  rw [agree.result]

/-- A single-use token that was found is blocked, and struck out. -/
theorem Keeps.spend (trusted : Trusted libs earlier)
    (keeps : Keeps libs.toTokenLib (entered libs earlier) db tokens) (limited : expectedScope ≠ .full)
    {now : Rat} {claims : TokenClaims} (c : Constraints db)
    (found : look tokens now token expectedScope = some claims) :
    ∃ after, revokeToken libs.toTokenLib db claims = .ok after ∧
      Keeps libs.toTokenLib (entered libs earlier) after (tokens.erase token) ∧
      withBlocklist [] after = withBlocklist [] db := by
  obtain ⟨registered, inScope, -⟩ := look_eq_some.mp found
  obtain ⟨listed, good⟩ := (keeps.represents token claims).mp registered
  obtain ⟨before, s', within, inResponse⟩ := mem_entered.mp listed
  obtain ⟨time, userId, scope, ttlSeconds, entry⟩ := (entriesOf before s').entry inResponse
  have isClaims := entry.claims
  dsimp only at isClaims
  subst isClaims
  cases Scope.text_injective (Option.some.inj inScope)
  have hasJti : (claimsOf time (drawnFor s'.reading expectedScope) userId expectedScope
      ttlSeconds).jti = some s'.reading.jti := by
    cases expectedScope with
    | full => exact absurd rfl limited
    | refresh => rfl
    | totpOnly => rfl
  have isSerial : serialOf libs.toTokenLib _ = some _ := serialOf_some.mpr ⟨_, hasJti, rfl⟩
  obtain ⟨after, revoked⟩ : ∃ after, revokeToken libs.toTokenLib db _ = .ok after :=
    revokeToken_of_unblocked c hasJti rfl (good _ isSerial)
  obtain ⟨jti, isJti, -, blocked⟩ := revokeToken_blocked revoked
  cases hasJti.symm.trans isJti
  refine ⟨after, revoked, ⟨?_, ?_⟩, ?_⟩
  · rw [blocked]
    exact keeps.represents.spend trusted.distinct registered isSerial
  · intro hash listedHash
    rw [blocked] at listedHash
    rcases List.mem_append.mp listedHash with old | new
    · exact keeps.spent hash old
    · exact ⟨_, listed, List.mem_singleton.mp new ▸ isSerial⟩
  · obtain ⟨_, exp, -, -, rfl⟩ := revokeToken_ok revoked
    rfl

theorem consumeToken_take (trusted : Trusted libs steps) (within : earlier ++ [s] <+: steps)
    (c : Constraints db) (keeps : Keeps libs.toTokenLib (entered libs earlier) db tokens)
    (presented : s.request.presented = some token) (expectedScope : Scope)
    (limited : expectedScope ≠ .full) (detail : String) :
    Agree libs.toTokenLib (entered libs earlier) db
      (consumeToken libs.toTokenLib db s.reading.decodedAt token expectedScope detail)
      (take tokens s.reading.decodedAt token expectedScope detail) := by
  have before := trusted.of_prefix ((List.prefix_append earlier [s]).trans within)
  unfold consumeToken take
  rcases trusted.verifyToken_look within keeps presented with
    ⟨claims, found, verified⟩ | ⟨absent, text, refused⟩
  · obtain ⟨after, revoked, keepsAfter, rest⟩ := keeps.spend before limited c found
    rw [verified, found]
    dsimp only
    rw [revoked]
    exact ⟨rfl, keepsAfter, rest⟩
  · rw [refused, absent]
    exact .same keeps _

theorem requirePreauthUser_takeUser (trusted : Trusted libs steps)
    (within : earlier ++ [s] <+: steps) (c : Constraints db)
    (keeps : Keeps libs.toTokenLib (entered libs earlier) db tokens)
    (presented : s.request.presented = some token) :
    Agree libs.toTokenLib (entered libs earlier) db
      (requirePreauthUser libs.toTokenLib db s.reading.decodedAt token)
      (takeUser (withBlocklist [] db) tokens s.reading.decodedAt token) := by
  have agree := consumeToken_take trusted within c keeps presented .totpOnly Scope.noConfusion
    "Invalid pre-auth token"
  unfold requirePreauthUser takeUser
  generalize consumeToken libs.toTokenLib db s.reading.decodedAt token .totpOnly
    "Invalid pre-auth token" = signed at agree ⊢
  generalize take tokens s.reading.decodedAt token .totpOnly
    "Invalid pre-auth token" = plain at agree ⊢
  obtain ⟨after, resolved⟩ := signed
  obtain ⟨left, resolved'⟩ := plain
  cases agree.result
  cases resolved with
  | error response => exact ⟨rfl, agree.keeps, agree.rest⟩
  | ok claims =>
      have loaded : (loadUser after claims : Except (Auth.Response libs.toTokenLib) User) =
          loadUser (withBlocklist [] db) claims := by
        rw [← agree.rest]
        rfl
      exact ⟨loaded, agree.keeps, agree.rest⟩

theorem getCurrentUser_lookUser (trusted : Trusted libs steps) (within : earlier ++ [s] <+: steps)
    (keeps : Keeps libs.toTokenLib (entered libs earlier) db tokens)
    (presented : s.request.presented = some token) :
    getCurrentUser libs.toTokenLib db s.reading.decodedAt token =
      lookUser (withBlocklist [] db) tokens s.reading.decodedAt token := by
  unfold getCurrentUser lookUser
  rcases trusted.verifyToken_look within keeps presented with
    ⟨claims, found, verified⟩ | ⟨absent, text, refused⟩
  · rw [verified, found]
    rfl
  · rw [refused, absent]
    rfl

theorem authorize_tabled (trusted : Trusted libs steps) (within : earlier ++ [s] <+: steps)
    (keeps : Keeps libs.toTokenLib (entered libs earlier) db tokens)
    (presented : s.request.presented = some token) (request : Authorized) :
    authorize libs db s.reading.decodedAt token request =
      authorizeTabled libs (withBlocklist [] db) tokens s.reading.decodedAt token request := by
  unfold authorize authorizeTabled
  rw [getCurrentUser_lookUser trusted within keeps presented]
  rfl

/-- **The dependencies of a request resolve alike.** -/
theorem dependencies_tabled (trusted : Trusted libs steps) (within : earlier ++ [s] <+: steps)
    (c : Constraints db) (keeps : Keeps libs.toTokenLib (entered libs earlier) db tokens) :
    Agree libs.toTokenLib (entered libs earlier) db
      (dependencies libs db s.reading.decodedAt s.request)
      (tabledDependencies libs (withBlocklist [] db) tokens s.reading.decodedAt s.request) := by
  obtain ⟨request, reading, exceeded⟩ := s
  cases request with
  | verify2fa body =>
      exact (requirePreauthUser_takeUser trusted within c keeps rfl).toCall
        (.verify2fa body.totpCode)
  | refresh refreshToken =>
      exact (consumeToken_take trusted within c keeps rfl .refresh Scope.noConfusion
        "Invalid refresh token").toCall .refresh
  | logout refreshToken =>
      exact (consumeToken_take trusted within c keeps rfl .refresh Scope.noConfusion
        "Invalid refresh token").toCall .logout
  | authorized credentials request =>
      exact ⟨authorize_tabled trusted within keeps rfl request, keeps, rfl⟩
  | _ => exact .same keeps _

end Presented

/-! ## Step for step -/

theorem entered_snoc (steps : List Step) (s : Step) :
    entered libs (steps ++ [s]) = entered libs steps ++ (respond libs steps s).entries :=
  System.expand_snoc _ _ _ _

/-- What a response issues is entered; none of it is blocked yet. -/
theorem Keeps.issue {s : Step} {db : Database} {tokens : TokenTable}
    (trusted : Trusted libs (steps ++ [s]))
    (keeps : Keeps libs.toTokenLib (entered libs steps) db tokens) :
    Keeps libs.toTokenLib (entered libs (steps ++ [s])) db
      (tokens.setAll (respond libs steps s).entries) := by
  have distinct := trusted.distinct
  rw [entered_snoc] at distinct ⊢
  refine ⟨keeps.represents.issue_all distinct ?_, ?_⟩
  · intro e listed hash isSerial blocked
    obtain ⟨e', before, isSerial'⟩ := keeps.spent hash blocked
    obtain ⟨earlier, s', first, listed'⟩ := mem_entered.mp before
    exact trusted.drawn_once (List.prefix_refl _) first listed listed' isSerial isSerial'
  · intro hash blocked
    obtain ⟨e, listed, isSerial⟩ := keeps.spent hash blocked
    exact ⟨e, List.mem_append_left _ listed, isSerial⟩

/-- **A request is served alike.** -/
theorem serve_tabled {s : Step} {plain : Tabled V} {st : State V} {earlier : List Step}
    (trusted : Trusted libs steps) (within : earlier ++ [s] <+: steps) (c : Constraints st.db)
    (rest : plain.st = restock [] st)
    (keeps : Keeps libs.toTokenLib (entered libs earlier) st.db plain.tokens) :
    (serve libs st s).2 = (serveTabled libs plain s).2 ∧
      (serveTabled libs plain s).1.st = restock [] (serve libs st s).1 ∧
      ∃ db left, Keeps libs.toTokenLib (entered libs earlier) db left ∧
        blockedHashes (serve libs st s).1.db = blockedHashes db ∧
        (serveTabled libs plain s).1.tokens = left.setAll (serve libs st s).2.entries := by
  obtain ⟨_, tokens⟩ := plain
  dsimp only at rest keeps
  subst rest
  have agree := dependencies_tabled trusted within c keeps
  have start : restock [] st = { st with db := withBlocklist [] st.db } := rfl
  unfold serve serveTabled
  rw [start]
  dsimp only
  match signed : dependencies libs st.db s.reading.decodedAt s.request,
    plain : tabledDependencies libs (withBlocklist [] st.db) tokens s.reading.decodedAt s.request with
  | (db, resolved), (left, resolved') =>
      rw [signed, plain] at agree
      cases agree.result
      have rest : ({ st with db := withBlocklist [] st.db } : State V) =
          restock [] { st with db := db } := by
        rw [restock, agree.rest]
      rw [rest]
      cases resolved with
      | error response =>
          have silent : response.entries = [] := by
            unfold Response.entries
            rw [(dependencies_error signed).issued]
            rfl
          refine ⟨rfl, rfl, db, left, agree.keeps, rfl, ?_⟩
          dsimp only
          rw [silent]
          rfl
      | ok call =>
          dsimp only
          cases limiter s.exceeded call with
          | some detail => exact ⟨rfl, rfl, db, left, agree.keeps, rfl, rfl⟩
          | none =>
              dsimp only
              rw [endpoint_frame]
              refine ⟨rfl, rfl, db, left, agree.keeps, ?_, rfl⟩
              exact congrArg (List.map _) (endpoint_blocklist _ s.reading call)

/-- The two states after a run. -/
structure Alike (libs : Libraries V) (steps : List Step) (plain : Tabled V) : Prop where
  rest : plain.st = restock [] ((application libs).run steps)
  keeps : Keeps libs.toTokenLib (entered libs steps) ((application libs).run steps).db plain.tokens

theorem serve_alike {s : Step} {plain : Tabled V} (trusted : Trusted libs (steps ++ [s]))
    (alike : Alike libs steps plain) :
    respond libs steps s = (serveTabled libs plain s).2 ∧
      Alike libs (steps ++ [s]) (serveTabled libs plain s).1 := by
  obtain ⟨answer, rest, db, left, keeps, blocked, table⟩ := serve_tabled trusted
    (List.prefix_refl _) (application_constraints libs steps) alike.rest alike.keeps
  have issued := keeps.issue trusted
  refine ⟨answer, ?_, ?_⟩
  · rw [System.run_snoc]
    exact rest
  · rw [System.run_snoc, table]
    refine ⟨?_, ?_⟩
    · show Vouchers.Represents _ _ (blockedHashes (serve libs _ s).1.db) _
      rw [blocked]
      exact issued.represents
    · show ∀ hash ∈ blockedHashes (serve libs _ s).1.db, _
      rw [blocked]
      exact issued.spent

theorem run_alike (trusted : Trusted libs steps) : Alike libs steps ((tabled libs).run steps) := by
  induction steps using List.reverseRecOn with
  | nil => exact ⟨rfl, Vouchers.Represents.empty, fun hash blocked => absurd blocked List.not_mem_nil⟩
  | append_singleton steps s ih =>
      have alike := ih (trusted.of_prefix (List.prefix_append _ _))
      rw [System.run_snoc]
      exact (serve_alike trusted alike).2

/-- **Signed tokens are as good as a table of them.** -/
theorem served_from_table (libs : Libraries V) (steps : List Step) (trusted : Trusted libs steps) :
    ServedAlike libs steps where
  answers := fun _ _ within =>
    (serve_alike (trusted.of_prefix within)
      (run_alike (trusted.of_prefix ((List.prefix_append _ _).trans within)))).1
  rows := (run_alike trusted).rest

end Entered

/-! ## A session with replays -/

/-- A library that also minds `iat`. -/
def punctualLib (produced : List Payload) (sha256 : String → Bytes) : TokenLib where
  encode := payloadText
  decode now token :=
    match produced.find? fun payload => payloadText payload = token with
    | none => .error "Signature verification failed"
    | some payload =>
        match payload.get? "iat", payload.get? "exp" with
        | some (.int iat), some (.int exp) =>
            if now < iat then .error "The token is not yet valid (iat)"
            else if now < exp then .ok payload
            else .error "Signature has expired"
        | _, _ => .ok payload
  sha256 := sha256

theorem punctualLib_reads {produced : List Payload} {sha256 : String → Bytes} {time : Rat}
    {jti : Option String} {userId : UserId} {scope : Scope} {ttlSeconds : Int} {text : String}
    {stored : Payload}
    (isStored : stored = (issueToken (punctualLib produced sha256) time jti userId scope
      ttlSeconds).payload)
    (known : produced.find? (fun payload => payloadText payload = text) = some stored)
    (now : Rat) (payload : Payload) :
    (punctualLib produced sha256).decode now text = .ok payload ↔
      payload = stored ∧ Timely payload now := by
  have iat : stored.get? "iat" = some (.int time.floor) :=
    isStored ▸ issueToken_get? (by decide)
  have exp : stored.get? "exp" = some (.int (time.floor + ttlSeconds)) :=
    isStored ▸ issueToken_get? (by decide)
  have timely : Timely stored now ↔ (time.floor : Rat) ≤ now ∧ now < (time.floor + ttlSeconds : Int) :=
    isStored ▸ timely_issueToken
  have decoded : (punctualLib produced sha256).decode now text =
      if now < time.floor then .error "The token is not yet valid (iat)"
      else if now < (time.floor + ttlSeconds : Int) then .ok stored
      else .error "Signature has expired" := by
    unfold punctualLib
    dsimp only
    rw [known]
    dsimp only
    rw [iat, exp]
  rw [decoded]
  by_cases early : now < time.floor
  · rw [if_pos early]
    refine iff_of_false (by simp) ?_
    rintro ⟨rfl, inTime⟩
    exact Rat.not_le.mpr early (timely.mp inTime).1
  · by_cases live : now < (time.floor + ttlSeconds : Int)
    · rw [if_neg early, if_pos live, Except.ok.injEq]
      constructor
      · rintro rfl
        exact ⟨rfl, timely.mpr ⟨Rat.not_lt.mp early, live⟩⟩
      · exact fun both => both.1.symm
    · rw [if_neg early, if_neg live]
      refine iff_of_false (by simp) ?_
      rintro ⟨rfl, inTime⟩
      exact live (timely.mp inTime).2

def renewedAccessPayload : Payload := tokenPayload 25 1 .full accessTokenTtlSeconds

def renewedRefreshPayload : Payload :=
  (tokenPayload 25 1 .refresh refreshTokenTtlSeconds).set "jti" (.str "c3")

/-- The payloads of the tokens that `sessionRun` issues. -/
def sessionPayloads : List Payload :=
  [preAuthPayload, accessPayload, refreshPayload, renewedAccessPayload, renewedRefreshPayload]

/-- SHA-256 of the `jti`s "a1", "b2" and "c3". -/
def sessionDigest (jti : String) : Bytes :=
  if jti = "c3" then
    [124, 28, 151, 223, 23, 192, 102, 146, 72, 34, 176, 175, 9, 166, 82, 81, 85, 73, 98, 198, 30,
      35, 50, 154, 237, 4, 205, 25, 2, 13, 195, 184]
  else sampleDigest jti

def sessionLibs : Libraries Bool where
  toTokenLib := punctualLib sessionPayloads sessionDigest
  srp := loginLibs.srp
  aead := loginLibs.aead
  pyotp := loginLibs.pyotp

/-- Ada logs in, renews, reads her groups and logs out; each single-use token is sent twice. -/
def sessionRun : List Step :=
  [⟨.register ⟨ada, adaSalt, adaVerifier⟩, adaDraws, none⟩,
    ⟨.srpInit ⟨ada, adaPublic⟩, { srp := { readAt := 5, sessionId := "s1" } }, none⟩,
    ⟨.srpVerify ⟨"s1", adaProof⟩,
      { issuedAt := 10, jti := "a1", srp := { purgedAt := 6, readAt := 6 } }, none⟩,
    ⟨.verify2fa ⟨adaCode, payloadText preAuthPayload⟩,
      { decodedAt := 19, issuedAt := 20, refreshIssuedAt := 20, jti := "b2" }, none⟩,
    ⟨.verify2fa ⟨adaCode, payloadText preAuthPayload⟩,
      { decodedAt := 21, issuedAt := 21, refreshIssuedAt := 21, jti := "d4" }, none⟩,
    ⟨.refresh (payloadText refreshPayload),
      { decodedAt := 24, issuedAt := 25, refreshIssuedAt := 25, jti := "c3" }, none⟩,
    ⟨.refresh (payloadText refreshPayload),
      { decodedAt := 26, issuedAt := 27, refreshIssuedAt := 27, jti := "e5" }, none⟩,
    ⟨.authorized (payloadText accessPayload) (.account .listGroups), { decodedAt := 30 }, none⟩,
    ⟨.logout (payloadText renewedRefreshPayload), { decodedAt := 40 }, none⟩,
    ⟨.refresh (payloadText renewedRefreshPayload),
      { decodedAt := 41, issuedAt := 42, refreshIssuedAt := 42, jti := "f6" }, none⟩]

theorem sessionRun_reads : EachStep (fun earlier s => ∀ issued, Issues sessionLibs earlier s issued →
    ∀ now payload, sessionLibs.decode now issued.text = .ok payload ↔
      payload = issued.payload ∧ Timely payload now) sessionRun := by
  have known : EachStep (fun earlier s => ∀ issued ∈ (respond sessionLibs earlier s).issued,
      sessionPayloads.find? (fun payload => payloadText payload = issued.text) =
        some issued.payload) sessionRun := by
    decide +kernel
  intro earlier s within issued issues now payload
  obtain ⟨time, jti, userId, scope, ttlSeconds, isIssued⟩ := serve_issuedToken issues
  exact punctualLib_reads (congrArg IssuedToken.payload isIssued)
    (known earlier s within issued issues) now payload

theorem sessionRun_trusted : Trusted sessionLibs sessionRun where
  unforged := by
    have known : EachStep (fun earlier s => ∀ token ∈ s.request.presented,
        SomeStep (fun before s' => ∃ issued ∈ (respond sessionLibs before s').issued,
          issued.text = token) earlier) sessionRun := by
      decide +kernel
    intro earlier s within token payload presented decoded
    obtain ⟨before, s', first, issued, issues, rfl⟩ := known earlier s within token presented
    have inRun := entered_within within first
    exact ⟨before, s', first, issued, issues, rfl,
      ((sessionRun_reads before s' inRun issued issues _ _).mp decoded).1.symm⟩
  reads := sessionRun_reads
  fresh := by
    decide +kernel

theorem served_from_table_sessionRun : ServedAlike sessionLibs sessionRun :=
  served_from_table sessionLibs sessionRun sessionRun_trusted

example : EachStep (fun earlier s => (respond sessionLibs earlier s).issued = [] ∨
    earlier.length ∈ [2, 3, 5]) sessionRun := by
  decide +kernel

end SecureMsg.App
