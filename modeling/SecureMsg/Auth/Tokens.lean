/-
# Auth.Tokens — `app/auth/tokens.py`

Tokens are texts made by `jwt.encode` from a payload.  Three scopes share one
format; the refresh and the pre-auth ones carry a `jti`, whose SHA-256 the
blocklist is keyed by.

`jwt.encode`, `jwt.decode` (under the server's secret, at a reading of the wall
clock) and SHA-256 are the `TokenLib` parameter.  `verifyToken_ok` and
`revokeToken_ok` say what passing either function means; `commit_blocklist`
says that no other repository call touches the blocklist.
-/
import SecureMsg.Theory.Decimal
import SecureMsg.Repository.Personal

namespace SecureMsg.Auth

open SecureMsg.Theory SecureMsg.Store SecureMsg.Repository

set_option autoImplicit false

/-! ## Payloads and claims -/

/-- The JSON values of a payload. -/
inductive Value where
  | str (text : String)
  | int (number : Int)
  deriving DecidableEq, Repr

/-- `str(value)`. -/
def Value.toStr : Value → String
  | .str text => text
  | .int number => number.repr

abbrev Payload := Dict String Value

/-- A `TypedDict` with `total=False`: any key may be absent. -/
structure TokenClaims where
  sub : Option String := none
  scope : Option String := none
  jti : Option String := none
  exp : Option Int := none
  iat : Option Int := none
  deriving DecidableEq, Repr

/-- What the authentication code raises. -/
inductive Raised where
  | invalidToken (detail : String)
  | keyError (key : String)
  | valueError (detail : String)
  | attributeError (detail : String)
  /-- The AEAD tag or the text encoding does not check. -/
  | undecryptable
  | repository (raised : Error)
  deriving DecidableEq, Repr

/-- `int(text)`. -/
def toInt (text : String) : Except Raised Int :=
  match parseInt text with
  | some number => .ok number
  | none => .error (.valueError ("invalid literal for int() with base 10: '" ++ text ++ "'"))

/-- `claims[key] = int(str(raw[key]))` where the key is present. -/
def parseIntClaim (raw : Payload) (key : String) : Except Raised (Option Int) :=
  match raw.get? key with
  | none => .ok none
  | some value => (toInt value.toStr).map some

def parseClaims (raw : Payload) : Except Raised TokenClaims := do
  let exp ← parseIntClaim raw "exp"
  let iat ← parseIntClaim raw "iat"
  return { sub := (raw.get? "sub").map Value.toStr
           scope := (raw.get? "scope").map Value.toStr
           jti := (raw.get? "jti").map Value.toStr
           exp := exp
           iat := iat }

inductive Scope where
  | full
  | refresh
  | totpOnly
  deriving DecidableEq, Repr

def Scope.text : Scope → String
  | .full => "full"
  | .refresh => "refresh"
  | .totpOnly => "totp_only"

/-! ## The libraries -/

/-- `jwt.encode` and `jwt.decode` with the server's secret and `HS256`, and the
SHA-256 digest of a text.  `decode` is told the time and gives the payload or the
text of its `PyJWTError`. -/
structure TokenLib where
  encode : Payload → String
  decode : Rat → String → Except String Payload
  sha256 : String → Bytes

/-- What the code relies on in `jwt.decode`: an expired token is refused, and the
payload is read from the token alone. -/
structure TokenLib.Lawful (lib : TokenLib) : Prop where
  checksExpiry : ∀ {now : Rat} {token : String} {payload : Payload} {exp : Int},
    lib.decode now token = .ok payload → payload.get? "exp" = some (.int exp) → now < exp
  readsToken : ∀ {now later : Rat} {token : String} {payload payload' : Payload},
    lib.decode now token = .ok payload → lib.decode later token = .ok payload' →
      payload = payload'

def payloadText (payload : Payload) : String :=
  payload.entries.foldl (fun text e => text ++ e.1 ++ "=" ++ e.2.toStr ++ ";") ""

/-- A library whose secret has signed the payloads of a list and nothing else. -/
def recordingLib (produced : List Payload) (sha256 : String → Bytes) : TokenLib where
  encode := payloadText
  decode now token :=
    match produced.find? fun payload => payloadText payload = token with
    | none => .error "Signature verification failed"
    | some payload =>
        match payload.get? "exp" with
        | some (.int exp) => if now < exp then .ok payload else .error "Signature has expired"
        | _ => .ok payload
  sha256 := sha256

theorem recordingLib_decode {produced : List Payload} {sha256 : String → Bytes} {now : Rat}
    {token : String} {payload : Payload}
    (accepted : (recordingLib produced sha256).decode now token = .ok payload) :
    produced.find? (fun payload => payloadText payload = token) = some payload ∧
      ∀ exp, payload.get? "exp" = some (.int exp) → now < exp := by
  unfold recordingLib at accepted
  dsimp only at accepted
  cases found : produced.find? fun payload => payloadText payload = token with
  | none =>
      rw [found] at accepted
      cases accepted
  | some known =>
      rw [found] at accepted
      dsimp only at accepted
      split at accepted
      case h_1 exp isExp =>
          by_cases inTime : now < exp
          · rw [if_pos inTime] at accepted
            cases accepted
            refine ⟨rfl, ?_⟩
            intro exp' isExp'
            rw [isExp] at isExp'
            cases isExp'
            exact inTime
          · rw [if_neg inTime] at accepted
            cases accepted
      case h_2 notInt =>
          cases accepted
          exact ⟨rfl, fun exp isExp => absurd isExp (notInt exp)⟩

theorem recordingLib_lawful (produced : List Payload) (sha256 : String → Bytes) :
    (recordingLib produced sha256).Lawful where
  checksExpiry := fun accepted isExp => (recordingLib_decode accepted).2 _ isExp
  readsToken := by
    intro now later token payload payload' accepted accepted'
    have found := (recordingLib_decode accepted).1
    rw [(recordingLib_decode accepted').1] at found
    exact (Option.some.inj found).symm

/-- SHA-256 of the `jti`s "a1" and "b2". -/
def sampleDigest (jti : String) : Bytes :=
  if jti = "a1" then
    [245, 95, 241, 111, 102, 244, 51, 96, 38, 107, 149, 219, 111, 143, 236, 1, 215, 96, 49, 5,
      67, 6, 174, 74, 75, 56, 5, 152, 246, 207, 209, 20]
  else
    [72, 20, 217, 32, 147, 172, 138, 15, 74, 33, 99, 171, 135, 222, 229, 9, 186, 48, 106, 88,
      245, 136, 139, 224, 237, 203, 47, 205, 7, 18, 2, 139]

/-! ## Issuing -/

/-- A text made by `jwt.encode`, with the payload it was made from. -/
structure IssuedToken (lib : TokenLib) where
  payload : Payload
  text : String
  signed : text = lib.encode payload

def accessTokenTtlSeconds : Int := 900
def preauthTokenTtlSeconds : Int := 60
def refreshTokenTtlSeconds : Int := 604800

def tokenPayload (now : Int) (userId : UserId) (scope : Scope) (ttlSeconds : Int) : Payload :=
  ⟨[("sub", .str userId.repr), ("scope", .str scope.text), ("exp", .int (now + ttlSeconds)),
    ("iat", .int now)], by
      show ["sub", "scope", "exp", "iat"].Nodup
      decide⟩

/-- `time` is what `time.time()` reads and `jti` what `secrets.token_hex` draws,
if it is called. -/
def issueToken (lib : TokenLib) (time : Rat) (jti : Option String) (userId : UserId)
    (scope : Scope) (ttlSeconds : Int) : IssuedToken lib :=
  let base := tokenPayload time.floor userId scope ttlSeconds
  let payload := match jti with
    | none => base
    | some drawn => base.set "jti" (.str drawn)
  ⟨payload, lib.encode payload, rfl⟩

def issueAccessToken (lib : TokenLib) (time : Rat) (userId : UserId) : IssuedToken lib :=
  issueToken lib time none userId .full accessTokenTtlSeconds

def issuePreauthToken (lib : TokenLib) (time : Rat) (jti : String) (userId : UserId) :
    IssuedToken lib :=
  issueToken lib time (some jti) userId .totpOnly preauthTokenTtlSeconds

def issueRefreshToken (lib : TokenLib) (time : Rat) (jti : String) (userId : UserId) :
    IssuedToken lib :=
  issueToken lib time (some jti) userId .refresh refreshTokenTtlSeconds

/-! ## Verifying and revoking -/

/-- The blocklist lookup of `verify_token`, made for the two single-use scopes. -/
def isRevoked (lib : TokenLib) (db : Database) (claims : TokenClaims) (expectedScope : Scope) :
    Bool :=
  match claims.jti with
  | some jti =>
      (expectedScope = .refresh || expectedScope = .totpOnly) &&
        isRefreshTokenBlocked db (lib.sha256 jti)
  | none => false

/-- `verify_token`: one transaction, which only reads. -/
def verifyToken (lib : TokenLib) (db : Database) (now : Rat) (token : String)
    (expectedScope : Scope) : Except Raised TokenClaims :=
  match lib.decode now token with
  | .error detail => .error (.invalidToken detail)
  | .ok raw => do
      let claims ← parseClaims raw
      if claims.scope ≠ some expectedScope.text then .error (.invalidToken "wrong scope")
      else if isRevoked lib db claims expectedScope then .error (.invalidToken "token revoked")
      else .ok claims

/-- `revoke_token`: one transaction, which inserts the `jti` into the blocklist. -/
def revokeToken (lib : TokenLib) (db : Database) (claims : TokenClaims) :
    Except Raised Database :=
  match claims.jti, claims.exp with
  | none, _ => .error (.keyError "jti")
  | some _, none => .error (.keyError "exp")
  | some jti, some exp =>
      match blockRefreshToken db (lib.sha256 jti) exp with
      | .ok after => .ok after
      | .error e => .error (.repository e)

/-- `int(claims["sub"])`. -/
def TokenClaims.userId (claims : TokenClaims) : Except Raised UserId :=
  match claims.sub with
  | none => .error (.keyError "sub")
  | some sub => toInt sub

/-! ## What an issued token says -/

section Issued

variable {lib : TokenLib} {time : Rat} {jti : Option String} {userId : UserId} {scope : Scope}
  {ttlSeconds : Int}

theorem issueToken_get? {key : String} (other : key ≠ "jti") :
    (issueToken lib time jti userId scope ttlSeconds).payload.get? key =
      (tokenPayload time.floor userId scope ttlSeconds).get? key := by
  cases jti with
  | none => rfl
  | some drawn => exact Dict.get?_set_of_ne _ other _

/-- The token's subject. -/
def IssuedToken.IsFor (token : IssuedToken lib) (userId : UserId) : Prop :=
  token.payload.get? "sub" = some (.str userId.repr)

def IssuedToken.HasScope (token : IssuedToken lib) (scope : Scope) : Prop :=
  token.payload.get? "scope" = some (.str scope.text)

/-- The token names its user and its scope, and says when it expires. -/
structure IssuedToken.Names (token : IssuedToken lib) (userId : UserId) (scope : Scope) : Prop where
  isFor : token.IsFor userId
  hasScope : token.HasScope scope
  expires : ∃ exp, token.payload.get? "exp" = some (.int exp)

theorem issueToken_names :
    (issueToken lib time jti userId scope ttlSeconds).Names userId scope where
  isFor := issueToken_get? (by decide)
  hasScope := issueToken_get? (by decide)
  expires := ⟨_, issueToken_get? (by decide)⟩

theorem Scope.text_injective {a b : Scope} (same : a.text = b.text) : a = b := by
  cases a with
  | full => cases b with | full => rfl | _ => exact absurd same (by decide)
  | refresh => cases b with | refresh => rfl | _ => exact absurd same (by decide)
  | totpOnly => cases b with | totpOnly => rfl | _ => exact absurd same (by decide)

/-- A token has one scope and one subject. -/
theorem IssuedToken.HasScope.unique {token : IssuedToken lib} {a b : Scope}
    (one : token.HasScope a) (other : token.HasScope b) : a = b := by
  have same := Option.some.inj (one.symm.trans other)
  exact Scope.text_injective (Value.str.inj same)

theorem IssuedToken.IsFor.unique {token : IssuedToken lib} {a b : UserId}
    (one : token.IsFor a) (other : token.IsFor b) : a = b := by
  have same := Option.some.inj (one.symm.trans other)
  exact repr_injective (Value.str.inj same)

end Issued

/-! ## What verification and revocation establish -/

theorem toInt_repr (number : Int) : toInt number.repr = .ok number := by
  rw [toInt, parseInt_repr]

theorem parseClaims_ok {raw : Payload} {claims : TokenClaims} (parsed : parseClaims raw = .ok claims) :
    claims.sub = (raw.get? "sub").map Value.toStr ∧
      claims.scope = (raw.get? "scope").map Value.toStr ∧
      claims.jti = (raw.get? "jti").map Value.toStr := by
  obtain ⟨exp, -, rest⟩ := bind_eq_ok.mp parsed
  obtain ⟨iat, -, returned⟩ := bind_eq_ok.mp rest
  cases returned
  exact ⟨rfl, rfl, rfl⟩

/-- The blocklist, by its primary key. -/
def blockedHashes (db : Database) : List Bytes :=
  db.refreshTokenBlocklist.map RefreshTokenBlocklist.jtiHash

theorem isRefreshTokenBlocked_iff {db : Database} {jtiHash : Bytes} :
    isRefreshTokenBlocked db jtiHash = true ↔ jtiHash ∈ blockedHashes db := by
  simp [isRefreshTokenBlocked, blockedHashes]

section Verify

variable {lib : TokenLib} {db after : Database} {now : Rat} {token : String} {scope : Scope}
  {claims : TokenClaims}

theorem isRevoked_iff (limited : scope ≠ .full) :
    isRevoked lib db claims scope = true ↔
      ∃ jti, claims.jti = some jti ∧ lib.sha256 jti ∈ blockedHashes db := by
  have listed : (decide (scope = .refresh) || decide (scope = .totpOnly)) = true := by
    cases scope with
    | full => exact absurd rfl limited
    | refresh => rfl
    | totpOnly => rfl
  unfold isRevoked
  cases claims.jti with
  | none => simp
  | some jti => simp only [listed, Bool.true_and, isRefreshTokenBlocked_iff, Option.some.injEq,
      exists_eq_left']

/-- **What an accepted token is**: decodable, of the expected scope and not on the
blocklist. -/
theorem verifyToken_ok (accepted : verifyToken lib db now token scope = .ok claims) :
    ∃ raw, lib.decode now token = .ok raw ∧ parseClaims raw = .ok claims ∧
      claims.scope = some scope.text ∧ isRevoked lib db claims scope = false := by
  unfold verifyToken at accepted
  cases decoded : lib.decode now token with
  | error detail =>
      rw [decoded] at accepted
      cases accepted
  | ok raw =>
      rw [decoded] at accepted
      obtain ⟨parsed, isParsed, accepted⟩ := bind_eq_ok.mp accepted
      by_cases sameScope : parsed.scope = some scope.text
      · rw [if_neg (not_not.mpr sameScope)] at accepted
        cases revoked : isRevoked lib db parsed scope with
        | true =>
            rw [revoked] at accepted
            cases accepted
        | false =>
            rw [revoked] at accepted
            cases accepted
            exact ⟨raw, rfl, isParsed, sameScope, revoked⟩
      · rw [if_pos sameScope] at accepted
        cases accepted

/-- What verification says of a token that decodes. -/
theorem verifyToken_of_parsed {raw : Payload} (decoded : lib.decode now token = .ok raw)
    (parsed : parseClaims raw = .ok claims) :
    verifyToken lib db now token scope =
      if claims.scope ≠ some scope.text then .error (.invalidToken "wrong scope")
      else if isRevoked lib db claims scope then .error (.invalidToken "token revoked")
      else .ok claims := by
  unfold verifyToken
  rw [decoded]
  show (parseClaims raw >>= _) = _
  rw [parsed]
  rfl

theorem revokeToken_inserts (revoked : revokeToken lib db claims = .ok after) :
    ∃ jti exp, claims.jti = some jti ∧ claims.exp = some exp ∧
      blockRefreshToken db (lib.sha256 jti) exp = .ok after := by
  unfold revokeToken at revoked
  match hasJti : claims.jti, hasExp : claims.exp with
  | none, _ =>
      rw [hasJti] at revoked
      cases revoked
  | some jti, none =>
      rw [hasJti, hasExp] at revoked
      cases revoked
  | some jti, some exp =>
      rw [hasJti, hasExp] at revoked
      dsimp only at revoked
      cases inserted : blockRefreshToken db (lib.sha256 jti) exp with
      | error e =>
          rw [inserted] at revoked
          cases revoked
      | ok stored =>
          rw [inserted] at revoked
          cases revoked
          exact ⟨jti, exp, rfl, rfl, inserted⟩

/-- **What a revocation does**: it appends the hash, which was not there. -/
theorem revokeToken_ok (revoked : revokeToken lib db claims = .ok after) :
    ∃ jti exp, claims.jti = some jti ∧ lib.sha256 jti ∉ blockedHashes db ∧
      after = { db with
        refreshTokenBlocklist := db.refreshTokenBlocklist ++ [⟨lib.sha256 jti, exp⟩] } := by
  obtain ⟨jti, exp, hasJti, -, inserted⟩ := revokeToken_inserts revoked
  obtain ⟨rfl, distinct⟩ := Database.insertRefreshTokenBlocklist_ok.mp inserted
  refine ⟨jti, exp, hasJti, ?_, rfl⟩
  rw [List.map_append, List.map_singleton, List.nodup_append] at distinct
  intro listed
  exact distinct.2.2 _ listed _ (List.mem_singleton.mpr rfl) rfl

theorem revokeToken_constraints (c : Constraints db)
    (revoked : revokeToken lib db claims = .ok after) : Constraints after := by
  obtain ⟨jti, exp, -, -, inserted⟩ := revokeToken_inserts revoked
  exact c.insertRefreshTokenBlocklist inserted

theorem revokeToken_ne_invalid {detail : String} :
    revokeToken lib db claims ≠ .error (.invalidToken detail) := by
  intro raised
  unfold revokeToken at raised
  split at raised
  · cases raised
  · cases raised
  · split at raised
    · cases raised
    · cases raised

/-- The primary key rejects only a hash that is there. -/
theorem revokeToken_rejected (c : Constraints db) {violated : Violation}
    (rejected : revokeToken lib db claims = .error (.repository (.integrityError violated))) :
    ∃ jti, claims.jti = some jti ∧ lib.sha256 jti ∈ blockedHashes db := by
  unfold revokeToken at rejected
  match hasJti : claims.jti, hasExp : claims.exp with
  | none, _ =>
      rw [hasJti] at rejected
      cases rejected
  | some jti, none =>
      rw [hasJti, hasExp] at rejected
      cases rejected
  | some jti, some exp =>
      refine ⟨jti, rfl, ?_⟩
      by_contra absent
      have distinct : ((db.refreshTokenBlocklist ++
          [(⟨lib.sha256 jti, exp⟩ : RefreshTokenBlocklist)]).map
            RefreshTokenBlocklist.jtiHash).Nodup := by
        rw [List.map_append, List.map_singleton, List.nodup_append]
        refine ⟨c.refreshTokenBlocklist, List.nodup_singleton _, ?_⟩
        intro hash listed other last
        rw [List.mem_singleton.mp last]
        exact ne_of_mem_of_not_mem listed absent
      have inserted : db.insertRefreshTokenBlocklist ⟨lib.sha256 jti, exp⟩ = .ok _ :=
        Database.insertRefreshTokenBlocklist_ok.mpr ⟨rfl, distinct⟩
      rw [hasJti, hasExp] at rejected
      dsimp only at rejected
      rw [blockRefreshToken, inserted] at rejected
      cases rejected

theorem revokeToken_blocked (revoked : revokeToken lib db claims = .ok after) :
    ∃ jti, claims.jti = some jti ∧ lib.sha256 jti ∉ blockedHashes db ∧
      blockedHashes after = blockedHashes db ++ [lib.sha256 jti] := by
  obtain ⟨jti, exp, hasJti, fresh, rfl⟩ := revokeToken_ok revoked
  exact ⟨jti, hasJti, fresh, by simp [blockedHashes]⟩

end Verify

/-! ## Who writes the blocklist -/

/-- The one repository call that inserts into the blocklist. -/
def BlocksToken : Operation → Prop
  | .blockRefreshToken .. => True
  | _ => False

theorem commit_blocklist {db : Database} (c : Constraints db) {op : Operation}
    (other : ¬ BlocksToken op) : blockedHashes (commit db op) = blockedHashes db := by
  refine commit_keeps (P := fun after => blockedHashes after = blockedHashes db) rfl ?_
  intro after done
  cases perform_personal c done with
  | tokenBlocked => exact absurd trivial other
  | accountDeleted userId _ exists_ gone =>
      exact congrArg (List.map _) gone.refreshTokenBlocklist
  | prekeyPopped userId =>
      obtain ⟨rows, popped⟩ := popOneTimePrekey_fst db userId
      rw [popped]
      rfl
  | elsewhere _ _ _ same => exact congrArg (List.map _) same.refreshTokenBlocklist
  | userCreated | accountUnknown | messageStored | messageDeleted => rfl
  | bundleReplaced | bundleStored | prekeysAdded => rfl

/-- The blocklist only grows. -/
theorem commit_blocklist_grows {db : Database} (c : Constraints db) (op : Operation)
    {hash : Bytes} (blocked : hash ∈ blockedHashes db) : hash ∈ blockedHashes (commit db op) := by
  cases op with
  | blockRefreshToken jtiHash expiresAt =>
      refine commit_keeps (P := fun after => hash ∈ blockedHashes after) blocked ?_
      intro after done
      obtain ⟨rfl, -⟩ := Database.insertRefreshTokenBlocklist_ok.mp done
      unfold blockedHashes
      rw [List.map_append]
      exact List.mem_append_left _ blocked
  | _ =>
      rw [commit_blocklist c id]
      exact blocked

end SecureMsg.Auth
