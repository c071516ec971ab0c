/-
# Auth.HonestLogin — whoever has both factors gets in

The converse of `both_factors`: a client that registers, answers the challenge and sends
a right code in time is let in, whatever else the service is asked in between.  Three
things last across the requests of others: the account (`account_lasts`), the handshake
under its session id (`session_lasts`) and the pre-auth token, since what is on the
blocklist was presented (`blocked_presented`).

`honest_login` follows a client through its four requests; `honest_refresh` keeps it
logged in.
-/
import SecureMsg.Auth.Namesake
import SecureMsg.Auth.SrpLifetime

namespace SecureMsg.Auth

open SecureMsg.Theory SecureMsg.Store SecureMsg.Repository

set_option autoImplicit false

variable {V : Type} {libs : Libraries V}

/-! ## What was encrypted -/

/-- What AES-GCM is relied on for: what was sealed under the key opens. -/
def Aead.Opens (aead : Aead) : Prop :=
  ∀ nonce plaintext, aead.decrypt nonce (aead.encrypt nonce plaintext) = some plaintext

theorem decrypt_encrypt {aead : Aead} (opens : aead.Opens) {nonce : Bytes}
    (drawn : nonce.length = nonceLengthBytes) (plaintext : Bytes) :
    decrypt aead (encrypt aead nonce plaintext) = some plaintext := by
  rw [decrypt, encrypt, List.take_left' drawn, List.drop_left' drawn]
  exact opens nonce plaintext

theorem decodeText_encodeText (text : String) : decodeText (encodeText text) = some text := by
  rw [decodeText, encodeText, Array.toArray_toList]
  show String.fromUTF8? text.toUTF8 = some text
  rw [String.fromUTF8?, String.toUTF8_eq_toByteArray, dif_pos text.isValidUTF8]
  rfl

/-! ## The account lasts -/

/-- The row of an account is never changed: it is there as long as its id is. -/
theorem account_lasts {earlier later : List Step} (before : earlier <+: later) {row : User}
    (stored : row ∈ ((loginService libs).run earlier).db.users) :
    row ∈ ((loginService libs).run later).db.users ∨
      Departed ((loginService libs).run later).db row.id := by
  induction later using List.reverseRecOn with
  | nil => exact Or.inl (List.prefix_nil.mp before ▸ stored)
  | append_singleton later s ih =>
      rcases List.prefix_concat_iff.mp before with rfl | within
      · exact Or.inl stored
      · have c := (login_sound libs later).constraints
        have change := (serve_commits libs ((loginService libs).run later) s).users c
        rw [System.run_snoc]
        rcases ih within with there | gone
        · cases change with
          | kept rows drawn =>
              by_cases known : row.id ∈ (serve libs ((loginService libs).run later) s).1.db.userIds
              · obtain ⟨row', stored', same⟩ := List.mem_map.mp known
                have isRow := c.users.unique (rows row' stored') there same
                exact Or.inl (isRow ▸ stored')
              · exact Or.inr ⟨known, lt_of_lt_of_le (c.nextUser row there) drawn⟩
          | created other users isNew free drawn =>
              refine Or.inl ?_
              show row ∈ (serve libs ((loginService libs).run later) s).1.db.users
              rw [users]
              exact List.mem_append_left _ there
        · exact Or.inr (change.departed gone)

theorem departed_lasts {earlier later : List Step} (before : earlier <+: later) {userId : UserId}
    (gone : Departed ((loginService libs).run earlier).db userId) :
    Departed ((loginService libs).run later).db userId := by
  induction later using List.reverseRecOn with
  | nil => exact List.prefix_nil.mp before ▸ gone
  | append_singleton later s ih =>
      rcases List.prefix_concat_iff.mp before with rfl | within
      · exact gone
      · have c := (login_sound libs later).constraints
        rw [System.run_snoc]
        exact ((serve_commits libs ((loginService libs).run later) s).users c).departed (ih within)

/-- An account that is there at the end has been there all along. -/
theorem account_there {earlier later steps : List Step} (before : earlier <+: later)
    (within : later <+: steps) {row : User}
    (stored : row ∈ ((loginService libs).run earlier).db.users)
    (remains : row.id ∈ ((loginService libs).run steps).db.userIds) :
    row ∈ ((loginService libs).run later).db.users := by
  rcases account_lasts before stored with there | gone
  · exact there
  · exact absurd remains (departed_lasts within gone).1

theorem createUser_free {db : Database} {username srpSalt : String}
    {srpVerifierEnc totpSecretEnc : Bytes} (sendable : Sendable username ∧ Sendable srpSalt)
    (free : getUserByUsername db username = none) :
    ∃ after, createUser db username srpSalt srpVerifierEnc totpSecretEnc =
        .ok (after, db.sequences.users) ∧
      ⟨db.sequences.users, username, srpSalt, srpVerifierEnc, totpSecretEnc⟩ ∈ after.users := by
  have untaken : username ∉ db.users.map User.username := by
    intro taken
    obtain ⟨user, found⟩ := getUserByUsername_known taken
    rw [free] at found
    cases found
  have inserted : db.insertUser username srpSalt srpVerifierEnc totpSecretEnc = .ok _ :=
    Database.insertUser_ok.mpr ⟨sendable, untaken, rfl, rfl⟩
  rw [createUser, inserted]
  exact ⟨_, rfl, List.mem_append_right _ (List.mem_singleton_self _)⟩

theorem found_by_name {db : Database} (c : Constraints db) {row : User} (stored : row ∈ db.users) :
    getUserByUsername db row.username = some row :=
  find?_key c.usernames stored

theorem found_by_id {db : Database} (c : Constraints db) {row : User} (stored : row ∈ db.users) :
    getUserById db row.id = some row :=
  find?_key c.users.keys_nodup stored

/-! ## The handshake lasts -/

/-- The request leaves the session alone: it neither names its id nor draws it again, and
`_purge_expired` runs before the session expires. -/
def LeavesSession (sessionId : String) (expiresAt : Rat) (s : Step) : Prop :=
  match s.request with
  | .srpInit _ => s.reading.srp.sessionId ≠ sessionId ∧ s.reading.srp.purgedAt ≤ expiresAt
  | .srpVerify body => body.sessionId ≠ sessionId ∧ s.reading.srp.purgedAt ≤ expiresAt
  | _ => True

theorem session_kept {st : State V} {s : Step} {sessionId : String} {entry : SRPSession V}
    (stored : st.sessions.get? sessionId = some entry)
    (leaves : LeavesSession sessionId entry.expiresAt s) :
    (serve libs st s).1.sessions.get? sessionId = some entry := by
  obtain ⟨request, reading⟩ := s
  cases request with
  | register body =>
      rw [serve, register_sessions]
      exact stored
  | srpInit body =>
      obtain ⟨other, notYet⟩ := leaves
      have kept := purgeExpired_some.mpr ⟨stored, notYet⟩
      unfold serve srpInitEndpoint
      dsimp only
      split
      · exact stored
      · split
        · exact stored
        · dsimp only
          rw [srpInit_fst]
          split
          · rw [Dict.get?_set_of_ne _ (Ne.symm other)]
            exact kept
          · exact kept
  | srpVerify body =>
      obtain ⟨other, notYet⟩ := leaves
      have kept := purgeExpired_some.mpr ⟨stored, notYet⟩
      exact (callSrp_verify reading.srp body.sessionId body.clientProof).mpr ⟨Ne.symm other, kept⟩
  | deleteMe credentials =>
      unfold serve
      dsimp only
      split
      · exact stored
      · exact stored
  | _ => exact stored

theorem session_lasts {earlier between : List Step} {sessionId : String} {entry : SRPSession V}
    (stored : ((loginService libs).run earlier).sessions.get? sessionId = some entry)
    (leaves : ∀ s ∈ between, LeavesSession sessionId entry.expiresAt s) :
    ((loginService libs).run (earlier ++ between)).sessions.get? sessionId = some entry := by
  induction between using List.reverseRecOn with
  | nil =>
      rw [List.append_nil]
      exact stored
  | append_singleton between s ih =>
      rw [← List.append_assoc, System.run_snoc]
      exact session_kept (ih fun other listed => leaves other (List.mem_append_left _ listed))
        (leaves s (List.mem_append_right _ (List.mem_singleton_self s)))

/-! ## The token lasts -/

/-- A `jti` in a token is the one drawn by the request that issued it. -/
theorem issued_jti {before : List Step} {s : Step} {token : IssuedToken libs.toTokenLib}
    (issued : token ∈ (respond libs before s).issued) {value : Value}
    (hasJti : token.payload.get? "jti" = some value) : value = .str s.reading.jti := by
  cases answer : respond libs before s with
  | verified serverProof preAuth =>
      rw [answer] at issued
      cases List.mem_singleton.mp issued
      obtain ⟨body, entry, user, -, -, -, -, -, rfl⟩ := serve_verified answer
      exact Option.some.inj (hasJti.symm.trans (Dict.get?_set_self _ _ _))
  | tokens access refresh =>
      rw [answer] at issued
      have drawn : ∃ userId, access = issueAccessToken libs.toTokenLib s.reading.issuedAt userId ∧
          refresh = issueRefreshToken libs.toTokenLib s.reading.refreshIssuedAt s.reading.jti userId := by
        cases serve_tokens answer with
        | secondFactor body claims user totpSecret request consumed subject found stored accepted pair =>
            obtain ⟨isAccess, isRefresh⟩ := Response.tokens.inj pair
            exact ⟨user.id, isAccess.symm, isRefresh.symm⟩
        | refreshed refreshToken claims userId request consumed subject pair =>
            obtain ⟨isAccess, isRefresh⟩ := Response.tokens.inj pair
            exact ⟨userId, isAccess.symm, isRefresh.symm⟩
      obtain ⟨userId, rfl, rfl⟩ := drawn
      rcases List.mem_cons.mp issued with rfl | last
      · cases hasJti
      · cases List.mem_singleton.mp last
        exact Option.some.inj (hasJti.symm.trans (Dict.get?_set_self _ _ _))
  | _ =>
      rw [answer] at issued
      cases issued

/-- A single-use dependency blocks what it has verified, and nothing else. -/
theorem consumeToken_blocked {lib : TokenLib} {db : Database} {now : Rat} {token detail : String}
    {scope : Scope} {hash : Bytes}
    (blocked : hash ∈ blockedHashes (consumeToken lib db now token scope detail).1) :
    hash ∈ blockedHashes db ∨ ∃ claims jti, verifyToken lib db now token scope = .ok claims ∧
      claims.jti = some jti ∧ lib.sha256 jti = hash := by
  have outcome := consumeToken_cases lib db now token scope detail
  generalize consumeToken lib db now token scope detail = result at blocked outcome
  cases outcome with
  | refused => exact Or.inl blocked
  | rejected => exact Or.inl blocked
  | consumed claims after consumed =>
      obtain ⟨jti, hasJti, -, inserted⟩ := revokeToken_blocked consumed.revoked
      rw [inserted] at blocked
      rcases List.mem_append.mp blocked with old | new
      · exact Or.inl old
      · exact Or.inr ⟨claims, jti, consumed.verified, hasJti, (List.mem_singleton.mp new).symm⟩

/-- How a hash gets onto the blocklist. -/
inductive BlockedBy (libs : Libraries V) (st : State V) (s : Step) (hash : Bytes) : Prop where
  | before (listed : hash ∈ blockedHashes st.db)
  | presented (token : String) (scope : Scope) (claims : TokenClaims) (jti : String)
      (presents : s.request.presented = some token)
      (verified : verifyToken libs.toTokenLib st.db s.reading.decodedAt token scope = .ok claims)
      (hasJti : claims.jti = some jti) (isHash : libs.sha256 jti = hash)
  | elsewhere (op : Operation) (request : s.request = .elsewhere op) (blocks : BlocksToken op)

theorem serve_blocked {st : State V} (c : Constraints st.db) {s : Step} {hash : Bytes}
    (blocked : hash ∈ blockedHashes (serve libs st s).1.db) : BlockedBy libs st s hash := by
  obtain ⟨request, reading⟩ := s
  cases request with
  | register body =>
      rcases register_db libs st reading body with same | ⟨verifier, secret, done⟩
      · exact .before (same ▸ blocked)
      · have kept : blockedHashes (commit st.db
            (.createUser body.username body.srpSalt verifier secret)) = blockedHashes st.db :=
          commit_blocklist c id
        rw [commit_ok done] at kept
        exact .before (kept ▸ blocked)
  | srpInit body => exact .before (srpInitEndpoint_db libs st reading body ▸ blocked)
  | srpVerify body => exact .before blocked
  | verify2fa body =>
      have consumed : hash ∈ blockedHashes
          (requirePreauthUser libs.toTokenLib st.db reading.decodedAt body.preAuthToken).1 := blocked
      rw [requirePreauthUser_fst] at consumed
      rcases consumeToken_blocked consumed with listed | ⟨claims, jti, verified, hasJti, isHash⟩
      · exact .before listed
      · exact .presented _ _ claims jti rfl verified hasJti isHash
  | refresh refreshToken =>
      rcases consumeToken_blocked blocked with listed | ⟨claims, jti, verified, hasJti, isHash⟩
      · exact .before listed
      · exact .presented _ _ claims jti rfl verified hasJti isHash
  | logout refreshToken =>
      rcases consumeToken_blocked blocked with listed | ⟨claims, jti, verified, hasJti, isHash⟩
      · exact .before listed
      · exact .presented _ _ claims jti rfl verified hasJti isHash
  | deleteMe credentials =>
      unfold serve deleteMe at blocked
      dsimp only at blocked
      split at blocked
      · exact .before blocked
      · next currentUser authenticated =>
          split at blocked
          case h_1 after wasThere deleted =>
              have done : perform st.db (.deleteUser currentUser.id) = .ok after := by
                rw [perform, deleted]
                rfl
              have kept : blockedHashes (commit st.db (.deleteUser currentUser.id)) =
                  blockedHashes st.db := commit_blocklist c id
              rw [commit_ok done] at kept
              exact .before (kept ▸ blocked)
          case h_2 => exact .before blocked
  | elsewhere op =>
      by_cases blocks : BlocksToken op
      · exact .elsewhere op rfl blocks
      · exact .before (commit_blocklist c blocks ▸ blocked)

/-- No other endpoint blocks a token. -/
def NoneBlocksElsewhere (steps : List Step) : Prop :=
  ∀ s ∈ steps, ∀ op, s.request = .elsewhere op → ¬ BlocksToken op

/-- The token carries the `jti` that the step which issued it has drawn. -/
def Carries (libs : Libraries V) (before : List Step) (issuing : Step)
    (token : IssuedToken libs.toTokenLib) : Prop :=
  token ∈ (respond libs before issuing).issued ∧
    token.payload.get? "jti" = some (.str issuing.reading.jti)

/-- A token with a `jti` of this hash was issued in the run and then presented. -/
def Presented (libs : Libraries V) (steps : List Step) (hash : Bytes) : Prop :=
  ∃ earlier s before issuing token, earlier ++ [s] <+: steps ∧ before ++ [issuing] <+: earlier ∧
    Carries libs before issuing token ∧ s.request.presented = some token.text ∧
    libs.sha256 issuing.reading.jti = hash

theorem Unforged.of_prefix {earlier steps : List Step} (unforged : Unforged libs steps)
    (before : earlier <+: steps) : Unforged libs earlier :=
  fun first s within => unforged first s (within.trans before)

/-- **What is on the blocklist was presented.** -/
theorem blocked_presented {steps : List Step} (unforged : Unforged libs steps)
    (apart : NoneBlocksElsewhere steps) {hash : Bytes}
    (blocked : hash ∈ blockedHashes ((loginService libs).run steps).db) :
    Presented libs steps hash := by
  induction steps using List.reverseRecOn with
  | nil => cases blocked
  | append_singleton steps s ih =>
      rw [System.run_snoc] at blocked
      cases serve_blocked (login_sound libs steps).constraints blocked with
      | before listed =>
          obtain ⟨earlier, s', before, issuing, token, within, facts⟩ :=
            ih (unforged.of_prefix (List.prefix_append _ _))
              (fun other inSteps => apart other (List.mem_append_left _ inSteps)) listed
          exact ⟨earlier, s', before, issuing, token, within.trans (List.prefix_append _ _), facts⟩
      | presented text scope claims jti presents verified hasJti isHash =>
          obtain ⟨raw, decoded, parsed, -, -⟩ := verifyToken_ok verified
          obtain ⟨before, issuing, earlierStep, token, issued, rfl, rfl⟩ :=
            unforged steps s (List.prefix_refl _) text raw presents decoded
          have claimed := (parseClaims_ok parsed).2.2
          rw [hasJti] at claimed
          obtain ⟨value, hasValue, isText⟩ := Option.map_eq_some_iff.mp claimed.symm
          have isDrawn := issued_jti issued hasValue
          subst isDrawn
          exact ⟨steps, s, before, issuing, token, List.prefix_refl _, earlierStep,
            ⟨issued, hasValue⟩, presents, (congrArg libs.sha256 isText).trans isHash⟩
      | elsewhere op request blocks =>
          exact absurd blocks (apart s (List.mem_append_right _ (List.mem_singleton_self s)) op request)

/-- Of the steps that issue tokens no other has drawn a `jti` of this hash. -/
def DrawsFresh (libs : Libraries V) (steps before : List Step) (issuing : Step) : Prop :=
  ∀ earlier s, earlier ++ [s] <+: steps → (respond libs earlier s).issued ≠ [] →
    libs.sha256 s.reading.jti = libs.sha256 issuing.reading.jti → earlier = before

/-- Nobody else has sent the token in. -/
def Kept (between : List Step) {lib : TokenLib} (token : IssuedToken lib) : Prop :=
  ∀ s ∈ between, s.request.presented ≠ some token.text

/-- What keeps a token from being spent by others. -/
structure Guarded (libs : Libraries V) (before : List Step) (issuing : Step) (between : List Step)
    (token : IssuedToken libs.toTokenLib) : Prop where
  unforged : Unforged libs (before ++ [issuing] ++ between)
  apart : NoneBlocksElsewhere (before ++ [issuing] ++ between)
  fresh : DrawsFresh libs (before ++ [issuing] ++ between) before issuing
  kept : Kept between token

theorem Guarded.not_blocked {before between : List Step} {issuing : Step}
    {token : IssuedToken libs.toTokenLib} (guarded : Guarded libs before issuing between token)
    (only : ∀ other, Carries libs before issuing other → other = token) :
    libs.sha256 issuing.reading.jti ∉
      blockedHashes ((loginService libs).run (before ++ [issuing] ++ between)).db := by
  intro blocked
  obtain ⟨earlier, s, before', issuing', other, within, later, carries, presents, sameHash⟩ :=
    blocked_presented guarded.unforged guarded.apart blocked
  have isStep : before' ++ [issuing'] <+: before ++ [issuing] ++ between :=
    (later.trans (List.prefix_append _ _)).trans within
  have sameStep := guarded.fresh before' issuing' isStep (List.ne_nil_of_mem carries.1) sameHash
  subst sameStep
  cases step_unique isStep (List.prefix_append _ _)
  cases only other carries
  obtain ⟨middle, rfl⟩ := later
  have inside : middle ++ [s] <+: between := by
    rwa [List.append_assoc, List.prefix_append_right_inj] at within
  exact guarded.kept s (inside.subset (List.mem_append_right _ (List.mem_singleton_self s))) presents

section Issued

variable {lib : TokenLib} {time : Rat} {userId : UserId} {scope : Scope} {ttlSeconds : Int}

theorem parseIntClaim_int {raw : Payload} {key : String} {number : Int}
    (hasInt : raw.get? key = some (.int number)) : parseIntClaim raw key = .ok (some number) := by
  rw [parseIntClaim, hasInt]
  show (toInt number.repr).map some = _
  rw [toInt_repr]
  rfl

/-- What an issued token claims. -/
def claimsOf (time : Rat) (jti : Option String) (userId : UserId) (scope : Scope) (ttlSeconds : Int) :
    TokenClaims :=
  ⟨some userId.repr, some scope.text, jti, some (time.floor + ttlSeconds), some time.floor⟩

/-- An issued token is read as it was written. -/
theorem parseClaims_issued (jti : Option String) :
    parseClaims (issueToken lib time jti userId scope ttlSeconds).payload =
      .ok (claimsOf time jti userId scope ttlSeconds) := by
  have others : ∀ key, key ≠ "jti" →
      (issueToken lib time jti userId scope ttlSeconds).payload.get? key =
        (tokenPayload time.floor userId scope ttlSeconds).get? key := fun key => issueToken_get?
  have drawn : (issueToken lib time jti userId scope ttlSeconds).payload.get? "jti" =
      jti.map Value.str := by
    cases jti with
    | none => rfl
    | some drawn => exact Dict.get?_set_self _ _ _
  have exp : parseIntClaim (issueToken lib time jti userId scope ttlSeconds).payload "exp" =
      .ok (some (time.floor + ttlSeconds)) := parseIntClaim_int (others "exp" (by decide))
  have iat : parseIntClaim (issueToken lib time jti userId scope ttlSeconds).payload "iat" =
      .ok (some time.floor) := parseIntClaim_int (others "iat" (by decide))
  rw [parseClaims, exp, iat, others "sub" (by decide), others "scope" (by decide), drawn]
  cases jti with
  | none => rfl
  | some drawn => rfl

theorem claimsOf_userId (jti : Option String) :
    (claimsOf time jti userId scope ttlSeconds).userId = .ok userId :=
  toInt_repr userId

/-- An issued token is accepted in its scope, unless it is on the blocklist. -/
theorem verifyToken_issued {db : Database} {now : Rat} {jti : Option String}
    (decoded : lib.decode now (issueToken lib time jti userId scope ttlSeconds).text =
      .ok (issueToken lib time jti userId scope ttlSeconds).payload)
    (notRevoked : isRevoked lib db (claimsOf time jti userId scope ttlSeconds) scope = false) :
    verifyToken lib db now (issueToken lib time jti userId scope ttlSeconds).text scope =
      .ok (claimsOf time jti userId scope ttlSeconds) := by
  have sameScope : (claimsOf time jti userId scope ttlSeconds).scope = some scope.text := rfl
  rw [verifyToken_of_parsed decoded (parseClaims_issued jti), if_neg (not_not.mpr sameScope),
    notRevoked, if_neg (by decide)]

/-- The primary key has room for a hash that is not there. -/
theorem revokeToken_of_unblocked {db : Database} (c : Constraints db) {claims : TokenClaims}
    {jti : String} {exp : Int} (hasJti : claims.jti = some jti) (hasExp : claims.exp = some exp)
    (unblocked : lib.sha256 jti ∉ blockedHashes db) :
    ∃ after, revokeToken lib db claims = .ok after := by
  have distinct : ((db.refreshTokenBlocklist ++ [(⟨lib.sha256 jti, exp⟩ :
      RefreshTokenBlocklist)]).map RefreshTokenBlocklist.jtiHash).Nodup := by
    rw [List.map_append, List.map_singleton, List.nodup_append]
    refine ⟨c.refreshTokenBlocklist, List.nodup_singleton _, ?_⟩
    intro hash listed other last
    rw [List.mem_singleton.mp last]
    exact ne_of_mem_of_not_mem listed unblocked
  have inserted := Database.insertRefreshTokenBlocklist_ok.mpr ⟨rfl, distinct⟩
  unfold revokeToken
  rw [hasJti, hasExp]
  dsimp only
  rw [blockRefreshToken, inserted]
  exact ⟨_, rfl⟩

/-- **A single-use token that is not on the blocklist passes**, once `jwt.decode` reads it. -/
theorem consumed_of_unblocked {db : Database} (c : Constraints db) {now : Rat} {jti : String}
    (limited : scope ≠ .full)
    (decoded : lib.decode now (issueToken lib time (some jti) userId scope ttlSeconds).text =
      .ok (issueToken lib time (some jti) userId scope ttlSeconds).payload)
    (unblocked : lib.sha256 jti ∉ blockedHashes db) :
    ∃ claims after, Consumed lib db now (issueToken lib time (some jti) userId scope ttlSeconds).text
      scope claims after ∧ claims.userId = .ok userId := by
  have notRevoked : isRevoked lib db (claimsOf time (some jti) userId scope ttlSeconds) scope =
      false := by
    rw [← Bool.not_eq_true, isRevoked_iff limited]
    rintro ⟨jti', same, blocked⟩
    cases same
    exact unblocked blocked
  obtain ⟨after, revoked⟩ : ∃ after, revokeToken lib db
      (claimsOf time (some jti) userId scope ttlSeconds) = .ok after :=
    revokeToken_of_unblocked c rfl rfl unblocked
  exact ⟨_, after, ⟨verifyToken_issued decoded notRevoked, revoked⟩, claimsOf_userId _⟩

/-- **An access token lets its user in**, as long as the account is there. -/
theorem getCurrentUser_issued {db : Database} {now : Rat} (known : userId ∈ db.userIds)
    (decoded : lib.decode now (issueAccessToken lib time userId).text =
      .ok (issueAccessToken lib time userId).payload) :
    ∃ user, getCurrentUser lib db now (issueAccessToken lib time userId).text = .ok user ∧
      user.id = userId := by
  obtain ⟨user, found, isUser⟩ := getUserById_known known
  have verified : verifyToken lib db now (issueAccessToken lib time userId).text .full = _ :=
    verifyToken_issued decoded rfl
  refine ⟨user, ?_, isUser⟩
  rw [getCurrentUser, verified]
  show loadUser db _ = _
  rw [loadUser, claimsOf_userId]
  dsimp only
  rw [found]

end Issued

/-! ## Answers that are no failures -/

section Answers

variable {st : State V} {reading : Reading} {user : User}

theorem register_answers {body : RegisterRequest} {verifier : Bytes}
    (free : getUserByUsername st.db body.username = none)
    (isHex : fromHex body.srpVerifier = some verifier) :
    (∃ uri, (register libs st reading body).2 = .registered st.db.sequences.users uri) ∧
      (⟨st.db.sequences.users, body.username, body.srpSalt,
        encrypt libs.aead reading.verifierNonce verifier,
        encrypt libs.aead reading.totpNonce (encodeText reading.totpSecret)⟩ : User) ∈
          (register libs st reading body).1.db.users := by
  obtain ⟨after, created, stored⟩ :=
    createUser_free ⟨body.username.sendable, body.srpSalt.sendable⟩ free
  unfold register
  rw [free, isHex]
  dsimp only
  rw [if_neg (by decide), created]
  exact ⟨⟨_, rfl⟩, stored⟩

theorem srpInitEndpoint_answers {body : SRPInitRequest} {verifier salt clientPublic : Bytes}
    (found : getUserByUsername st.db body.username = some user)
    (decrypted : decrypt libs.aead user.srpVerifierEnc = some verifier)
    (isSalt : fromHex user.srpSalt = some salt)
    (isPublic : fromHex body.clientPublic = some clientPublic)
    (challenged : (libs.srp.getChallenge (libs.srp.verifier body.username salt verifier clientPublic
      reading.srp.secret)).isSome) :
    (∃ challengeSalt serverPublic, (srpInitEndpoint libs st reading body).2 =
        .challenge reading.srp.sessionId challengeSalt serverPublic) ∧
      (srpInitEndpoint libs st reading body).1.sessions.get? reading.srp.sessionId =
        some ⟨body.username,
          libs.srp.verifier body.username salt verifier clientPublic reading.srp.secret,
          reading.srp.readAt + srpSessionTtlSeconds⟩ := by
  obtain ⟨challenge, isChallenge⟩ := Option.isSome_iff_exists.mp challenged
  unfold srpInitEndpoint
  rw [found]
  dsimp only
  rw [decrypted]
  dsimp only
  unfold srpInit
  rw [isSalt, fromHex_toHex, isPublic]
  dsimp only
  rw [isChallenge]
  exact ⟨⟨_, _, rfl⟩, Dict.get?_set_self _ _ _⟩

theorem srpVerifyEndpoint_answers {body : SRPVerifyRequest} {entry : SRPSession V}
    (stored : st.sessions.get? body.sessionId = some entry) (live : Live reading.srp entry)
    (accepted : ProofAccepted libs.srp entry body.clientProof)
    (found : getUserByUsername st.db entry.username = some user) :
    ∃ serverProof, (srpVerifyEndpoint libs st reading body).2 = .verified serverProof
      (issuePreauthToken libs.toTokenLib reading.issuedAt reading.jti user.id) := by
  obtain ⟨serverProof, verified⟩ := srpVerify_accepts stored live accepted
  refine ⟨serverProof, ?_⟩
  unfold srpVerifyEndpoint
  dsimp only
  rw [verified]
  dsimp only
  rw [found]

theorem verify2fa_answers {body : VerifyTOTPRequest} {claims : TokenClaims} {after : Database}
    {totpSecret : String}
    (consumed : Consumed libs.toTokenLib st.db reading.decodedAt body.preAuthToken .totpOnly claims
      after)
    (subject : claims.userId = .ok user.id) (found : getUserById st.db user.id = some user)
    (secret : storedTotpSecret libs.aead user = some totpSecret)
    (code : verifyTotp libs.pyotp reading.codeCheckedAt totpSecret body.totpCode = true) :
    (serve libs st ⟨.verify2fa body, reading⟩).2 = issuePair libs.toTokenLib reading user.id := by
  have foundAfter : getUserById after user.id = some user := by
    unfold getUserById at found ⊢
    rw [consumed.users]
    exact found
  have loaded : (loadUser after claims : Except (Response libs.toTokenLib) User) = .ok user := by
    unfold loadUser
    rw [subject]
    dsimp only
    rw [foundAfter]
  have passed : (requirePreauthUser libs.toTokenLib st.db reading.decodedAt body.preAuthToken).2 =
      .ok user := by
    unfold requirePreauthUser
    rw [consumed.passes]
    exact loaded
  show andThen (requirePreauthUser _ _ _ _).2 (verify2fa libs reading body.totpCode) = _
  rw [passed]
  show verify2fa libs reading body.totpCode user = _
  rw [verify2fa, secret]
  exact if_pos code

theorem refresh_answers {token : String} {claims : TokenClaims} {after : Database} {userId : UserId}
    (consumed : Consumed libs.toTokenLib st.db reading.decodedAt token .refresh claims after)
    (subject : claims.userId = .ok userId) :
    (serve libs st ⟨.refresh token, reading⟩).2 = issuePair libs.toTokenLib reading userId := by
  unfold serve requireValidRefresh
  dsimp only
  rw [consumed.passes]
  show refreshTokens libs.toTokenLib reading claims = _
  rw [refreshTokens, subject]

end Answers

/-! ## Four requests -/

/-- A client's registration and login, with what each of its requests reads from outside, and
what the service is asked before and in between. -/
structure Journey where
  before : List Step
  registration : RegisterRequest
  registering : Reading
  meanwhile : List Step
  clientPublic : Hex
  opening : Reading
  duringHandshake : List Step
  clientProof : Hex
  proving : Reading
  beforeCode : List Step
  totpCode : TotpCode
  checking : Reading

namespace Journey

variable (libs) (journey : Journey)

def register : Step := ⟨.register journey.registration, journey.registering⟩

/-- The id `register` answers with. -/
def userId : UserId := ((loginService libs).run journey.before).db.sequences.users

def untilInit : List Step := journey.before ++ [journey.register] ++ journey.meanwhile

def init : Step := ⟨.srpInit ⟨journey.registration.username, journey.clientPublic⟩, journey.opening⟩

def untilProof : List Step := journey.untilInit ++ [journey.init] ++ journey.duringHandshake

def prove : Step := ⟨.srpVerify ⟨journey.opening.srp.sessionId, journey.clientProof⟩, journey.proving⟩

/-- The token `srp-verify` answers with. -/
def preAuth : IssuedToken libs.toTokenLib :=
  issuePreauthToken libs.toTokenLib journey.proving.issuedAt journey.proving.jti
    (journey.userId libs)

def untilCode : List Step := journey.untilProof ++ [journey.prove] ++ journey.beforeCode

def sendCode : Step := ⟨.verify2fa ⟨journey.totpCode, (journey.preAuth libs).text⟩, journey.checking⟩

def expiresAt : Rat := journey.opening.srp.readAt + srpSessionTtlSeconds

/-- The users row `register` stores. -/
def account (verifier : Bytes) : User where
  id := journey.userId libs
  username := journey.registration.username
  srpSalt := journey.registration.srpSalt
  srpVerifierEnc := encrypt libs.aead journey.registering.verifierNonce verifier
  totpSecretEnc := encrypt libs.aead journey.registering.totpNonce
    (encodeText journey.registering.totpSecret)

/-- The session `srp-init` stores. -/
def session (salt verifier clientPublic : Bytes) : SRPSession V :=
  ⟨journey.registration.username, libs.srp.verifier journey.registration.username salt verifier
    clientPublic journey.opening.srp.secret, journey.expiresAt⟩

/-- The client knows what it registered, and is in time. -/
structure Honest (salt verifier clientPublic : Bytes) : Prop where
  free : getUserByUsername ((loginService libs).run journey.before).db
    journey.registration.username = none
  isSalt : fromHex journey.registration.srpSalt = some salt
  isVerifier : fromHex journey.registration.srpVerifier = some verifier
  isPublic : fromHex journey.clientPublic = some clientPublic
  verifierNonce : journey.registering.verifierNonce.length = nonceLengthBytes
  totpNonce : journey.registering.totpNonce.length = nonceLengthBytes
  challenged : (libs.srp.getChallenge (journey.session libs salt verifier clientPublic).verifier).isSome
  live : Live journey.proving.srp (journey.session libs salt verifier clientPublic)
  proves : ProofAccepted libs.srp (journey.session libs salt verifier clientPublic) journey.clientProof
  read : libs.decode journey.checking.decodedAt (journey.preAuth libs).text =
    .ok (journey.preAuth libs).payload
  code : verifyTotp libs.pyotp journey.checking.codeCheckedAt journey.registering.totpSecret
    journey.totpCode = true

/-- Nobody deletes the account, names the handshake or sends in the token. -/
structure Undisturbed : Prop where
  remains : journey.userId libs ∈ ((loginService libs).run journey.untilCode).db.userIds
  handshake : ∀ s ∈ journey.duringHandshake,
    LeavesSession journey.opening.srp.sessionId journey.expiresAt s
  token : Guarded libs journey.untilProof journey.prove journey.beforeCode (journey.preAuth libs)

/-- As long as the account is there, whoever presents the token `jwt.decode` reads is its user. -/
def Enters (earlier : List Step) (access : IssuedToken libs.toTokenLib) (userId : UserId) : Prop :=
  ∀ later, earlier <+: later → userId ∈ ((loginService libs).run later).db.userIds →
    ∀ now, libs.decode now access.text = .ok access.payload →
      ∃ user, getCurrentUser libs.toTokenLib ((loginService libs).run later).db now access.text =
        .ok user ∧ user.id = userId

/-- The client is answered, and ends up with the tokens of its account. -/
structure LogsIn : Prop where
  registered : ∃ uri, respond libs journey.before journey.register =
    .registered (journey.userId libs) uri
  challenged : ∃ salt serverPublic, respond libs journey.untilInit journey.init =
    .challenge journey.opening.srp.sessionId salt serverPublic
  proved : ∃ serverProof, respond libs journey.untilProof journey.prove =
    .verified serverProof (journey.preAuth libs)
  loggedIn : ∃ access refresh, respond libs journey.untilCode (journey.sendCode libs) =
    .tokens access refresh ∧ PairFor access refresh (journey.userId libs) ∧
      Enters libs (journey.untilCode ++ [journey.sendCode libs]) access (journey.userId libs)

variable {libs} {journey} {salt verifier clientPublic : Bytes}

namespace Honest

/-- Registration. -/
theorem registration_answered (honest : journey.Honest libs salt verifier clientPublic) :
    (∃ uri, respond libs journey.before journey.register = .registered (journey.userId libs) uri) ∧
      journey.account libs verifier ∈
        ((loginService libs).run (journey.before ++ [journey.register])).db.users := by
  rw [System.run_snoc]
  exact register_answers honest.free honest.isVerifier

theorem account_stored (honest : journey.Honest libs salt verifier clientPublic)
    (undisturbed : journey.Undisturbed libs) {later : List Step}
    (after : journey.before ++ [journey.register] <+: later) (within : later <+: journey.untilCode) :
    journey.account libs verifier ∈ ((loginService libs).run later).db.users :=
  account_there after within honest.registration_answered.2 undisturbed.remains

theorem init_within : journey.untilInit ++ [journey.init] <+: journey.untilCode :=
  (List.prefix_append _ journey.duringHandshake).trans
    ((List.prefix_append _ [journey.prove]).trans (List.prefix_append _ journey.beforeCode))

theorem proof_within : journey.untilProof ++ [journey.prove] <+: journey.untilCode :=
  List.prefix_append _ journey.beforeCode

theorem registered_before_proof : journey.before ++ [journey.register] <+: journey.untilProof :=
  (List.prefix_append _ journey.meanwhile).trans
    ((List.prefix_append _ [journey.init]).trans (List.prefix_append _ journey.duringHandshake))

/-- The challenge. -/
theorem challenge_answered (honest : journey.Honest libs salt verifier clientPublic)
    (opens : libs.aead.Opens) (undisturbed : journey.Undisturbed libs) :
    (∃ challengeSalt serverPublic, respond libs journey.untilInit journey.init =
        .challenge journey.opening.srp.sessionId challengeSalt serverPublic) ∧
      ((loginService libs).run (journey.untilInit ++ [journey.init])).sessions.get?
          journey.opening.srp.sessionId = some (journey.session libs salt verifier clientPublic) := by
  have stored := honest.account_stored undisturbed (List.prefix_append _ journey.meanwhile)
    ((List.prefix_append _ [journey.init]).trans init_within)
  have found := found_by_name (login_sound libs journey.untilInit).constraints stored
  rw [System.run_snoc]
  exact srpInitEndpoint_answers found (decrypt_encrypt opens honest.verifierNonce verifier)
    honest.isSalt honest.isPublic honest.challenged

/-- The proof. -/
theorem proof_answered (honest : journey.Honest libs salt verifier clientPublic)
    (opens : libs.aead.Opens) (undisturbed : journey.Undisturbed libs) :
    ∃ serverProof, respond libs journey.untilProof journey.prove =
      .verified serverProof (journey.preAuth libs) := by
  have stored := session_lasts (honest.challenge_answered opens undisturbed).2 undisturbed.handshake
  have account := honest.account_stored undisturbed registered_before_proof
    ((List.prefix_append _ [journey.prove]).trans proof_within)
  have found := found_by_name (login_sound libs journey.untilProof).constraints account
  exact srpVerifyEndpoint_answers stored honest.live honest.proves found

/-- The proof's answer carries the pre-auth token, and no other. -/
theorem preAuth_only {serverProof : String} (answer : respond libs journey.untilProof journey.prove =
      .verified serverProof (journey.preAuth libs)) (other : IssuedToken libs.toTokenLib)
    (carries : Carries libs journey.untilProof journey.prove other) : other = journey.preAuth libs := by
  have issued := carries.1
  rw [answer] at issued
  exact List.mem_singleton.mp issued

/-- The code. -/
theorem code_answered (honest : journey.Honest libs salt verifier clientPublic)
    (opens : libs.aead.Opens) (undisturbed : journey.Undisturbed libs) :
    respond libs journey.untilCode (journey.sendCode libs) =
      issuePair libs.toTokenLib journey.checking (journey.userId libs) := by
  obtain ⟨serverProof, answer⟩ := honest.proof_answered opens undisturbed
  have c := (login_sound libs journey.untilCode).constraints
  have account := honest.account_stored undisturbed (registered_before_proof.trans
    ((List.prefix_append _ [journey.prove]).trans proof_within)) (List.prefix_refl _)
  have unblocked := undisturbed.token.not_blocked (preAuth_only answer)
  obtain ⟨claims, after, consumed, subject⟩ :=
    consumed_of_unblocked c Scope.noConfusion honest.read unblocked
  have secret : storedTotpSecret libs.aead (journey.account libs verifier) =
      some journey.registering.totpSecret := by
    rw [storedTotpSecret, show decrypt libs.aead (journey.account libs verifier).totpSecretEnc = _ from
      decrypt_encrypt opens honest.totpNonce _]
    exact decodeText_encodeText _
  exact verify2fa_answers consumed subject (found_by_id c account) secret honest.code

end Honest

end Journey

/-- **Whoever has both factors gets in**, whatever others send in between. -/
theorem honest_login {journey : Journey} {salt verifier clientPublic : Bytes}
    (honest : journey.Honest libs salt verifier clientPublic) (opens : libs.aead.Opens)
    (undisturbed : journey.Undisturbed libs) : journey.LogsIn libs where
  registered := honest.registration_answered.1
  challenged := (honest.challenge_answered opens undisturbed).1
  proved := honest.proof_answered opens undisturbed
  loggedIn := by
    have answer := honest.code_answered opens undisturbed
    refine ⟨_, _, answer, issuePair_pairFor rfl, ?_⟩
    exact fun later _ known now decoded => getCurrentUser_issued known decoded

/-- Ada registers and logs in, while somebody else tries her name with another proof. -/
def adaJourney : Journey where
  before := []
  registration := ⟨ada, adaSalt, adaVerifier⟩
  registering := adaDraws
  meanwhile := []
  clientPublic := adaPublic
  opening := { srp := { readAt := 5, sessionId := "s1" } }
  duringHandshake :=
    [⟨.srpInit ⟨ada, adaPublic⟩, { srp := { purgedAt := 5, readAt := 5, sessionId := "s2" } }⟩,
      ⟨.srpVerify ⟨"s2", adaPublic⟩, { srp := { purgedAt := 6, readAt := 6 } }⟩]
  clientProof := adaProof
  proving := { issuedAt := 10, jti := "a1", srp := { purgedAt := 6, readAt := 6 } }
  beforeCode := []
  totpCode := adaCode
  checking := { decodedAt := 19, issuedAt := 20, refreshIssuedAt := 20, jti := "b2" }

theorem loginLibs_opens : loginLibs.aead.Opens := fun _ _ => rfl

theorem adaJourney_honest : adaJourney.Honest loginLibs [90] [11] [12] where
  free := by decide +kernel
  isSalt := by decide +kernel
  isVerifier := by decide +kernel
  isPublic := by decide +kernel
  verifierNonce := by decide +kernel
  totpNonce := by decide +kernel
  challenged := by decide +kernel
  live := by decide +kernel
  proves := ⟨[171], [205], true, by decide +kernel, by decide +kernel, by decide +kernel⟩
  read := by decide +kernel
  code := by decide +kernel

/-- Nobody presents a token, or calls another endpoint. -/
theorem adaJourney_plain : ∀ s ∈ adaJourney.untilCode, s.request.presented = none ∧
    match s.request with
      | .elsewhere _ => False
      | _ => True := by
  intro s listed
  simp only [Journey.untilCode, Journey.untilProof, Journey.untilInit, adaJourney, List.nil_append,
    List.append_nil, List.cons_append, List.mem_cons, List.not_mem_nil, or_false] at listed
  rcases listed with rfl | rfl | rfl | rfl | rfl
  · exact ⟨rfl, trivial⟩
  · exact ⟨rfl, trivial⟩
  · exact ⟨rfl, trivial⟩
  · exact ⟨rfl, trivial⟩
  · exact ⟨rfl, trivial⟩

theorem unforged_of_unpresented {steps : List Step}
    (none_ : ∀ s ∈ steps, s.request.presented = none) : Unforged libs steps := by
  intro earlier s within token payload presented
  rw [none_ s (within.subset (List.mem_append_right _ (List.mem_singleton_self s)))] at presented
  cases presented

theorem adaJourney_undisturbed : adaJourney.Undisturbed loginLibs where
  remains := by decide +kernel
  handshake := by
    intro s listed
    simp only [adaJourney, List.mem_cons, List.not_mem_nil, or_false] at listed
    rcases listed with rfl | rfl
    · exact ⟨by decide, by decide +kernel⟩
    · exact ⟨by decide, by decide +kernel⟩
  token := {
    unforged := unforged_of_unpresented fun s listed => (adaJourney_plain s listed).1
    apart := by
      intro s listed op request _
      have plain := (adaJourney_plain s listed).2
      rw [request] at plain
      exact plain
    fresh := by
      refine eachStep_iff_take.mpr fun i inside s isNext issued _ => ?_
      match i with
      | 0 =>
          cases isNext
          exact absurd (by decide +kernel) issued
      | 1 =>
          cases isNext
          exact absurd (by decide +kernel) issued
      | 2 =>
          cases isNext
          exact absurd (by decide +kernel) issued
      | 3 =>
          cases isNext
          exact absurd (by decide +kernel) issued
      | 4 => rfl
      | n + 5 => cases isNext
    kept := fun s listed => absurd listed List.not_mem_nil }

theorem honest_login_ada : adaJourney.LogsIn loginLibs :=
  honest_login adaJourney_honest loginLibs_opens adaJourney_undisturbed

/-! ## Staying logged in -/

/-- The refresh token of the pair a step answers with. -/
def refreshOf (libs : Libraries V) (issuing : Step) (userId : UserId) : IssuedToken libs.toTokenLib :=
  issueRefreshToken libs.toTokenLib issuing.reading.refreshIssuedAt issuing.reading.jti userId

/-- Renewal after renewal, each with the refresh token of the answer before, which nobody else
has sent in. -/
inductive Renewed (libs : Libraries V) (userId : UserId) (start : List Step) (login : Step) :
    List Step → Step → Prop where
  | login : Renewed libs userId start login start login
  | again {before between : List Step} {issuing : Step} {reading : Reading}
      (earlier : Renewed libs userId start login before issuing)
      (guarded : Guarded libs before issuing between (refreshOf libs issuing userId))
      (read : libs.decode reading.decodedAt (refreshOf libs issuing userId).text =
        .ok (refreshOf libs issuing userId).payload) :
      Renewed libs userId start login (before ++ [issuing] ++ between)
        ⟨.refresh (refreshOf libs issuing userId).text, reading⟩

/-- Of a pair only the refresh token carries the `jti`. -/
theorem refreshOf_only {before : List Step} {issuing : Step} {userId : UserId}
    (answer : respond libs before issuing = issuePair libs.toTokenLib issuing.reading userId)
    (other : IssuedToken libs.toTokenLib) (carries : Carries libs before issuing other) :
    other = refreshOf libs issuing userId := by
  obtain ⟨issued, hasJti⟩ := carries
  rw [answer] at issued
  rcases List.mem_cons.mp issued with rfl | last
  · cases hasJti
  · exact List.mem_singleton.mp last

/-- One renewal. -/
theorem refresh_answered {before between : List Step} {issuing : Step} {reading : Reading}
    {userId : UserId}
    (answer : respond libs before issuing = issuePair libs.toTokenLib issuing.reading userId)
    (guarded : Guarded libs before issuing between (refreshOf libs issuing userId))
    (read : libs.decode reading.decodedAt (refreshOf libs issuing userId).text =
      .ok (refreshOf libs issuing userId).payload) :
    respond libs (before ++ [issuing] ++ between)
      ⟨.refresh (refreshOf libs issuing userId).text, reading⟩ =
        issuePair libs.toTokenLib reading userId := by
  have c := (login_sound libs (before ++ [issuing] ++ between)).constraints
  have unblocked := guarded.not_blocked (refreshOf_only answer)
  obtain ⟨claims, after, consumed, subject⟩ :=
    consumed_of_unblocked c Scope.noConfusion read unblocked
  exact refresh_answers consumed subject

theorem renewed_answered {userId : UserId} {start before : List Step} {login issuing : Step}
    (answer : respond libs start login = issuePair libs.toTokenLib login.reading userId)
    (renewed : Renewed libs userId start login before issuing) :
    respond libs before issuing = issuePair libs.toTokenLib issuing.reading userId := by
  induction renewed with
  | login => exact answer
  | again earlier guarded read ih => exact refresh_answered ih guarded read

/-- **Whoever has logged in stays logged in**: every renewal of the session is answered with a
pair for the account. -/
theorem honest_session {journey : Journey} {salt verifier clientPublic : Bytes}
    (honest : journey.Honest libs salt verifier clientPublic) (opens : libs.aead.Opens)
    (undisturbed : journey.Undisturbed libs) {before : List Step} {issuing : Step}
    (renewed : Renewed libs (journey.userId libs) journey.untilCode (journey.sendCode libs) before
      issuing) :
    ∃ access refresh, respond libs before issuing = .tokens access refresh ∧
      PairFor access refresh (journey.userId libs) ∧
      Journey.Enters libs (before ++ [issuing]) access (journey.userId libs) := by
  have answer := renewed_answered (honest.code_answered opens undisturbed) renewed
  refine ⟨_, _, answer, issuePair_pairFor rfl, ?_⟩
  exact fun later _ known now decoded => getCurrentUser_issued known decoded

theorem adaJourney_guarded : Guarded loginLibs adaJourney.untilCode (adaJourney.sendCode loginLibs) []
    (refreshOf loginLibs (adaJourney.sendCode loginLibs) (adaJourney.userId loginLibs)) where
  unforged := by
    rw [List.append_nil]
    refine (eachStep_snoc _ _ _).mpr ⟨adaJourney_undisturbed.token.unforged, ?_⟩
    intro token payload presented accepted
    obtain ⟨serverProof, answer⟩ :=
      adaJourney_honest.proof_answered loginLibs_opens adaJourney_undisturbed
    cases presented
    refine ⟨adaJourney.untilProof, adaJourney.prove, List.prefix_refl _,
      adaJourney.preAuth loginLibs, ?_, rfl, ?_⟩
    · rw [answer]
      exact List.mem_singleton_self _
    · exact Except.ok.inj (adaJourney_honest.read.symm.trans accepted)
  apart := by
    intro s listed op request
    rw [List.append_nil] at listed
    rcases List.mem_append.mp listed with before | last
    · exact adaJourney_undisturbed.token.apart s before op request
    · rw [List.mem_singleton.mp last] at request
      cases request
  fresh := by
    refine eachStep_iff_take.mpr fun i inside s isNext issued sameHash => ?_
    match i with
    | 0 =>
        cases isNext
        exact absurd (by decide +kernel) issued
    | 1 =>
        cases isNext
        exact absurd (by decide +kernel) issued
    | 2 =>
        cases isNext
        exact absurd (by decide +kernel) issued
    | 3 =>
        cases isNext
        exact absurd (by decide +kernel) issued
    | 4 =>
        cases isNext
        exact absurd sameHash (by decide +kernel)
    | 5 => rfl
    | n + 6 => cases isNext
  kept := fun s listed => absurd listed List.not_mem_nil

/-- A quarter of an hour later Ada renews. -/
def adaRenewal : Step :=
  ⟨.refresh (refreshOf loginLibs (adaJourney.sendCode loginLibs) (adaJourney.userId loginLibs)).text,
    { decodedAt := 900, jti := "c3" }⟩

theorem honest_session_ada : ∃ access refresh,
    respond loginLibs (adaJourney.untilCode ++ [adaJourney.sendCode loginLibs] ++ []) adaRenewal =
        .tokens access refresh ∧ PairFor access refresh (adaJourney.userId loginLibs) ∧
      Journey.Enters loginLibs
        (adaJourney.untilCode ++ [adaJourney.sendCode loginLibs] ++ [] ++ [adaRenewal]) access
        (adaJourney.userId loginLibs) :=
  honest_session adaJourney_honest loginLibs_opens adaJourney_undisturbed
    (.again .login adaJourney_guarded (by decide +kernel))

end SecureMsg.Auth
