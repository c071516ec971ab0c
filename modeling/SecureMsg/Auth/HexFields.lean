/-
# Auth.HexFields — hexadecimal that is accepted, and hexadecimal that decodes

`hex_re` accepts any number of digits, `bytes.fromhex` an even one (`hex_decodes`).
A verifier is decoded while its account is registered, a public value and a proof
while the handshake is served; the salt is stored as text, and first decoded when
somebody logs in.

`hexFields_iff`: in a run every request of the three is handled as promised exactly if
what gets decoded has an even number of digits.  An account whose salt has an odd
number is never answered with a challenge (`odd_salt_locks`).
-/
import SecureMsg.Auth.Login

namespace SecureMsg.Auth

open SecureMsg.Theory SecureMsg.Store SecureMsg.Repository

set_option autoImplicit false

/-! ## The validator and the decoder -/

/-- `bytes.fromhex` takes the text. -/
def Decodes (text : String) : Prop := fromHex text ≠ none

instance (text : String) : Decidable (Decodes text) := inferInstanceAs (Decidable (_ ≠ _))

/-- An even number of digits. -/
def WholeBytes (text : String) : Prop := text.length % 2 = 0

instance (text : String) : Decidable (WholeBytes text) := inferInstanceAs (Decidable (_ = _))

/-- **What the schema lets in decodes** if its digits come in pairs. -/
theorem hex_decodes (text : Hex) : Decodes text ↔ WholeBytes text := by
  have odd := fromHex_eq_none text.property.2
  unfold Decodes WholeBytes
  rw [ne_eq, odd]
  omega

variable {V : Type} (libs : Libraries V)

/-! ## What is promised of the three requests -/

/-- What `srp_init` decodes of an account's row. -/
structure LoginDecodes (account : User) : Prop where
  salt : Decodes account.srpSalt
  verifier : ∀ srpVerifier, decrypt libs.aead account.srpVerifierEnc = some srpVerifier →
    Decodes (toHex srpVerifier)

/-- A later `srp-init` finds the account. -/
def FoundLater (run : List Step) (userId : UserId) (account : User) : Prop :=
  account.id = userId ∧ ∃ (later : List Step) (body : SRPInitRequest),
    getUserByUsername ((loginService libs).run (run ++ later)).db body.username = some account

/-- A registration ends in 409 or in 201, and the account it creates can be logged in to. -/
def RegisterHandled (earlier : List Step) (s : Step) : Prop :=
  respond libs earlier s = .httpException 409 "Username taken" ∨
    ∃ userId uri, respond libs earlier s = .registered userId uri ∧
      ∀ account, FoundLater libs (earlier ++ [s]) userId account → LoginDecodes libs account

/-- `srp_init` gets to the client's public value. -/
def DecodesPublic (st : State V) (body : SRPInitRequest) : Prop :=
  ∃ user srpVerifier, getUserByUsername st.db body.username = some user ∧
    decrypt libs.aead user.srpVerifierEnc = some srpVerifier ∧ Decodes user.srpSalt

/-- The session a verification finds. -/
def FindsSession (st : State V) (s : Step) (body : SRPVerifyRequest) (entry : SRPSession V) : Prop :=
  st.sessions.get? body.sessionId = some entry ∧ Live s.reading.srp entry

/-- `srp_verify` raises only where there is no session, or over what the proof decodes to. -/
def VerifyHandled (st : State V) (s : Step) (body : SRPVerifyRequest) : Prop :=
  ∀ raised, (srpVerify libs.srp s.reading.srp st.sessions body.sessionId body.clientProof).2 =
      .error raised →
    ∀ entry, FindsSession st s body entry →
      Decodes body.clientProof ∧ ¬ ProofAccepted libs.srp entry body.clientProof

/-- Hexadecimal the schemas accepted is decoded wherever it is used. -/
def HexHandled (earlier : List Step) (s : Step) : Prop :=
  match s.request with
  | .register _ => RegisterHandled libs earlier s
  | .srpInit body =>
      DecodesPublic libs ((loginService libs).run earlier) body → Decodes body.clientPublic
  | .srpVerify body => VerifyHandled libs ((loginService libs).run earlier) s body
  | _ => True

/-- What is going to be decoded has an even number of digits. -/
def EvenDigits (earlier : List Step) (s : Step) : Prop :=
  match s.request with
  | .register body =>
      (getUserByUsername ((loginService libs).run earlier).db body.username).isSome ∨
        WholeBytes body.srpVerifier ∧ WholeBytes body.srpSalt
  | .srpInit body =>
      DecodesPublic libs ((loginService libs).run earlier) body → WholeBytes body.clientPublic
  | .srpVerify body =>
      (∃ entry, FindsSession ((loginService libs).run earlier) s body entry) →
        WholeBytes body.clientProof
  | _ => True

variable {libs} {earlier : List Step} {st : State V} {s : Step}

/-! ## The account of a registration -/

/-- Nobody else has, or is going to have, the account's id. -/
structure HoldsId (db : Database) (account : User) : Prop where
  drawn : account.id < db.sequences.users
  only : ∀ row ∈ db.users, row.id = account.id → row = account

theorem HoldsId.after {db after : Database} {account : User} (holds : HoldsId db account)
    (change : UsersChange db after) : HoldsId after account := by
  cases change with
  | kept rows drawn =>
      exact ⟨lt_of_lt_of_le holds.drawn drawn, fun row stored => holds.only row (rows row stored)⟩
  | created row users isNew free drawn =>
      refine ⟨lt_of_lt_of_le holds.drawn drawn, fun other stored same => ?_⟩
      rw [users, List.mem_append, List.mem_singleton] at stored
      rcases stored with old | rfl
      · exact holds.only other old same
      · exact absurd (isNew.symm.trans same) (ne_of_gt holds.drawn)

/-- **The id stays the account's** through every run. -/
theorem holdsId_stays {account : User} (holds : HoldsId ((loginService libs).run earlier).db account)
    (later : List Step) : HoldsId ((loginService libs).run (earlier ++ later)).db account := by
  induction later using List.reverseRecOn with
  | nil => rwa [List.append_nil]
  | append_singleton later s ih =>
      rw [← List.append_assoc, System.run_snoc]
      exact ih.after ((serve_commits libs _ s).users (login_sound libs _).constraints)

theorem free_of_getUserByUsername {db : Database} {username : String}
    (notFound : getUserByUsername db username = none) : username ∉ db.users.map User.username := by
  intro taken
  obtain ⟨user, found⟩ := getUserByUsername_known taken
  rw [notFound] at found
  cases found

variable (libs) in
/-- The row `register` puts in. -/
def newAccount (db : Database) (reading : Reading) (body : RegisterRequest) (srpVerifier : Bytes) :
    User :=
  ⟨db.sequences.users, body.username, body.srpSalt,
    encrypt libs.aead reading.verifierNonce srpVerifier,
    encrypt libs.aead reading.totpNonce (encodeText reading.totpSecret)⟩

variable (libs) in
theorem register_creates (reading : Reading) {body : RegisterRequest} {srpVerifier : Bytes}
    (free : getUserByUsername st.db body.username = none)
    (isHex : fromHex body.srpVerifier = some srpVerifier) :
    ∃ after uri, serve libs st ⟨.register body, reading⟩ =
        ({ st with db := after }, .registered st.db.sequences.users uri) ∧
      after.users = st.db.users ++ [newAccount libs st.db reading body srpVerifier] ∧
      after.sequences.users = st.db.sequences.users + 1 := by
  obtain ⟨after, inserted, users, drawn⟩ : ∃ after, st.db.insertUser body.username body.srpSalt
      (encrypt libs.aead reading.verifierNonce srpVerifier)
      (encrypt libs.aead reading.totpNonce (encodeText reading.totpSecret)) =
        .ok (after, newAccount libs st.db reading body srpVerifier) ∧
      after.users = st.db.users ++ [newAccount libs st.db reading body srpVerifier] ∧
      after.sequences.users = st.db.sequences.users + 1 :=
    ⟨_, Database.insertUser_ok.mpr ⟨⟨body.username.sendable, body.srpSalt.sendable⟩,
      free_of_getUserByUsername free, rfl, rfl⟩, rfl, rfl⟩
  refine ⟨after, getProvisioningUri libs.pyotp reading.totpSecret body.username, ?_, users, drawn⟩
  unfold serve register
  dsimp only
  rw [free, Option.isSome_none, if_neg Bool.false_ne_true, isHex]
  dsimp only
  unfold createUser
  rw [inserted]
  rfl

/-- A verifier with an odd number of digits is an internal server error. -/
theorem register_undecodable {reading : Reading} {body : RegisterRequest}
    (free : getUserByUsername st.db body.username = none)
    (notHex : fromHex body.srpVerifier = none) :
    serve libs st ⟨.register body, reading⟩ = (st, .unhandled notHexadecimal) := by
  unfold serve register
  dsimp only
  rw [free, Option.isSome_none, if_neg Bool.false_ne_true, notHex]

theorem register_taken {reading : Reading} {body : RegisterRequest} {user : User}
    (found : getUserByUsername st.db body.username = some user) :
    serve libs st ⟨.register body, reading⟩ = (st, .httpException 409 "Username taken") := by
  unfold serve register
  dsimp only
  rw [found, if_pos Option.isSome_some]

/-- Of a new account only the salt can fail to decode. -/
theorem loginDecodes_newAccount {db : Database} {reading : Reading} {body : RegisterRequest}
    {srpVerifier : Bytes} :
    LoginDecodes libs (newAccount libs db reading body srpVerifier) ↔ Decodes body.srpSalt := by
  refine ⟨fun decodes => decodes.salt, fun salt => ⟨salt, fun stored _ => ?_⟩⟩
  rw [Decodes, fromHex_toHex]
  exact Option.some_ne_none _

/-- **The account found later** is the one that was registered. -/
theorem foundLater_iff {reading : Reading} {body : RegisterRequest} {srpVerifier : Bytes}
    (free : getUserByUsername ((loginService libs).run earlier).db body.username = none)
    (isHex : fromHex body.srpVerifier = some srpVerifier) {account : User} :
    FoundLater libs (earlier ++ [⟨.register body, reading⟩])
        ((loginService libs).run earlier).db.sequences.users account ↔
      account = newAccount libs ((loginService libs).run earlier).db reading body srpVerifier := by
  obtain ⟨after, uri, served, users, drawn⟩ :=
    register_creates libs reading free isHex
  have state : ((loginService libs).run (earlier ++ [⟨.register body, reading⟩])).db = after := by
    rw [System.run_snoc]
    exact congrArg (fun result => result.1.db) served
  have c := (login_sound libs earlier).constraints
  constructor
  · rintro ⟨sameId, later, body', found⟩
    have holds : HoldsId after
        (newAccount libs ((loginService libs).run earlier).db reading body srpVerifier) := by
      refine ⟨?_, fun row stored same => ?_⟩
      · rw [drawn]
        exact Int.lt_succ _
      · rw [users, List.mem_append, List.mem_singleton] at stored
        rcases stored with old | new
        · exact absurd same (ne_of_lt (c.nextUser row old))
        · exact new
    rw [← state] at holds
    exact (holdsId_stays holds later).only account (getUserByUsername_some found).1 sameId
  · rintro rfl
    refine ⟨rfl, [], ⟨body.username, body.srpSalt⟩, ?_⟩
    rw [getUserByUsername] at free
    rw [List.append_nil, state, getUserByUsername, users, List.find?_append, free]
    simp [newAccount]

/-! ## One request -/

theorem registerHandled_iff (earlier : List Step) (reading : Reading) (body : RegisterRequest) :
    RegisterHandled libs earlier ⟨.register body, reading⟩ ↔
      EvenDigits libs earlier ⟨.register body, reading⟩ := by
  unfold RegisterHandled EvenDigits respond
  dsimp only
  cases found : getUserByUsername ((loginService libs).run earlier).db body.username with
  | some user =>
      rw [register_taken found]
      exact iff_of_true (Or.inl rfl) (Or.inl rfl)
  | none =>
      rw [← hex_decodes, ← hex_decodes]
      cases isHex : fromHex body.srpVerifier with
      | none =>
          rw [register_undecodable found isHex]
          simp [Decodes, isHex]
      | some srpVerifier =>
          obtain ⟨after, uri, served, -, -⟩ :=
            register_creates libs reading found isHex
          rw [served]
          constructor
          · rintro (conflict | ⟨userId, uri, answer, decodes⟩)
            · cases conflict
            · cases answer
              have account := decodes _ ((foundLater_iff found isHex).mpr rfl)
              refine Or.inr ⟨?_, (loginDecodes_newAccount.mp account)⟩
              rw [Decodes, isHex]
              exact Option.some_ne_none _
          · rintro (taken | ⟨-, salt⟩)
            · cases taken
            · refine Or.inr ⟨_, uri, rfl, fun account isFound => ?_⟩
              rw [(foundLater_iff found isHex).mp isFound]
              exact loginDecodes_newAccount.mpr salt

theorem verifyHandled_iff (st : State V) (s : Step) (body : SRPVerifyRequest) :
    VerifyHandled libs st s body ↔
      ((∃ entry, FindsSession st s body entry) → WholeBytes body.clientProof) := by
  rw [← hex_decodes]
  constructor
  · rintro handled ⟨entry, stored, live⟩
    by_contra odd
    have notHex : fromHex body.clientProof = none := not_not.mp odd
    have raised : (srpVerify libs.srp s.reading.srp st.sessions body.sessionId
        body.clientProof).2 = .error notHexadecimal := by
      rw [srpVerify, popSession_found (purgeExpired_some.mpr ⟨stored, live.1⟩), checkProof,
        if_neg (Rat.not_lt.mpr live.2), notHex]
      rfl
    exact odd (handled _ raised entry ⟨stored, live⟩).1
  · intro whole raised isRaised entry finds
    refine ⟨whole ⟨entry, finds⟩, fun accepted => ?_⟩
    obtain ⟨serverProof, verified⟩ := srpVerify_accepts finds.1 finds.2 accepted
    rw [isRaised] at verified
    cases verified

/-- **One request** is handled as promised if the digits it has decoded come in pairs. -/
theorem hexHandled_iff (earlier : List Step) (s : Step) :
    HexHandled libs earlier s ↔ EvenDigits libs earlier s := by
  obtain ⟨request, reading⟩ := s
  cases request with
  | register body => exact registerHandled_iff earlier reading body
  | srpInit body => exact imp_congr_right fun _ => hex_decodes body.clientPublic
  | srpVerify body => exact verifyHandled_iff _ _ body
  | _ => exact Iff.rfl

/-- **Accepted hexadecimal decodes** along a run, exactly when what is decoded has an
even number of digits. -/
theorem hexFields_iff (libs : Libraries V) (steps : List Step) :
    EachStep (HexHandled libs) steps ↔ EachStep (EvenDigits libs) steps :=
  eachStep_congr fun earlier s _ => hexHandled_iff earlier s

/-! ## An account nobody can log in to -/

/-- **A salt with an odd number of digits** shuts its account: no `srp-init` that finds
it is ever answered with a challenge. -/
theorem odd_salt_locks {userId : UserId} {uri : String} {reading : Reading}
    {body : RegisterRequest} (odd : ¬ WholeBytes body.srpSalt)
    (answer : respond libs earlier ⟨.register body, reading⟩ = .registered userId uri)
    (later : List Step) {s : Step} {sessionId srpSalt serverPublic : String}
    (challenge : respond libs (earlier ++ [⟨.register body, reading⟩] ++ later) s =
      .challenge sessionId srpSalt serverPublic) :
    ∃ init user, s.request = .srpInit init ∧ user.id ≠ userId ∧
      getUserByUsername ((loginService libs).run
        (earlier ++ [⟨.register body, reading⟩] ++ later)).db init.username = some user := by
  obtain ⟨init, user, -, salt, -, request, found, -, isSalt, -⟩ := serve_challenge challenge
  refine ⟨init, user, request, fun sameId => ?_, found⟩
  unfold respond at answer
  cases taken : getUserByUsername ((loginService libs).run earlier).db body.username with
  | some other =>
      rw [register_taken taken] at answer
      cases answer
  | none =>
      cases isHex : fromHex body.srpVerifier with
      | none =>
          rw [register_undecodable taken isHex] at answer
          cases answer
      | some srpVerifier =>
          obtain ⟨after, uri', served, -, -⟩ :=
            register_creates libs reading taken isHex
          rw [served] at answer
          cases answer
          rw [(foundLater_iff taken isHex).mp ⟨sameId, later, init, found⟩] at isSalt
          refine odd ((hex_decodes body.srpSalt).mp ?_)
          exact fun undecodable => Option.some_ne_none salt (isSalt.symm.trans undecodable)

/-- Ada registers with a salt of three digits. -/
def oddSalt : Step := ⟨.register ⟨ada, ⟨"abc", by decide⟩, adaVerifier⟩, adaDraws⟩

/-- The account is there, and its salt does not decode. -/
theorem odd_salt_registered : ¬ EachStep (HexHandled loginLibs) [oddSalt] := by
  intro each
  have odd : ¬ Decodes "abc" := by decide
  rcases each [] oddSalt (List.prefix_refl _) with taken | ⟨userId, uri, answer, decodes⟩
  · cases taken
  · cases answer
    exact odd (decodes _ ((foundLater_iff rfl rfl).mpr rfl)).salt

end SecureMsg.Auth
