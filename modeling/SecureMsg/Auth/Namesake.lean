/-
# Auth.Namesake — whose verifier a proof was checked against

A handshake keeps the username it was opened under, and `srp-verify` looks that
name up again.  Accounts can be deleted and names registered again in between,
so name and account are told apart by a history variable: `origins` keeps, for
each session id, the users row the handshake was opened from and whether its name
has been registered since.

`opened_for`: the verifier object of a stored session was built from that row.
While the name has not been registered again the row is the only one that can
answer to it; afterwards the account is gone for good.  So a pre-auth token is
issued to the account whose verifier was used exactly when the proof is not
accepted for a namesake (`provesOwner_iff`).
-/
import SecureMsg.Auth.Login

namespace SecureMsg.Auth

open SecureMsg.Theory SecureMsg.Store SecureMsg.Repository

set_option autoImplicit false

variable {V : Type} (libs : Libraries V)

/-! ## The account of a handshake -/

/-- The session a step opens, with the users row it is opened from.  The row is
stored with the session even where the library then gives no challenge. -/
def opens (st : State V) (s : Step) : Option (String × User) :=
  match s.request with
  | .srpInit body => do
      let user ← getUserByUsername st.db body.username
      let _ ← decrypt libs.aead user.srpVerifierEnc
      let _ ← fromHex user.srpSalt
      let _ ← fromHex body.clientPublic
      return (s.reading.srp.sessionId, user)
  | _ => none

/-- The step puts in a users row with the username. -/
def Registers (st : State V) (s : Step) (username : String) : Prop :=
  ∃ row ∈ (serve libs st s).1.db.users, row.username = username ∧ row.id ∉ st.db.userIds

instance (st : State V) (s : Step) (username : String) : Decidable (Registers libs st s username) :=
  inferInstanceAs (Decidable (∃ row ∈ _, _))

/-- The users row a handshake was opened from, and whether its username has been
registered again since. -/
structure Origin where
  account : User
  reregistered : Bool
  deriving DecidableEq

def Origin.after (origin : Origin) (st : State V) (s : Step) : Origin :=
  { origin with
    reregistered := origin.reregistered || decide (Registers libs st s origin.account.username) }

/-- What a step does to the origins. -/
def noteOrigins (st : State V) (s : Step) (origins : String → Option Origin) :
    String → Option Origin :=
  match opens libs st s with
  | some (sessionId, account) => Function.update origins sessionId (some ⟨account, false⟩)
  | none => fun sessionId => (origins sessionId).map fun origin => origin.after libs st s

/-- The origins of the sessions after a run. -/
def origins (steps : List Step) : String → Option Origin :=
  (loginService libs).observe (noteOrigins libs) (fun _ => none) steps

/-- The session's verifier object was built from the account's row. -/
def BuiltFrom (entry : SRPSession V) (account : User) : Prop :=
  ∃ srpVerifier salt clientPublic secret,
    decrypt libs.aead account.srpVerifierEnc = some srpVerifier ∧
    fromHex account.srpSalt = some salt ∧
    entry.verifier = libs.srp.verifier account.username salt srpVerifier clientPublic secret

variable {libs} {st : State V} {s : Step}

/-- A step opened the session from the account it looked up by name. -/
structure Opened (libs : Libraries V) (st : State V) (s : Step) (sessionId : String)
    (entry : SRPSession V) (account : User) : Prop where
  opens : opens libs st s = some (sessionId, account)
  found : getUserByUsername st.db account.username = some account
  username : entry.username = account.username
  builtFrom : BuiltFrom libs entry account

theorem register_sessions (st : State V) (reading : Reading) (body : RegisterRequest) :
    (register libs st reading body).1.sessions = st.sessions := by
  unfold register
  split
  · rfl
  · split
    · rfl
    · dsimp only
      split
      · rfl
      · rfl

/-- A session after an `srp-init` was there before it, or the request opened it. -/
theorem session_after_init {reading : Reading} {body : SRPInitRequest} {sessionId : String}
    {entry : SRPSession V}
    (stored : (serve libs st ⟨.srpInit body, reading⟩).1.sessions.get? sessionId = some entry) :
    (∃ account, Opened libs st ⟨.srpInit body, reading⟩ sessionId entry account) ∨
      (st.sessions.get? sessionId = some entry ∧
        ∀ account, opens libs st ⟨.srpInit body, reading⟩ ≠ some (sessionId, account)) := by
  unfold serve srpInitEndpoint at stored
  dsimp only at stored
  cases found : getUserByUsername st.db body.username with
  | none =>
      rw [found] at stored
      exact Or.inr ⟨stored, by simp [opens, found]⟩
  | some user =>
      rw [found] at stored
      dsimp only at stored
      cases decrypted : decrypt libs.aead user.srpVerifierEnc with
      | none =>
          rw [decrypted] at stored
          exact Or.inr ⟨stored, by simp [opens, found, decrypted]⟩
      | some srpVerifier =>
          rw [decrypted] at stored
          dsimp only at stored
          rw [srpInit_fst] at stored
          cases isSalt : fromHex user.srpSalt with
          | none =>
              rw [isSalt] at stored
              exact Or.inr ⟨(purgeExpired_some.mp stored).1,
                by simp [opens, found, decrypted, isSalt]⟩
          | some salt =>
              cases isPublic : fromHex body.clientPublic with
              | none =>
                  rw [isSalt, isPublic] at stored
                  exact Or.inr ⟨(purgeExpired_some.mp stored).1,
                    by simp [opens, found, isPublic]⟩
              | some clientPublic =>
                  rw [isSalt, isPublic] at stored
                  have opened : opens libs st ⟨.srpInit body, reading⟩ =
                      some (reading.srp.sessionId, user) := by
                    simp [opens, found, decrypted, isSalt, isPublic]
                  have named := (getUserByUsername_some found).2
                  by_cases same : sessionId = reading.srp.sessionId
                  · subst same
                    rw [Dict.get?_set_self] at stored
                    cases stored
                    refine Or.inl ⟨user, opened, named ▸ found, named.symm, ?_⟩
                    exact ⟨srpVerifier, salt, clientPublic, reading.srp.secret, decrypted, isSalt,
                      by rw [named]⟩
                  · rw [Dict.get?_set_of_ne _ same] at stored
                    refine Or.inr ⟨(purgeExpired_some.mp stored).1, fun account opens => ?_⟩
                    rw [opened] at opens
                    cases opens
                    exact same rfl

/-- A session after a step was there before it, or the step opened it. -/
theorem session_after {sessionId : String} {entry : SRPSession V}
    (stored : (serve libs st s).1.sessions.get? sessionId = some entry) :
    (∃ account, Opened libs st s sessionId entry account) ∨
      (st.sessions.get? sessionId = some entry ∧
        ∀ account, opens libs st s ≠ some (sessionId, account)) := by
  obtain ⟨request, reading⟩ := s
  cases request with
  | srpInit body => exact session_after_init stored
  | srpVerify body => exact Or.inr ⟨srpVerify_session stored, by simp [opens]⟩
  | register body =>
      rw [serve, register_sessions] at stored
      exact Or.inr ⟨stored, by simp [opens]⟩
  | deleteMe credentials =>
      refine Or.inr ⟨?_, by simp [opens]⟩
      unfold serve at stored
      dsimp only at stored
      split at stored
      · exact stored
      · exact stored
  | _ => exact Or.inr ⟨stored, by simp [opens]⟩

/-! ## The account stays the one, or is gone -/

/-- What holds of a stored session and its origin: as long as the name is not
registered again only the account can bear it, and after that the account is gone. -/
structure OriginOf (libs : Libraries V) (db : Database) (entry : SRPSession V)
    (origin : Origin) : Prop where
  username : entry.username = origin.account.username
  builtFrom : BuiltFrom libs entry origin.account
  drawn : origin.account.id < db.sequences.users
  identity : ∀ row ∈ db.users, row.id = origin.account.id → row = origin.account
  current : origin.reregistered = false →
    ∀ row ∈ db.users, row.username = origin.account.username → row = origin.account
  gone : origin.reregistered = true → origin.account.id ∉ db.userIds

theorem opens_db {opened : String × User} (isOpen : opens libs st s = some opened) :
    (serve libs st s).1.db = st.db := by
  obtain ⟨request, reading⟩ := s
  cases request with
  | srpInit body => exact srpInitEndpoint_db libs st reading body
  | _ => cases isOpen

theorem Opened.originOf (c : Constraints st.db) {sessionId : String} {entry : SRPSession V}
    {account : User} (opened : Opened libs st s sessionId entry account) :
    OriginOf libs (serve libs st s).1.db entry ⟨account, false⟩ := by
  obtain ⟨stored, -⟩ := getUserByUsername_some opened.found
  rw [opens_db opened.opens]
  exact {
    username := opened.username
    builtFrom := opened.builtFrom
    drawn := c.nextUser account stored
    identity := fun row inTable same => c.users.unique inTable stored same
    current := fun _ row inTable same => List.inj_on_of_nodup_map c.usernames inTable stored same
    gone := Bool.noConfusion }

theorem Origin.after_false {origin : Origin} :
    (origin.after libs st s).reregistered = false ↔
      origin.reregistered = false ∧ ¬ Registers libs st s origin.account.username := by
  simp [Origin.after]

theorem Origin.after_true {origin : Origin} :
    (origin.after libs st s).reregistered = true ↔
      origin.reregistered = true ∨ Registers libs st s origin.account.username := by
  simp [Origin.after]

theorem OriginOf.kept {entry : SRPSession V} {origin : Origin}
    (of : OriginOf libs st.db entry origin)
    (rows : ∀ row ∈ (serve libs st s).1.db.users, row ∈ st.db.users)
    (drawn : st.db.sequences.users ≤ (serve libs st s).1.db.sequences.users) :
    OriginOf libs (serve libs st s).1.db entry (origin.after libs st s) where
  username := of.username
  builtFrom := of.builtFrom
  drawn := lt_of_lt_of_le of.drawn drawn
  identity := fun row inTable same => of.identity row (rows row inTable) same
  current := fun unchanged row inTable same =>
    of.current (Origin.after_false.mp unchanged).1 row (rows row inTable) same
  gone := by
    intro reregistered known
    rcases Origin.after_true.mp reregistered with before | ⟨row, inTable, -, isNew⟩
    · obtain ⟨row, inTable, same⟩ := List.mem_map.mp known
      exact of.gone before (List.mem_map.mpr ⟨row, rows row inTable, same⟩)
    · exact isNew (List.mem_map_of_mem (rows row inTable))

theorem OriginOf.created {entry : SRPSession V} {origin : Origin} {row : User}
    (of : OriginOf libs st.db entry origin)
    (users : (serve libs st s).1.db.users = st.db.users ++ [row])
    (isNew : row.id = st.db.sequences.users) (free : row.username ∉ st.db.users.map User.username)
    (drawn : st.db.sequences.users ≤ (serve libs st s).1.db.sequences.users)
    (nextUser : ∀ row ∈ st.db.users, row.id < st.db.sequences.users) :
    OriginOf libs (serve libs st s).1.db entry (origin.after libs st s) := by
  have other : row.id ≠ origin.account.id := isNew ▸ (ne_of_lt of.drawn).symm
  have members : ∀ r, r ∈ (serve libs st s).1.db.users ↔ r ∈ st.db.users ∨ r = row := by
    intro r
    rw [users, List.mem_append, List.mem_singleton]
  have registers : ∀ username, Registers libs st s username ↔ row.username = username := by
    intro username
    constructor
    · rintro ⟨r, inTable, named, unknown⟩
      rcases (members r).mp inTable with old | rfl
      · exact absurd (List.mem_map_of_mem old) unknown
      · exact named
    · intro named
      refine ⟨row, (members row).mpr (Or.inr rfl), named, ?_⟩
      intro known
      obtain ⟨r, old, same⟩ := List.mem_map.mp known
      have before := nextUser r old
      rw [same, isNew] at before
      exact lt_irrefl _ before
  exact {
    username := of.username
    builtFrom := of.builtFrom
    drawn := lt_of_lt_of_le of.drawn drawn
    identity := by
      intro r inTable same
      rcases (members r).mp inTable with old | rfl
      · exact of.identity r old same
      · exact absurd same other
    current := by
      intro unchanged r inTable named
      obtain ⟨before, notRegistered⟩ := Origin.after_false.mp unchanged
      rcases (members r).mp inTable with old | rfl
      · exact of.current before r old named
      · exact absurd ((registers _).mpr named) notRegistered
    gone := by
      intro reregistered known
      obtain ⟨r, inTable, same⟩ := List.mem_map.mp known
      rcases (members r).mp inTable with old | rfl
      · rcases Origin.after_true.mp reregistered with before | now
        · exact of.gone before (List.mem_map.mpr ⟨r, old, same⟩)
        · -- the account is still there, so its name was not free
          rw [of.identity r old same] at old
          exact free (List.mem_map.mpr ⟨origin.account, old, ((registers _).mp now).symm⟩)
      · exact other same }

/-- **One step** keeps what is known of a session's origin. -/
theorem OriginOf.after (c : Constraints st.db) {entry : SRPSession V} {origin : Origin}
    (of : OriginOf libs st.db entry origin) :
    OriginOf libs (serve libs st s).1.db entry (origin.after libs st s) := by
  cases (serve_commits libs st s).users c with
  | kept rows drawn => exact of.kept rows drawn
  | created row users isNew free drawn => exact of.created users isNew free drawn c.nextUser

/-- **Every stored session has its origin.** -/
theorem opened_for (libs : Libraries V) (steps : List Step) {sessionId : String}
    {entry : SRPSession V}
    (stored : ((loginService libs).run steps).sessions.get? sessionId = some entry) :
    ∃ origin, origins libs steps sessionId = some origin ∧
      OriginOf libs ((loginService libs).run steps).db entry origin := by
  induction steps using List.reverseRecOn generalizing sessionId entry with
  | nil => cases stored
  | append_singleton steps s ih =>
      have c := (login_sound libs steps).constraints
      rw [System.run_snoc] at stored ⊢
      rw [origins, System.observe_snoc, noteOrigins]
      cases isOpen : opens libs ((loginService libs).run steps) s with
      | some opened =>
          rcases session_after stored with ⟨account, own⟩ | ⟨before, other⟩
          · cases isOpen.symm.trans own.opens
            exact ⟨⟨account, false⟩, Function.update_self _ _ _, own.originOf c⟩
          · obtain ⟨origin, isOrigin, of⟩ := ih before
            have different : sessionId ≠ opened.1 := by
              rintro rfl
              exact other opened.2 isOpen
            refine ⟨origin, (Function.update_of_ne different _ _).trans isOrigin, ?_⟩
            show OriginOf libs (serve libs _ s).1.db entry origin
            rw [opens_db isOpen]
            exact of
      | none =>
          rcases session_after stored with ⟨account, own⟩ | ⟨before, -⟩
          · cases isOpen.symm.trans own.opens
          · obtain ⟨origin, isOrigin, of⟩ := ih before
            exact ⟨origin.after libs _ s, congrArg (Option.map _) isOrigin, of.after c⟩

/-! ## To whom the token goes -/

/-- The proof of an `srp-verify` is accepted and the name of its session is an account's. -/
structure Accepts (libs : Libraries V) (st : State V) (s : Step) (body : SRPVerifyRequest)
    (entry : SRPSession V) : Prop where
  request : s.request = .srpVerify body
  stored : st.sessions.get? body.sessionId = some entry
  live : Live s.reading.srp entry
  proof : ProofAccepted libs.srp entry body.clientProof
  known : entry.username ∈ st.db.users.map User.username

/-- **An accepted proof is answered with a pre-auth token** for the account that has
the name now. -/
theorem Accepts.verified {body : SRPVerifyRequest} {entry : SRPSession V}
    (accepts : Accepts libs st s body entry) :
    ∃ user serverProof, getUserByUsername st.db entry.username = some user ∧
      (serve libs st s).2 = .verified serverProof
        (issuePreauthToken libs.toTokenLib s.reading.issuedAt s.reading.jti user.id) := by
  obtain ⟨user, found⟩ := getUserByUsername_known accepts.known
  obtain ⟨serverProof, verified⟩ := srpVerify_accepts accepts.stored accepts.live accepts.proof
  refine ⟨user, serverProof, found, ?_⟩
  rw [serve, accepts.request]
  dsimp only
  unfold srpVerifyEndpoint
  dsimp only
  rw [verified]
  dsimp only
  rw [found]

theorem accepts_of_verified {serverProof : String} {token : IssuedToken libs.toTokenLib}
    (answer : (serve libs st s).2 = .verified serverProof token) :
    ∃ body entry user, Accepts libs st s body entry ∧
      getUserByUsername st.db entry.username = some user ∧
      token = issuePreauthToken libs.toTokenLib s.reading.issuedAt s.reading.jti user.id := by
  obtain ⟨body, entry, user, request, stored, live, proof, found, issued⟩ := serve_verified answer
  obtain ⟨inTable, named⟩ := getUserByUsername_some found
  exact ⟨body, entry, user,
    ⟨request, stored, live, proof, List.mem_map.mpr ⟨user, inTable, named⟩⟩, found, issued⟩

variable (libs)

/-- A pre-auth token the step issues for a user id answers a proof that was checked
against the verifier stored with that very account. -/
def ProvesOwner (earlier : List Step) (s : Step) : Prop :=
  ∀ serverProof token userId, respond libs earlier s = .verified serverProof token →
    token.IsFor userId →
      ∃ body entry origin, Accepts libs ((loginService libs).run earlier) s body entry ∧
        origins libs earlier body.sessionId = some origin ∧ BuiltFrom libs entry origin.account ∧
        origin.account ∈ ((loginService libs).run earlier).db.users ∧ origin.account.id = userId

/-- The step's proof is accepted for a session whose username has been registered again
since the session was opened. -/
def AcceptsForNamesake (earlier : List Step) (s : Step) : Prop :=
  ∃ body entry origin, Accepts libs ((loginService libs).run earlier) s body entry ∧
    origins libs earlier body.sessionId = some origin ∧ origin.reregistered = true

variable {libs}

theorem provesOwner_iff (earlier : List Step) (s : Step) :
    ProvesOwner libs earlier s ↔ ¬ AcceptsForNamesake libs earlier s := by
  constructor
  · rintro proves ⟨body, entry, origin, accepts, isOrigin, reregistered⟩
    obtain ⟨user, serverProof, found, answer⟩ := accepts.verified
    obtain ⟨body', entry', origin', accepts', isOrigin', -, stored, same⟩ :=
      proves serverProof _ user.id answer issueToken_names.isFor
    cases accepts.request.symm.trans accepts'.request
    cases isOrigin.symm.trans isOrigin'
    obtain ⟨known, isKnown, of⟩ := opened_for libs earlier accepts.stored
    cases isOrigin.symm.trans isKnown
    exact of.gone reregistered (List.mem_map_of_mem stored)
  · intro once serverProof token userId answer isFor
    obtain ⟨body, entry, user, accepts, found, rfl⟩ := accepts_of_verified answer
    have same := issueToken_names.isFor.unique isFor
    subst same
    obtain ⟨origin, isOrigin, of⟩ := opened_for libs earlier accepts.stored
    obtain ⟨stored, named⟩ := getUserByUsername_some found
    have unchanged : origin.reregistered = false := by
      rw [← Bool.not_eq_true]
      exact fun again => once ⟨body, entry, origin, accepts, isOrigin, again⟩
    have account := of.current unchanged user stored (named.trans of.username)
    exact ⟨body, entry, origin, accepts, isOrigin, of.builtFrom, account ▸ stored, account ▸ rfl⟩

/-- **A proof authenticates the account it was made for** in every `srp-verify` of a
run, exactly when none is accepted for a namesake of that account. -/
theorem proof_of_owner_iff (libs : Libraries V) (steps : List Step) :
    EachStep (ProvesOwner libs) steps ↔ ¬ SomeStep (AcceptsForNamesake libs) steps :=
  eachStep_iff_not_someStep fun earlier s _ => provesOwner_iff earlier s

/-! ## A name that changed hands -/

/-- The SRP object is the stored verifier, which is its own proof, and the flag of the
accepted proof. -/
def namesakeLibs : Libraries (Bytes × Bool) where
  toTokenLib := recordingLib [preAuthPayload, accessPayload] sampleDigest
  srp := ⟨fun _ _ verifier _ _ => (verifier, false), fun _ => some ([90], [17]),
    fun object clientProof =>
      if clientProof = object.1 then (some [205], (object.1, true)) else (none, object), Prod.snd⟩
  aead := loginLibs.aead
  pyotp := loginLibs.pyotp

/-- Ada logs in, opens a second handshake and deletes the account; Bob registers the
username with a verifier of his own; Ada completes the handshake. -/
def namesakeRun : List Step :=
  [⟨.register ⟨ada, adaSalt, adaVerifier⟩, adaDraws⟩,
    ⟨.srpInit ⟨ada, adaPublic⟩, { srp := { readAt := 5, sessionId := "s1" } }⟩,
    ⟨.srpVerify ⟨"s1", adaVerifier⟩,
      { issuedAt := 10, jti := "a1", srp := { purgedAt := 6, readAt := 6 } }⟩,
    ⟨.verify2fa ⟨adaCode, payloadText preAuthPayload⟩,
      { decodedAt := 19, issuedAt := 20, refreshIssuedAt := 20, jti := "b2" }⟩,
    ⟨.srpInit ⟨ada, adaPublic⟩, { srp := { purgedAt := 21, readAt := 21, sessionId := "s2" } }⟩,
    ⟨.deleteMe (payloadText accessPayload), { decodedAt := 22 }⟩,
    ⟨.register ⟨ada, ⟨"5b", by decide⟩, ⟨"0e", by decide⟩⟩,
      { totpSecret := "KRSXG5DP"
        totpNonce := List.replicate 12 2
        verifierNonce := List.replicate 12 3 }⟩,
    ⟨.srpVerify ⟨"s2", adaVerifier⟩,
      { issuedAt := 30, jti := "c3", srp := { purgedAt := 29, readAt := 29 } }⟩]

/-- The last proof of `namesakeRun` is checked against the verifier of account 1 and
answered with a token for account 2. -/
theorem token_of_namesake : ¬ EachStep (ProvesOwner namesakeLibs) namesakeRun := by
  intro each
  have proves := each (namesakeRun.take 7) namesakeRun[7] (List.prefix_refl _)
  rw [provesOwner_iff] at proves
  have accepted : ProofAccepted namesakeLibs.srp ⟨"ada", ([11], false), 141⟩ "0b" :=
    ⟨[11], [205], ([11], true), by decide, by decide, rfl⟩
  refine proves ⟨⟨"s2", adaVerifier⟩, ⟨"ada", ([11], false), 141⟩,
    ⟨⟨1, "ada", "5a", List.replicate 12 1 ++ [11],
      List.replicate 12 0 ++ encodeText "JBSWY3DP"⟩, true⟩, ⟨rfl, ?_, ?_, accepted, ?_⟩, ?_, rfl⟩
  · decide +kernel
  · decide +kernel
  · decide +kernel
  · decide +kernel

end SecureMsg.Auth
