/-
# App.Exchange — accounts, keys and mail, as the clients see them

`Seen` is what can be told from the requests answered so far and their answers alone:
the accounts, each one's published bundle and prekeys not yet handed out, and the mail.
`Seen.note` adds one exchange, `Seen.Answers` says how the next request is answered, and
neither reads a table.

`Matches` ties the tables to it.  Each endpoint answers as `Seen` says and leaves tables
and `Seen` matched (`Matches.handleMessages`, `Matches.handleKeys`, `register_seen`), so
in every run every request to these endpoints is answered as the exchange before it tells
(`served_as_seen`).

The group endpoints, the handshake and the token endpoints are not in this view: what
they are answered is left open, and that they change none of it is proved.
-/
import SecureMsg.App.Commits
import SecureMsg.Keys.Bundle
import SecureMsg.Messages.Inbox

namespace SecureMsg.App

open SecureMsg.Theory SecureMsg.Store SecureMsg.Repository SecureMsg.Auth

set_option autoImplicit false

/-! ## What the exchange tells -/

structure Seen where
  accounts : List (UserId × String) := []
  /-- Ids of accounts that were deleted. -/
  departed : List UserId := []
  bundles : UserId → Option UserKeyBundle := fun _ => none
  prekeys : UserId → List Bytes := fun _ => []
  mail : Messages.Journal := {}

namespace Seen

variable (seen : Seen)

def ids : List UserId := seen.accounts.map Prod.fst

/-- Both accounts exist, and nobody took the message out. -/
def Stands (row : Message) : Prop :=
  row.recipientId ∈ seen.ids ∧ row.senderId ∈ seen.ids ∧
    (row.id, row.recipientId) ∉ seen.mail.acknowledged ∧ (row.id, row.senderId) ∉ seen.mail.revoked

instance : DecidablePred seen.Stands := fun _ => inferInstanceAs (Decidable (_ ∧ _))

def letters : List Message := seen.mail.accepted.filter fun row => seen.Stands row

def inbox (u : UserId) : List Message := seen.letters.filter fun row => row.recipientId = u

/-- The bundle of the account with the username. -/
def bundleNamed (username : String) : Option UserKeyBundle :=
  ((seen.accounts.find? fun account => account.2 = username).map Prod.fst).bind seen.bundles

/-- The account an access token is for. -/
def actor (lib : TokenLib) (now : Rat) (credentials : String) : Option UserId :=
  match verifyToken lib {} now credentials .full with
  | .error _ => none
  | .ok claims =>
      match claims.userId with
      | .error _ => none
      | .ok u => if u ∈ seen.ids then some u else none

/-! ### One exchange -/

def accountLeft (u : UserId) : Seen :=
  { seen with
    accounts := seen.accounts.filter fun account => account.1 ≠ u
    departed := u :: seen.departed
    bundles := Function.update seen.bundles u none
    prekeys := Function.update seen.prekeys u [] }

def prekeysAdded (u : UserId) (prekeys : List Bytes) : Seen :=
  { seen with prekeys := Function.update seen.prekeys u (seen.prekeys u ++ prekeys) }

def noteKeys (u : UserId) : Api.KeysRequest → Api.KeysResponse → Seen
  | .publishBundle body, .noContent =>
      { seen.prekeysAdded u body.oneTimePrekeys with
        bundles := Function.update seen.bundles u (some (body.row u)) }
  | .uploadPrekeys prekeys, .noContent => seen.prekeysAdded u prekeys
  | .fetchBundle v, .keyBundle _ =>
      { seen with prekeys := Function.update seen.prekeys v (seen.prekeys v).tail }
  | _, _ => seen

def noteMessages (u : UserId) : Api.MessagesRequest → Api.MessagesResponse → Seen
  | .sendMessage body, .created id =>
      { seen with mail := { seen.mail with
        accepted := seen.mail.accepted ++
          [⟨id, u, body.recipientId, body.ciphertext, body.ratchetHeaderEnc⟩] } }
  | .markReceipt messageId, .noContent =>
      { seen with mail := { seen.mail with
        acknowledged := (messageId, u) :: seen.mail.acknowledged } }
  | .revoke messageId, .noContent =>
      { seen with mail := { seen.mail with revoked := (messageId, u) :: seen.mail.revoked } }
  | _, _ => seen

def noteAuthorized {lib : TokenLib} (u : UserId) : Authorized → Response lib → Seen
  | .account .deleteMe, .account .noContent => seen.accountLeft u
  | .keys request, .keys answer => seen.noteKeys u request answer
  | .messages request, .messages answer => seen.noteMessages u request answer
  | _, _ => seen

def note {lib : TokenLib} (now : Rat) : Request → Response lib → Seen
  | .register body, .login (.registered id _) =>
      { seen with accounts := seen.accounts ++ [(id, body.username.val)] }
  | .authorized credentials request, answer =>
      match seen.actor lib now credentials with
      | some u => seen.noteAuthorized u request answer
      | none => seen
  | _, _ => seen

/-! ### The next answer -/

/-- A new account has an id that no account had before. -/
def AnswersRegister {lib : TokenLib} (body : RegisterRequest) (answer : Auth.Response lib) : Prop :=
  if body.username.val ∈ seen.accounts.map Prod.snd then
    answer = .httpException 409 "Username taken"
  else if fromHex body.srpVerifier = none then answer = .unhandled notHexadecimal
  else ∃ id uri, answer = .registered id uri ∧ ∀ other ∈ seen.ids ++ seen.departed, other < id

def AnswersKeys (u : UserId) (request : Api.KeysRequest) (answer : Api.KeysResponse) : Prop :=
  match request with
  | .publishBundle _ | .uploadPrekeys _ => answer = .noContent
  | .getPrekeyCount => answer = .count (seen.prekeys u).length
  | .lookupIdentityPubByUsername username =>
      if ¬ Sendable username then answer = .unhandled nulInText
      else match seen.bundleNamed username with
      | none => answer = .httpException 404 "User not found"
      | some bundle => answer = .userIdentity bundle.userId bundle.identityPub
  | .fetchBundle v =>
      if v ∉ seen.ids then answer = .httpException 404 "User not found"
      else match seen.bundles v with
        | none => answer = .httpException 404 "Key bundle not found"
        | some bundle => answer = .keyBundle ⟨bundle.identityPub, bundle.signedPrekeyPub,
            bundle.signedPrekeySig, Api.shownPrekey (seen.prekeys v).head?, bundle.pqPrekeyPub,
            bundle.pqPrekeySig⟩

/-- An accepted message has an id above those of all accepted before it. -/
def AnswersMessages (u : UserId) (request : Api.MessagesRequest) (answer : Api.MessagesResponse) :
    Prop :=
  match request with
  | .sendMessage body =>
      if body.recipientId = u then
        answer = .httpException 403 "Cannot send a message to yourself"
      else if inboxMaxMessages ≤ (seen.inbox body.recipientId).length then
        answer = .httpException 429 "Recipient inbox is full"
      else if body.recipientId ∉ seen.ids then
        answer = .unhandled (refusal [body.recipientId] .foreignKey)
      else ∃ id, answer = .created id ∧ ∀ row ∈ seen.mail.accepted, row.id < id
  | .listMessages page =>
      if ¬ FitsBigint page.offset then answer = .unhandled .dataError
      else answer = .messages ((((seen.inbox u).drop page.offset).take page.limit).map fun row =>
        ⟨row.id, row.senderId, row.ciphertext, row.ratchetHeaderEnc⟩)
  | .markReceipt messageId =>
      answer = if ∃ row ∈ seen.letters, row.id = messageId ∧ row.recipientId = u then .noContent
        else .httpException 404 "Message not found"
  | .revoke messageId =>
      answer = if ∃ row ∈ seen.letters, row.id = messageId ∧ row.senderId = u then .noContent
        else .httpException 403 "Cannot revoke this message"

/-- Nothing is said of the group endpoints. -/
def AnswersAuthorized {lib : TokenLib} (u : UserId) (exceeded : Option String)
    (request : Authorized) (answer : Response lib) : Prop :=
  match request, exceeded with
  | .account .deleteMe, none => answer = .account .noContent
  | .keys request, none => ∃ told, answer = .keys told ∧ seen.AnswersKeys u request told
  | .messages request, none => ∃ told, answer = .messages told ∧ seen.AnswersMessages u request told
  | .account .deleteMe, some detail | .keys _, some detail | .messages _, some detail =>
      answer = .rateLimitExceeded ("Rate limit exceeded: " ++ detail)
  | .account _, _ => True

/-- Nothing is said of the handshake and the token endpoints. -/
def Answers {lib : TokenLib} (s : Step) (answer : Response lib) : Prop :=
  match s.request with
  | .register body =>
      match s.exceeded with
      | none => ∃ told, answer = .login told ∧ seen.AnswersRegister body told
      | some detail => answer = .rateLimitExceeded ("Rate limit exceeded: " ++ detail)
  | .authorized credentials request =>
      match seen.actor lib s.reading.decodedAt credentials with
      | none => ∃ failure, answer = .login failure ∧ failure.IsFailure
      | some u => seen.AnswersAuthorized u s.exceeded request answer
  | .health | .srpInit _ | .srpVerify _ | .verify2fa _ | .refresh _ | .logout _ => True

end Seen

/-- What a run of requests and its answers tell. -/
def seenAfter {V : Type} (libs : Libraries V) (steps : List Step) : Seen :=
  (application libs).observe (fun st s seen =>
    seen.note s.reading.decodedAt s.request (serve libs st s).2) {} steps

/-! ## The tables hold it -/

theorem getUserById_absent {db : Database} {u : UserId} (absent : u ∉ db.userIds) :
    getUserById db u = none := by
  cases found : getUserById db u with
  | none => rfl
  | some user => exact absurd (getUserById_some found).2 absent

structure Matches (db : Database) (seen : Seen) : Prop where
  accounts : seen.accounts = db.users.map fun row => (row.id, row.username)
  departed : ∀ u ∈ seen.departed, u < db.sequences.users
  bundles : seen.bundles = getKeyBundle db
  prekeys : seen.prekeys = Keys.queued db
  mail : Messages.Recorded db seen.mail

namespace Matches

variable {db after : Database} {seen : Seen} (m : Matches db seen) (c : Constraints db)

section Read

include m

theorem ids : seen.ids = db.userIds := by
  rw [Seen.ids, m.accounts, List.map_map]
  rfl

theorem usernames : seen.accounts.map Prod.snd = db.users.map User.username := by
  rw [m.accounts, List.map_map]
  rfl

include c

theorem letters : seen.letters = db.messages := by
  apply Ascending.ext (m.mail.ascending.filter _) c.messages
  intro row
  rw [List.mem_filter, decide_eq_true_eq, m.mail.stored, Seen.Stands, Messages.Stands,
    m.ids]
  constructor
  · rintro ⟨listed, recipient, sender, unacked, unrevoked⟩
    exact ⟨listed, ⟨unacked, unrevoked, sender⟩, recipient⟩
  · rintro ⟨listed, ⟨unacked, unrevoked, sender⟩, recipient⟩
    exact ⟨listed, recipient, sender, unacked, unrevoked⟩

theorem inbox (u : UserId) : seen.inbox u = Repository.inbox db u := by
  rw [Seen.inbox, m.letters c, Repository.inbox]

/-- Usernames are unique, and there is one bundle to an account. -/
theorem bundleNamed (username : String) :
    getIdentityPubByUsername db username =
      if ¬ Sendable username then .error nulInText
      else .ok <| (seen.bundleNamed username).map fun bundle =>
        (bundle.userId, bundle.identityPub) := by
  have single : db.users.Pairwise fun a b =>
      decide (a.username = username) = true → decide (b.username = username) = false := by
    refine (List.pairwise_map.mp c.usernames).imp fun differ named => ?_
    rw [decide_eq_true_eq] at named
    exact decide_eq_false fun other => differ (named.trans other.symm)
  rw [getIdentityPubByUsername, find?_joinOn single, Seen.bundleNamed, m.accounts, m.bundles,
    List.find?_map]
  simp only [Function.comp_def, Option.map_map]
  cases named : db.users.find? fun row => row.username = username with
  | none => rfl
  | some user =>
      simp only [Option.bind_some, Option.map_some, Option.map_map, getKeyBundle]
      cases published : db.userKeyBundles.find? fun row => row.userId = user.id with
      | none => rfl
      | some bundle =>
          have mine : bundle.userId = user.id := by simpa using List.find?_some published
          simp [mine]

end Read

/-! ### What the calls make of it -/

theorem empty : Matches {} {} where
  accounts := rfl
  departed := fun _ listed => absurd listed List.not_mem_nil
  bundles := rfl
  prekeys := rfl
  mail := Messages.recorded []

include m c

/-- The calls of the group endpoints and the blocklist. -/
theorem kept {op : Operation} (done : perform db op = .ok after)
    (silent : ¬ op.OnPersonal ∨ BlocksToken op) : Matches after seen := by
  have mail := Messages.recorded_kept c m.mail op
  rw [commit_ok done] at mail
  cases perform_personal c done with
  | elsewhere _ _ other same =>
      rw [Messages.noteMail_other other] at mail
      constructor
      case accounts => rw [same.users]; exact m.accounts
      case departed => exact fun u listed => lt_of_lt_of_le (m.departed u listed) same.sequences.users
      case bundles => rw [m.bundles]; funext u; rw [getKeyBundle, getKeyBundle, same.userKeyBundles]
      case prekeys => rw [m.prekeys, Keys.queued_same same.oneTimePrekeys]
      case mail => exact mail
  | tokenBlocked => exact { m with mail := mail }
  | _ =>
      rcases silent with other | blocks
      · exact absurd trivial other
      · cases blocks

theorem userCreated {username srpSalt : String} {srpVerifierEnc totpSecretEnc : Bytes}
    {id : UserId} (done : createUser db username srpSalt srpVerifierEnc totpSecretEnc = .ok (after, id)) :
    Matches after { seen with accounts := seen.accounts ++ [(id, username)] } ∧
      ∀ other ∈ seen.ids ++ seen.departed, other < id := by
  have performed : perform db (.createUser username srpSalt srpVerifierEnc totpSecretEnc) =
      .ok after := by
    rw [perform, done]
    rfl
  have mail := Messages.recorded_kept c m.mail (.createUser username srpSalt srpVerifierEnc totpSecretEnc)
  rw [commit_ok performed] at mail
  obtain ⟨⟨stored, row⟩, inserted, returned⟩ := bind_eq_ok.mp done
  cases returned
  obtain ⟨-, free, rfl, rfl⟩ := Database.insertUser_ok.mp inserted
  constructor
  · exact { m with
      accounts := by rw [m.accounts, List.map_append]; rfl
      departed := fun u listed => lt_trans (m.departed u listed) (Int.lt_succ _)
      mail := mail }
  · intro other listed
    rcases List.mem_append.mp listed with known | gone
    · rw [m.ids] at known
      exact c.userId_lt known
    · exact m.departed other gone

theorem accountDeleted {u : UserId} (there : u ∈ db.userIds) :
    ∃ after, deleteUser db u = .ok (after, true) ∧ Matches after (seen.accountLeft u) := by
  have mail := Messages.recorded_kept c m.mail (.deleteUser u)
  rw [commit_ok (perform_deleteUser c there)] at mail
  have done := deleteUser_eq c there
  refine ⟨_, done, ?_⟩
  rcases deleteUser_personal c done with ⟨absent, -⟩ | ⟨-, gone⟩
  · exact absurd there absent
  constructor
  case accounts =>
    rw [gone.users, Seen.accountLeft, m.accounts, List.filter_map]
    rfl
  case departed =>
    rw [gone.sequences]
    intro v listed
    rcases List.mem_cons.mp listed with rfl | before
    · exact c.userId_lt there
    · exact m.departed v before
  case bundles =>
    funext v
    by_cases mine : v = u
    · subst mine
      have unpublished : getKeyBundle _ v = none :=
        List.find?_eq_none.mpr fun row stored => by
          rw [gone.userKeyBundles] at stored
          simpa using (List.mem_filter.mp stored).2
      rw [unpublished]
      exact Function.update_self v none seen.bundles
    · rw [Keys.Bundle.getKeyBundle_deleted gone.userKeyBundles mine, ← m.bundles]
      exact Function.update_of_ne mine _ _
  case prekeys =>
    have c' := perform_constraints c (perform_deleteUser c there)
    rw [Keys.queued_deleted c c' gone.oneTimePrekeys, ← m.prekeys]
    rfl
  case mail => exact mail

/-! ### Mail -/

theorem messageSent {u v : UserId} (ciphertext ratchetHeaderEnc : Bytes) (sender : u ∈ db.userIds)
    (recipient : v ∈ db.userIds) (room : (Repository.inbox db v).length < inboxMaxMessages) :
    ∃ after id, storeMessage db u v ciphertext ratchetHeaderEnc = .ok (after, id) ∧
      Matches after { seen with mail := { seen.mail with
        accepted := seen.mail.accepted ++ [⟨id, u, v, ciphertext, ratchetHeaderEnc⟩] } } ∧
      ∀ row ∈ seen.mail.accepted, row.id < id := by
  have stored := Messages.storeMessage_room ciphertext ratchetHeaderEnc sender recipient room
  have mail := Messages.recorded_kept c m.mail (.storeMessage u v ciphertext ratchetHeaderEnc)
  rw [commit, perform, stored] at mail
  simp only [Messages.noteMail, stored] at mail
  exact ⟨_, _, stored, { m with mail := mail }, m.mail.oldIds⟩

theorem messageDeleted (messageId : MessageId) (owner : OwnerField) (u : UserId) :
    Matches (deleteMessage db messageId owner u).1
      { seen with mail := Messages.noteMail db (.deleteMessage messageId owner u) seen.mail } := by
  have mail := Messages.recorded_kept c m.mail (.deleteMessage messageId owner u)
  exact { m with mail := mail }

theorem taken (messageId : MessageId) (owner : OwnerField) (u : UserId) :
    ((∃ row ∈ seen.letters, row.id = messageId ∧ owner.of row = u) ∧
        (deleteMessage db messageId owner u).2 = true) ∨
      ((¬ ∃ row ∈ seen.letters, row.id = messageId ∧ owner.of row = u) ∧
        deleteMessage db messageId owner u = (db, false)) := by
  rw [m.letters c, ← Messages.deleteMessage_found]
  cases found : (deleteMessage db messageId owner u).2 with
  | true => exact Or.inl ⟨rfl, rfl⟩
  | false =>
      refine Or.inr ⟨Bool.false_ne_true, ?_⟩
      exact Prod.ext (Messages.deleteMessage_quiet found) found

theorem handleMessages {user : User} (known : user.id ∈ db.userIds) (request : Api.MessagesRequest) :
    seen.AnswersMessages user.id request (Api.handleMessages db user request).2 ∧
      Matches (Api.handleMessages db user request).1
        (seen.noteMessages user.id request (Api.handleMessages db user request).2) := by
  cases request with
  | sendMessage body =>
      simp only [Api.handleMessages, Api.sendMessage, Seen.AnswersMessages]
      rw [m.inbox c, m.ids]
      by_cases self : body.recipientId = user.id
      · rw [if_pos self, if_pos self]
        exact ⟨rfl, m⟩
      rw [if_neg self, if_neg self]
      by_cases full : inboxMaxMessages ≤ (Repository.inbox db body.recipientId).length
      · rw [if_pos full, Messages.storeMessage_full _ _ _ full]
        exact ⟨rfl, m⟩
      rw [if_neg full]
      have room := lt_of_not_ge full
      by_cases recipient : body.recipientId ∈ db.userIds
      · obtain ⟨after, id, stored, matches_, isNew⟩ :=
          m.messageSent c body.ciphertext body.ratchetHeaderEnc known recipient room
        rw [if_neg (not_not.mpr recipient), stored]
        exact ⟨⟨id, rfl, isNew⟩, matches_⟩
      · have refused : storeMessage db user.id body.recipientId body.ciphertext
            body.ratchetHeaderEnc = .error (refusal [body.recipientId] .foreignKey) := by
          rw [storeMessage, if_pos room, Database.insertMessage, if_neg fun both => recipient both.2]
          rfl
        rw [if_pos recipient, refused]
        rcases refusal_cases [body.recipientId] .foreignKey with isError | isError
        · rw [isError]
          exact ⟨rfl, m⟩
        · rw [isError]
          exact ⟨rfl, m⟩
  | listMessages page =>
      refine ⟨?_, m⟩
      simp only [Api.handleMessages, Api.listMessages, Seen.AnswersMessages,
        Messages.getMessagesForUser_eq c, m.inbox c]
      by_cases fits : FitsBigint page.offset
      · rw [if_neg (not_not.mpr fits), if_pos ⟨page.limit_fits, fits⟩]
      · rw [if_pos fits, if_neg fun both => fits both.2]
  | markReceipt messageId =>
      simp only [Api.handleMessages, Api.markReceipt, Api.deleteOrElse, Seen.AnswersMessages]
      rcases m.taken c messageId .recipientId user.id with ⟨there, found⟩ | ⟨absent, unchanged⟩
      · rw [found]
        refine ⟨(if_pos there).symm, ?_⟩
        have mail := m.messageDeleted c messageId .recipientId user.id
        simp only [Messages.noteMail, found, if_true] at mail
        exact mail
      · rw [unchanged]
        exact ⟨(if_neg absent).symm, m⟩
  | revoke messageId =>
      simp only [Api.handleMessages, Api.revoke, Api.deleteOrElse, Seen.AnswersMessages]
      rcases m.taken c messageId .senderId user.id with ⟨there, found⟩ | ⟨absent, unchanged⟩
      · rw [found]
        refine ⟨(if_pos there).symm, ?_⟩
        have mail := m.messageDeleted c messageId .senderId user.id
        simp only [Messages.noteMail, found, if_true] at mail
        exact mail
      · rw [unchanged]
        exact ⟨(if_neg absent).symm, m⟩

/-! ### Keys -/

theorem bundleStored (bundle : UserKeyBundle) (known : bundle.userId ∈ db.userIds) :
    ∃ after, storeKeyBundle db bundle = .ok after ∧ Constraints after ∧
      after.userIds = db.userIds ∧ Matches after { seen with
        bundles := Function.update seen.bundles bundle.userId (some bundle) } := by
  obtain ⟨after, done⟩ := storeKeyBundle_known bundle known
  have performed : perform db (.storeKeyBundle bundle) = .ok after := done
  have mail := Messages.recorded_kept c m.mail (.storeKeyBundle bundle)
  rw [commit_ok performed] at mail
  have c' := perform_constraints c performed
  have stored : bundle ∈ after.userKeyBundles := by
    rcases Database.upsertUserKeyBundle_ok.mp done with ⟨published, rfl⟩ | ⟨-, -, rfl⟩
    · obtain ⟨old, inTable, same⟩ := List.mem_map.mp published
      exact List.mem_map.mpr ⟨old, inTable, if_pos same⟩
    · exact List.mem_append_right _ (List.mem_singleton_self bundle)
  have bundles : Function.update seen.bundles bundle.userId (some bundle) = getKeyBundle after := by
    funext v
    by_cases mine : v = bundle.userId
    · subst mine
      rw [Function.update_self]
      exact (find?_key c'.userKeyBundles stored).symm
    · rw [Function.update_of_ne mine, m.bundles, Keys.Bundle.getKeyBundle_upsert done mine]
  refine ⟨after, done, c', ?_⟩
  rcases Database.upsertUserKeyBundle_ok.mp done with ⟨-, rfl⟩ | ⟨-, -, rfl⟩
  · exact ⟨rfl, { m with bundles := bundles, mail := mail }⟩
  · exact ⟨rfl, { m with bundles := bundles, mail := mail }⟩

theorem prekeysAdded {u : UserId} (known : u ∈ db.userIds) (prekeys : List Bytes) :
    ∃ after, addOneTimePrekeys db u prekeys = .ok after ∧
      Matches after (seen.prekeysAdded u prekeys) := by
  have done : addOneTimePrekeys db u prekeys = .ok _ :=
    Database.insertOneTimePrekeys_ok.mpr ⟨Or.inr known, rfl⟩
  have performed : perform db (.addOneTimePrekeys u prekeys) = .ok _ := done
  have mail := Messages.recorded_kept c m.mail (.addOneTimePrekeys u prekeys)
  rw [commit_ok performed] at mail
  refine ⟨_, done, { m with prekeys := ?_, mail := mail }⟩
  rw [Keys.queued_added c (perform_constraints c performed) rfl, ← m.prekeys]
  rfl

theorem prekeyPopped (u : UserId) :
    (popOneTimePrekey db u).2 = (seen.prekeys u).head? ∧
      Matches (popOneTimePrekey db u).1
        { seen with prekeys := Function.update seen.prekeys u (seen.prekeys u).tail } := by
  obtain ⟨isHead, popped⟩ := Keys.queued_popped c u
  have mail := Messages.recorded_kept c m.mail (.popOneTimePrekey u)
  have performed : perform db (.popOneTimePrekey u) = .ok (popOneTimePrekey db u).1 := rfl
  rw [commit_ok performed] at mail
  rw [m.prekeys]
  refine ⟨isHead, ?_⟩
  obtain ⟨rows, onlyRows⟩ := popOneTimePrekey_fst db u
  rw [onlyRows] at popped mail ⊢
  exact { m with prekeys := popped.symm, mail := mail }

theorem handleKeys {user : User} (known : user.id ∈ db.userIds) (request : Api.KeysRequest) :
    seen.AnswersKeys user.id request (Api.handleKeys db user request).2 ∧
      Matches (Api.handleKeys db user request).1
        (seen.noteKeys user.id request (Api.handleKeys db user request).2) := by
  cases request with
  | publishBundle body =>
      obtain ⟨stored, bundle, c', still, m'⟩ := m.bundleStored c (body.row user.id) known
      obtain ⟨after, added, m''⟩ := m'.prekeysAdded c' (still ▸ known) body.oneTimePrekeys
      simp only [Api.handleKeys, Api.publishBundle, bundle, Api.uploadPrekeys, added]
      exact ⟨rfl, m''⟩
  | uploadPrekeys prekeys =>
      obtain ⟨after, added, m'⟩ := m.prekeysAdded c known prekeys
      simp only [Api.handleKeys, Api.uploadPrekeys, added]
      exact ⟨rfl, m'⟩
  | getPrekeyCount =>
      refine ⟨?_, m⟩
      simp only [Api.handleKeys, Seen.AnswersKeys, m.prekeys, Keys.length_queued]
  | lookupIdentityPubByUsername username =>
      simp only [Api.handleKeys, Api.lookupIdentityPubByUsername, Seen.AnswersKeys,
        m.bundleNamed c username]
      by_cases sendable : Sendable username
      · rw [if_neg (not_not.mpr sendable), if_neg (not_not.mpr sendable)]
        cases seen.bundleNamed username with
        | none => exact ⟨rfl, m⟩
        | some bundle => exact ⟨rfl, m⟩
      · rw [if_pos sendable, if_pos sendable]
        exact ⟨rfl, m⟩
  | fetchBundle v =>
      simp only [Api.handleKeys, Api.fetchBundle, Seen.AnswersKeys, m.bundles, m.ids]
      by_cases there : v ∈ db.userIds
      · obtain ⟨owner, found, -⟩ := getUserById_known there
        rw [if_neg (not_not.mpr there), found]
        cases published : getKeyBundle db v with
        | none => exact ⟨rfl, m⟩
        | some bundle =>
            obtain ⟨isHead, m'⟩ := m.prekeyPopped c v
            rw [← isHead]
            exact ⟨rfl, m'⟩
      · rw [if_pos there, getUserById_absent there]
        exact ⟨rfl, m⟩

end Matches

/-! ## Every request -/

section Serve

variable {V : Type} {libs : Libraries V} {st : State V} {s : Step} {seen : Seen}

/-- Access tokens are not looked up in the blocklist. -/
theorem verifyToken_full (lib : TokenLib) (db : Database) (now : Rat) (credentials : String) :
    verifyToken lib db now credentials .full = verifyToken lib {} now credentials .full := by
  have unlisted : ∀ (db : Database) (claims : TokenClaims), isRevoked lib db claims .full = false := by
    intro db claims
    unfold isRevoked
    cases claims.jti with
    | none => rfl
    | some jti => rfl
  simp only [verifyToken, unlisted]

/-- `get_current_user` finds the actor. -/
theorem getCurrentUser_actor (lib : TokenLib) {db : Database} (m : Matches db seen) (now : Rat)
    (credentials : String) :
    match seen.actor lib now credentials with
    | none => ∃ failure, getCurrentUser lib db now credentials = .error failure ∧ failure.IsFailure
    | some u => ∃ user, getCurrentUser lib db now credentials = .ok user ∧ user.id = u ∧
        getUserById db u = some user := by
  unfold Seen.actor getCurrentUser
  rw [verifyToken_full lib db]
  cases verifyToken lib {} now credentials .full with
  | error raised => exact ⟨_, rfl, refuse_isFailure _ raised⟩
  | ok claims =>
      simp only [loadUser]
      cases claims.userId with
      | error raised => exact ⟨_, rfl, trivial⟩
      | ok u =>
          rw [m.ids]
          by_cases known : u ∈ db.userIds
          · obtain ⟨user, found, same⟩ := getUserById_known known
            simp only [if_pos known, found]
            exact ⟨user, rfl, same, rfl⟩
          · simp only [if_neg known, getUserById_absent known]
            exact ⟨_, rfl, trivial⟩

/-- A request that calls nothing but group methods and the blocklist. -/
theorem serve_kept (c : Constraints st.db) (m : Matches st.db seen)
    (silent : ∀ op, s.request.MayCall op → ¬ op.OnPersonal ∨ BlocksToken op) :
    Matches (serve libs st s).1.db seen := by
  have both : Constraints (serve libs st s).1.db ∧ Matches (serve libs st s).1.db seen := by
    refine serve_keeps_of (P := fun db => Constraints db ∧ Matches db seen) ?_ ⟨c, m⟩
    intro before op after mayCall done ⟨c, m⟩
    exact ⟨perform_constraints c done, m.kept c done (silent op mayCall)⟩
  exact both.2

/-- Behind its dependencies a limited endpoint is called, or its limit is exceeded. -/
theorem serve_resolved (call : Call) (isLimited : call.isLimited = true)
    (resolved : dependencies libs st.db s.reading.decodedAt s.request = (st.db, .ok call)) :
    serve libs st s = match s.exceeded with
      | some detail => (st, .rateLimitExceeded ("Rate limit exceeded: " ++ detail))
      | none => endpoint libs st s.reading call := by
  cases exceeds : s.exceeded with
  | some detail => simp [serve, resolved, limiter, isLimited, exceeds]
  | none => simp [serve, resolved, limiter, isLimited, exceeds]

theorem register_seen (libs : Libraries V) (c : Constraints st.db) (m : Matches st.db seen)
    (reading : Reading) (body : RegisterRequest) :
    seen.AnswersRegister body (register libs st reading body).2 ∧
      Matches (register libs st reading body).1.db
        (seen.note reading.decodedAt (.register body)
          (.login (register libs st reading body).2 : Response libs.toTokenLib)) := by
  unfold register Seen.AnswersRegister
  rw [m.usernames]
  by_cases taken : body.username.val ∈ st.db.users.map User.username
  · obtain ⟨user, found⟩ := getUserByUsername_known taken
    rw [if_pos taken, found]
    exact ⟨rfl, m⟩
  have free : getUserByUsername st.db body.username = none := by
    cases found : getUserByUsername st.db body.username with
    | none => rfl
    | some user =>
        obtain ⟨inTable, named⟩ := getUserByUsername_some found
        exact absurd (List.mem_map.mpr ⟨user, inTable, named⟩) taken
  rw [if_neg taken, free]
  cases isHex : fromHex body.srpVerifier with
  | none => exact ⟨rfl, m⟩
  | some verifier =>
      dsimp only
      rw [if_neg (Option.some_ne_none verifier)]
      obtain ⟨⟨after, id⟩, created⟩ : ∃ result, createUser st.db body.username body.srpSalt
          (encrypt libs.aead reading.verifierNonce verifier)
          (encrypt libs.aead reading.totpNonce (encodeText reading.totpSecret)) = .ok result := by
        have inserted : st.db.insertUser body.username body.srpSalt
            (encrypt libs.aead reading.verifierNonce verifier)
            (encrypt libs.aead reading.totpNonce (encodeText reading.totpSecret)) = .ok _ :=
          Database.insertUser_ok.mpr
            ⟨⟨body.username.sendable, body.srpSalt.sendable⟩, taken, rfl, rfl⟩
        rw [createUser, inserted]
        exact ⟨_, rfl⟩
      obtain ⟨matches_, isNew⟩ := m.userCreated c created
      rw [created]
      exact ⟨⟨id, _, rfl, isNew⟩, matches_⟩

theorem account_silent {credentials : String} {request : Api.Request}
    (asks : s.request = .authorized credentials (.account request)) (other : request ≠ .deleteMe)
    (op : Operation) (mayCall : s.request.MayCall op) : ¬ op.OnPersonal ∨ BlocksToken op := by
  rw [asks] at mayCall
  obtain ⟨u, called⟩ := mayCall
  left
  cases request with
  | deleteMe => exact absurd rfl other
  | listGroups => cases called
  | createGroup => cases called; exact id
  | onGroup g request =>
      cases request with
      | info => cases called
      | listMessages => cases called
      | _ => cases called; exact id

/-- A request of an account that exists. -/
theorem serve_actor (c : Constraints st.db) (m : Matches st.db seen) {credentials : String}
    {request : Authorized} {user : User} (asks : s.request = .authorized credentials request)
    (current : getCurrentUser libs.toTokenLib st.db s.reading.decodedAt credentials = .ok user)
    (found : getUserById st.db user.id = some user) :
    seen.AnswersAuthorized user.id s.exceeded request (serve libs st s).2 ∧
      Matches (serve libs st s).1.db (seen.noteAuthorized user.id request (serve libs st s).2) := by
  have known := (getUserById_some found).2
  have resolved : dependencies libs st.db s.reading.decodedAt s.request =
      (st.db, authorize libs st.db s.reading.decodedAt credentials request) := by
    rw [asks]
    rfl
  cases request with
  | keys request =>
      rw [authorize, current] at resolved
      rw [serve_resolved (.keys user request) rfl resolved]
      cases s.exceeded with
      | some detail => exact ⟨rfl, m⟩
      | none =>
          obtain ⟨answers, m'⟩ := m.handleKeys c known request
          exact ⟨⟨_, rfl, answers⟩, m'⟩
  | messages request =>
      rw [authorize, current] at resolved
      rw [serve_resolved (.messages user request) rfl resolved]
      cases s.exceeded with
      | some detail => exact ⟨rfl, m⟩
      | none =>
          obtain ⟨answers, m'⟩ := m.handleMessages c known request
          exact ⟨⟨_, rfl, answers⟩, m'⟩
  | account request =>
      cases request with
      | deleteMe =>
          have ready : Api.dependencies st.db user.id .deleteMe = .ok ⟨.fresh, user, .deleteMe⟩ := by
            rw [Api.dependencies, Api.getCurrentUser, found]
            rfl
          rw [authorize, current] at resolved
          have calls : dependencies libs st.db s.reading.decodedAt s.request =
              (st.db, .ok (.account ⟨.fresh, user, .deleteMe⟩)) := by
            rw [resolved]
            show (st.db, (Api.dependencies st.db user.id .deleteMe).mapError _ >>= _) = _
            rw [ready]
            rfl
          rw [serve_resolved _ rfl calls]
          cases s.exceeded with
          | some detail => exact ⟨rfl, m⟩
          | none =>
              obtain ⟨after, deleted, m'⟩ := m.accountDeleted c known
              simp only [endpoint, Api.handle, deleted]
              exact ⟨rfl, m'⟩
      | listGroups => exact ⟨trivial, serve_kept c m (account_silent asks (by simp))⟩
      | createGroup => exact ⟨trivial, serve_kept c m (account_silent asks (by simp))⟩
      | onGroup => exact ⟨trivial, serve_kept c m (account_silent asks (by simp))⟩

/-- The handshake and the token endpoints. -/
theorem login_silent (other : ∀ body, s.request ≠ .register body)
    (unauthorized : ∀ credentials request, s.request ≠ .authorized credentials request)
    (op : Operation) (mayCall : s.request.MayCall op) : ¬ op.OnPersonal ∨ BlocksToken op := by
  generalize s.request = request at *
  cases request with
  | register body => exact absurd rfl (other body)
  | authorized credentials request => exact absurd rfl (unauthorized credentials request)
  | verify2fa | refresh | logout =>
      cases op with
      | blockRefreshToken => exact Or.inr trivial
      | _ => cases mayCall
  | _ => cases mayCall

/-- **The step of the simulation.** -/
theorem serve_seen (c : Constraints st.db) (m : Matches st.db seen) (s : Step) :
    seen.Answers s (serve libs st s).2 ∧
      Matches (serve libs st s).1.db
        (seen.note s.reading.decodedAt s.request (serve libs st s).2) := by
  unfold Seen.Answers
  cases asks : s.request with
  | register body =>
      have resolved : dependencies libs st.db s.reading.decodedAt s.request =
          (st.db, .ok (.register body)) := by rw [asks]; rfl
      rw [serve_resolved _ rfl resolved]
      cases s.exceeded with
      | some detail => exact ⟨rfl, m⟩
      | none =>
          obtain ⟨answers, m'⟩ := register_seen libs c m s.reading body
          exact ⟨⟨_, rfl, answers⟩, m'⟩
  | authorized credentials request =>
      have acting := getCurrentUser_actor libs.toTokenLib m s.reading.decodedAt credentials
      simp only [Seen.note]
      cases who : seen.actor libs.toTokenLib s.reading.decodedAt credentials with
      | none =>
          rw [who] at acting
          obtain ⟨failure, refused, isFailure⟩ := acting
          have resolved : dependencies libs st.db s.reading.decodedAt s.request =
              (st.db, .error (.login failure)) := by
            rw [asks]
            show (st.db, authorize libs st.db s.reading.decodedAt credentials request) = _
            rw [authorize, refused]
            rfl
          simp only [serve, resolved]
          exact ⟨⟨failure, rfl, isFailure⟩, m⟩
      | some u =>
          rw [who] at acting
          obtain ⟨user, current, rfl, found⟩ := acting
          exact serve_actor c m asks current found
  | _ =>
      refine ⟨trivial, serve_kept c m (login_silent ?_ ?_)⟩
      · rw [asks]; intros; simp
      · rw [asks]; intros; simp

/-- **Accounts, keys and mail are served as the exchange tells**: in every run, the answer
to every request, but for the group endpoints, the handshake and the token endpoints, is
the one that the earlier requests and their answers leave. -/
theorem served_as_seen (libs : Libraries V) (steps : List Step) (s : Step) :
    (seenAfter libs steps).Answers s (respond libs steps s) := by
  have now : Constraints ((application libs).run steps).db ∧
      Matches ((application libs).run steps).db (seenAfter libs steps) := by
    refine (application libs).observe_invariant
      (P := fun st seen => Constraints st.db ∧ Matches st.db seen) ⟨sound_empty.constraints, .empty⟩
      ?_ steps
    intro st s seen ⟨c, m⟩
    exact ⟨serve_keeps kept_constraints c, (serve_seen c m s).2⟩
  exact (serve_seen now.1 now.2 s).1

end Serve

end SecureMsg.App
