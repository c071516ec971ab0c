/-
# Api.Groups — the group endpoints

A request is served in two steps, as the framework runs it: `dependencies`
authenticates the requester and, under `/groups/{group_id}`, loads the group and
checks membership; `handle` runs the endpoint with what the dependencies
returned, in the same session.  `serve` does one right after the other.

Bodies are taken after validation, so ciphertexts are bytes and a
`SendSKDMRequest` has at least one entry.  The requester is the user id of a
valid access token.

`isolation_iff`: a request under group `g` leaves every other group's rows alone,
and revokes or acknowledges only messages of `g`, exactly when its message id is
not a foreign message the requester may act on (`ActsWithin`): the two endpoints
that take a message id pass it on without the group.
-/
import SecureMsg.Repository.Isolation

namespace SecureMsg.Api

open SecureMsg.Theory SecureMsg.Store SecureMsg.Repository

set_option autoImplicit false

/-! ## Requests and responses -/

inductive GroupRequest where
  | info
  | addMember (userId : UserId) (skdmCiphertext : Bytes)
  | removeMember (userId : UserId) (skdmCiphertexts : Ciphertexts)
  | sendMessage (epoch : Int) (ciphertext : Bytes)
  | listMessages
  | revokeMessage (msgId : MessageId)
  | recordReceipt (msgId : MessageId)
  | sendSkdms (skdmCiphertexts : Ciphertexts) (atLeastOne : skdmCiphertexts.nonempty = true)
  | popSkdms

inductive Request where
  | listGroups
  | createGroup (name : String) (initialMembers : Ciphertexts)
  | onGroup (groupId : GroupId) (request : GroupRequest)
  | deleteMe

inductive Response where
  | noContent
  | created (id : Int)
  | group (id : GroupId) (name : String) (members : List UserId) (epoch : Int)
  | groups (rows : List (Group × List UserId))
  | messages (rows : List GroupMessage)
  | skdms (entries : List (Int × Bytes))
  | httpException (status : Nat) (detail : String)
  /-- An exception no handler catches: the framework answers 500. -/
  | unhandled (raised : Error)
  deriving DecidableEq

/-! ## Dependencies -/

def getCurrentUser (db : Database) (requesterId : UserId) : Except Response User :=
  match getUserById db requesterId with
  | none => .error (.httpException 401 "User not found")
  | some user => .ok user

/-- The session remembers the object it returns. -/
def requireGroupMember (session : Session) (db : Database) (groupId : GroupId)
    (currentUser : User) : Except Response (Session × Group) :=
  match getGroup session db groupId with
  | none => .error (.httpException 404 "Group not found")
  | some group =>
      if isMember db groupId currentUser.id then .ok (session.remember group, group)
      else .error (.httpException 403 "Not a member")

/-- The endpoint a request goes to, with the group its dependency returned. -/
inductive Endpoint where
  | listGroups
  | createGroup (name : String) (initialMembers : Ciphertexts)
  | onGroup (group : Group) (request : GroupRequest)
  | deleteMe

/-- A request between its two steps. -/
structure Pending where
  session : Session
  currentUser : User
  endpoint : Endpoint

def dependencies (db : Database) (requesterId : UserId) (request : Request) :
    Except Response Pending := do
  let currentUser ← getCurrentUser db requesterId
  match request with
  | .listGroups => return ⟨.fresh, currentUser, .listGroups⟩
  | .createGroup name initialMembers =>
      return ⟨.fresh, currentUser, .createGroup name initialMembers⟩
  | .onGroup groupId request =>
      let (session, group) ← requireGroupMember .fresh db groupId currentUser
      return ⟨session, currentUser, .onGroup group request⟩
  | .deleteMe => return ⟨.fresh, currentUser, .deleteMe⟩

/-! ## Endpoints -/

/-- Commit and answer, or roll back and answer the exception. -/
def answer {β : Type} (db : Database) (result : Except Error (Database × β))
    (ok : β → Response) (raised : Error → Response) : Database × Response :=
  match result with
  | .ok (after, value) => (after, ok value)
  | .error e => (db, raised e)

/-- The same for a method without a result. -/
def answerDone (db : Database) (result : Except Error Database) (raised : Error → Response) :
    Database × Response :=
  match result with
  | .ok after => (after, .noContent)
  | .error e => (db, raised e)

def addMemberRaised : Error → Response
  | .permissionError detail => .httpException 403 detail
  | .integrityError _ => .httpException 404 "user not found"
  | e => .unhandled e

def removeMemberRaised : Error → Response
  | .permissionError detail => .httpException 403 detail
  | .valueError detail => .httpException 404 detail
  | e => .unhandled e

def recordReceiptRaised : Error → Response
  | .lookupError _ => .httpException 404 "Message not found"
  | e => .unhandled e

def handleOnGroup (db : Database) (session : Session) (currentUser : User) (group : Group) :
    GroupRequest → Database × Response
  | .info => (db, .group group.id group.name (getMembers db group.id) group.epoch)
  | .addMember userId skdmCiphertext =>
      answerDone db (addMember db group.id currentUser.id userId skdmCiphertext) addMemberRaised
  | .removeMember userId skdmCiphertexts =>
      answer db (removeMember session db group.id currentUser.id userId skdmCiphertexts)
        (fun _ => .noContent) removeMemberRaised
  | .sendMessage epoch ciphertext =>
      answer db (storeGroupMessage db group.id currentUser.id epoch ciphertext)
        (fun msg => .created msg.id) .unhandled
  | .listMessages => (db, .messages (getGroupMessages db group.id currentUser.id))
  | .revokeMessage msgId =>
      let (after, revoked) := revokeGroupMessage db msgId currentUser.id
      if revoked then (after, .noContent)
      else (after, .httpException 403 "Cannot revoke this message")
  | .recordReceipt msgId =>
      answerDone db (recordGroupReceipt db msgId currentUser.id) recordReceiptRaised
  | .sendSkdms skdmCiphertexts _ =>
      answerDone db (storeSkdms db group.id skdmCiphertexts) .unhandled
  | .popSkdms =>
      let (after, skdms) := popSkdmsForUser db currentUser.id group.id
      (after, .skdms skdms)

def handle (db : Database) (pending : Pending) : Database × Response :=
  match pending.endpoint with
  | .listGroups =>
      (db, .groups ((getGroupsForUser db pending.currentUser.id).map
        fun group => (group, getMembers db group.id)))
  | .createGroup name initialMembers =>
      answer db (createGroup db name pending.currentUser.id initialMembers)
        (fun group => .created group.id) .unhandled
  | .onGroup group request =>
      handleOnGroup db pending.session pending.currentUser group request
  | .deleteMe =>
      answer db (deleteUser db pending.currentUser.id)
        (fun deleted => if deleted then .noContent else .httpException 404 "User not found")
        .unhandled

def serve (db : Database) (requesterId : UserId) (request : Request) : Database × Response :=
  match dependencies db requesterId request with
  | .ok pending => handle db pending
  | .error response => (db, response)

/-! ## A handler is one repository call -/

/-- The call an endpoint makes, if it writes. -/
def GroupRequest.call (requesterId : UserId) (groupId : GroupId) : GroupRequest → Option Operation
  | .info | .listMessages => none
  | .addMember userId skdmCiphertext =>
      some (.addMember groupId requesterId userId skdmCiphertext)
  | .removeMember userId skdmCiphertexts =>
      some (.removeMember groupId requesterId userId skdmCiphertexts)
  | .sendMessage epoch ciphertext => some (.storeGroupMessage groupId requesterId epoch ciphertext)
  | .revokeMessage msgId => some (.revokeGroupMessage msgId requesterId)
  | .recordReceipt msgId => some (.recordGroupReceipt msgId requesterId)
  | .sendSkdms skdmCiphertexts _ => some (.storeSkdms groupId skdmCiphertexts)
  | .popSkdms => some (.popSkdmsForUser requesterId groupId)

def commitCall (db : Database) : Option Operation → Database
  | none => db
  | some op => commit db op

variable {db : Database}

theorem answer_fst {β : Type} {result : Except Error (Database × β)} {ok : β → Response}
    {raised : Error → Response} :
    (answer db result ok raised).1 =
      match (do let (after, _) ← result; return after : Except Error Database) with
      | .ok after => after
      | .error _ => db := by
  cases result with
  | ok value => rfl
  | error e => rfl

theorem answerDone_fst {result : Except Error Database} {raised : Error → Response} :
    (answerDone db result raised).1 =
      match result with
      | .ok after => after
      | .error _ => db := by
  cases result with
  | ok after => rfl
  | error e => rfl

/-- A session that would read the row as it is stored. -/
def UpToDate (session : Session) (db : Database) (groupId : GroupId) : Prop :=
  session.selectGroup db groupId = db.findGroup groupId

theorem removeMember_upToDate {session : Session} {groupId : GroupId} {r u : UserId}
    {skdmCiphertexts : Ciphertexts} (current : UpToDate session db groupId) :
    removeMember session db groupId r u skdmCiphertexts =
      removeMember .fresh db groupId r u skdmCiphertexts := by
  unfold removeMember
  rw [Session.selectGroup_fresh, current]

/-- Only a removal reads the session. -/
theorem handleOnGroup_fst {session : Session} {currentUser : User} {group : Group}
    (request : GroupRequest)
    (current : ∀ u K, request = .removeMember u K → UpToDate session db group.id) :
    (handleOnGroup db session currentUser group request).1 =
      commitCall db (request.call currentUser.id group.id) := by
  cases request with
  | info => rfl
  | listMessages => rfl
  | addMember userId skdmCiphertext => exact answerDone_fst
  | removeMember userId skdmCiphertexts =>
      simp only [handleOnGroup, removeMember_upToDate (current userId skdmCiphertexts rfl)]
      exact answer_fst
  | sendMessage epoch ciphertext => exact answer_fst
  | revokeMessage msgId =>
      cases revoked : revokeGroupMessage db msgId currentUser.id with
      | mk after found =>
          have same : commit db (.revokeGroupMessage msgId currentUser.id) = after := by
            rw [commit, perform, revoked]
          simp only [handleOnGroup, revoked]
          cases found with
          | true => exact same.symm
          | false => exact same.symm
  | recordReceipt msgId => exact answerDone_fst
  | sendSkdms skdmCiphertexts atLeastOne => exact answerDone_fst
  | popSkdms => rfl

/-! ## Requests of members -/

theorem remember_upToDate {group : Group} (found : db.findGroup group.id = some group) :
    UpToDate (Session.fresh.remember group) db group.id := by
  unfold UpToDate Session.selectGroup
  rw [found]
  simp [Session.remember, Session.fresh, Session.cached]

theorem dependencies_member (c : Constraints db) {r : UserId} {g : GroupId}
    (member : db.IsMember g r) (request : GroupRequest) :
    ∃ user group, user.id = r ∧ db.findGroup g = some group ∧
      dependencies db r (.onGroup g request) =
        .ok ⟨Session.fresh.remember group, user, .onGroup group request⟩ := by
  obtain ⟨user, found, rfl⟩ := getUserById_known (c.member_exists member).2
  obtain ⟨group, stored, rfl⟩ := c.member_group member
  have foundGroup := c.findGroup_eq_some.mpr stored
  refine ⟨user, group, rfl, foundGroup, ?_⟩
  simp [dependencies, getCurrentUser, found, requireGroupMember, getGroup, foundGroup, isMember,
    member, bind, Except.bind, pure, Except.pure]

/-- Serving a member's request is committing the endpoint's call. -/
theorem serve_member (c : Constraints db) {r : UserId} {g : GroupId} (member : db.IsMember g r)
    (request : GroupRequest) :
    (serve db r (.onGroup g request)).1 = commitCall db (request.call r g) := by
  obtain ⟨user, group, rfl, found, ready⟩ := dependencies_member c member request
  obtain ⟨-, rfl⟩ := Database.findGroup_some found
  unfold serve
  rw [ready]
  exact handleOnGroup_fst request fun _ _ _ => remember_upToDate found

/-! ## Isolation -/

/-- The requester may act on the message through its id: revoke what they sent,
acknowledge what they have a receipt for.  Then it must be of this group. -/
def ActsWithin (db : Database) (r : UserId) (g : GroupId) : GroupRequest → Prop
  | .revokeMessage msgId =>
      ∀ msg ∈ db.groupMessages, msg.id = msgId → msg.senderId = r → msg.groupId = g
  | .recordReceipt msgId =>
      ∀ msg ∈ db.groupMessages, msg.id = msgId → ⟨msgId, r⟩ ∈ db.groupMessageReceipts →
        msg.groupId = g
  | _ => True

/-- Every other group keeps its rows. -/
def OthersKept (db : Database) (r : UserId) (g : GroupId) (request : GroupRequest) : Prop :=
  ∀ h, h ≠ g → rowsOf (serve db r (.onGroup g request)).1 h = rowsOf db h

/-- The message a request revokes or acknowledges. -/
def GroupRequest.actsOn : GroupRequest → Option MessageId
  | .revokeMessage msgId | .recordReceipt msgId => some msgId
  | _ => none

/-- A revoke or receipt that succeeds is for a message of the group. -/
def SucceedsWithin (db : Database) (r : UserId) (g : GroupId) (request : GroupRequest) : Prop :=
  ∀ msgId ∈ request.actsOn, (serve db r (.onGroup g request)).2 = .noContent →
    ∃ msg ∈ db.groupMessages, msg.id = msgId ∧ msg.groupId = g

theorem spares_of_actsWithin {r : UserId} {g h : GroupId} {request : GroupRequest}
    (within : ActsWithin db r g request) (other : h ≠ g) :
    ∀ op ∈ request.call r g, Spares db h op := by
  intro op isCall
  cases request with
  | info => cases isCall
  | listMessages => cases isCall
  | addMember => cases isCall; exact other
  | removeMember => cases isCall; exact other
  | sendMessage => cases isCall; exact other
  | sendSkdms => cases isCall; exact other
  | popSkdms => cases isCall; exact other
  | revokeMessage msgId =>
      cases isCall
      intro msg stored named sender inGroup
      exact other (inGroup.symm.trans (within msg stored named sender))
  | recordReceipt msgId =>
      cases isCall
      intro waiting msg stored named inGroup
      exact other (inGroup.symm.trans (within msg stored named waiting))

/-- The answer of the endpoint does not depend on the session for these two. -/
theorem serve_revoke (c : Constraints db) {r : UserId} {g : GroupId} (member : db.IsMember g r)
    (msgId : MessageId) :
    (serve db r (.onGroup g (.revokeMessage msgId))).2 = .noContent ↔
      ∃ msg ∈ db.groupMessages, msg.id = msgId ∧ msg.senderId = r := by
  obtain ⟨user, group, rfl, found, ready⟩ := dependencies_member c member (.revokeMessage msgId)
  unfold serve
  rw [ready]
  simp only [handle, handleOnGroup, revokeGroupMessage]
  by_cases sent : db.groupMessages.any (sentAs msgId user.id) = true
  · simp only [sent, if_true, true_iff]
    simpa [sentAs] using sent
  · simp only [sent]
    refine iff_of_false (by simp) ?_
    simpa [sentAs] using sent

theorem serve_receipt (c : Constraints db) {r : UserId} {g : GroupId} (member : db.IsMember g r)
    (msgId : MessageId) :
    (serve db r (.onGroup g (.recordReceipt msgId))).2 = .noContent ↔
      ⟨msgId, r⟩ ∈ db.groupMessageReceipts := by
  obtain ⟨user, group, rfl, found, ready⟩ := dependencies_member c member (.recordReceipt msgId)
  unfold serve
  rw [ready]
  simp only [handle, handleOnGroup, recordGroupReceipt]
  by_cases waiting : (⟨msgId, user.id⟩ : GroupMessageReceipt) ∈ db.groupMessageReceipts
  · simp [waiting, answerDone]
  · simp [waiting, answerDone, recordReceiptRaised]

/-- **Requests stay in their group exactly when they act within it.** -/
theorem isolation_iff (ops : List Operation) (r : UserId) (g : GroupId)
    (member : (service.run ops).IsMember g r) (request : GroupRequest) :
    (OthersKept (service.run ops) r g request ∧ SucceedsWithin (service.run ops) r g request) ↔
      ActsWithin (service.run ops) r g request := by
  have sound := reachable ops
  have c := sound.constraints
  generalize service.run ops = db at *
  constructor
  · rintro ⟨-, succeeds⟩
    cases request with
    | revokeMessage msgId =>
        intro msg stored named sender
        obtain ⟨found, foundStored, sameId, inGroup⟩ := succeeds msgId rfl
          ((serve_revoke c member msgId).mpr ⟨msg, stored, named, sender⟩)
        rwa [c.groupMessages.unique foundStored stored (sameId.trans named.symm)] at inGroup
    | recordReceipt msgId =>
        intro msg stored named waiting
        obtain ⟨found, foundStored, sameId, inGroup⟩ := succeeds msgId rfl
          ((serve_receipt c member msgId).mpr waiting)
        rwa [c.groupMessages.unique foundStored stored (sameId.trans named.symm)] at inGroup
    | _ => trivial
  · intro within
    constructor
    · intro h other
      rw [serve_member c member request]
      cases called : request.call r g with
      | none => rfl
      | some op => exact rowsOf_commit sound (spares_of_actsWithin within other op called)
    · intro msgId actsOn success
      cases request with
      | revokeMessage id =>
          cases actsOn
          obtain ⟨msg, stored, named, sender⟩ := (serve_revoke c member msgId).mp success
          exact ⟨msg, stored, named, within msg stored named sender⟩
      | recordReceipt id =>
          cases actsOn
          have waiting := (serve_receipt c member msgId).mp success
          obtain ⟨msg, stored, named⟩ := List.mem_map.mp (c.receipt_exists waiting).1
          exact ⟨msg, stored, named, within msg stored named waiting⟩
      | _ => cases actsOn

/-- Bob is in two groups and has written in the first. -/
def twoGroups : List Operation :=
  [.createUser "ada" "5a" [1] [2], .createUser "bob" "5b" [3] [4],
    .createGroup "first" 1 Dict.empty, .addMember 1 1 2 [7], .createGroup "second" 2 Dict.empty,
    .storeGroupMessage 1 2 1 [9]]

/-- Under its own group's path Bob may revoke the message. -/
theorem isolation_iff_twoGroups :
    (OthersKept (service.run twoGroups) 2 1 (.revokeMessage 1) ∧
        SucceedsWithin (service.run twoGroups) 2 1 (.revokeMessage 1)) ↔
      ActsWithin (service.run twoGroups) 2 1 (.revokeMessage 1) :=
  isolation_iff twoGroups 2 1 (by decide) (.revokeMessage 1)

/-- Bob revokes the message of the first group under the second group's path. -/
theorem foreign_message_revoked :
    (service.run twoGroups).IsMember 2 2 ∧
      ¬ (OthersKept (service.run twoGroups) 2 2 (.revokeMessage 1) ∧
        SucceedsWithin (service.run twoGroups) 2 2 (.revokeMessage 1)) := by
  refine ⟨by decide, ?_⟩
  rintro ⟨kept, -⟩
  have gone : rowsOf (serve (service.run twoGroups) 2 (.onGroup 2 (.revokeMessage 1))).1 1 ≠
      rowsOf (service.run twoGroups) 1 := by decide
  exact gone (kept 1 (by decide))

end SecureMsg.Api
