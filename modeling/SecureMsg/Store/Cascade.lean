/-
# Store.Cascade — deleting rows through the foreign keys

Every foreign key of the schema is `ON DELETE CASCADE`.  The three deletions
below spell out, level by level, what PostgreSQL removes: receipts with their
message, everything of a group with the group, everything of a user with the
user (the groups the user created included).  Each one is shown to be
`Schema.survivors` of the stored rows (`deleteGroupMessagesWhere_rows`,
`deleteGroupsWhere_rows`, `deleteUsersWhere_rows`), which is where the closure
of the foreign keys comes from.
-/
import SecureMsg.Theory.Cascade
import SecureMsg.Store.Tables

namespace SecureMsg.Store

open SecureMsg.Theory

set_option autoImplicit false

/-! ## All rows in one type -/

/-- The primary keys that some foreign key names. -/
inductive Key where
  | user (id : UserId)
  | group (id : GroupId)
  | groupMessage (id : MessageId)
  deriving DecidableEq, Repr

inductive Row where
  | user (row : User)
  | group (row : Group)
  | groupMember (row : GroupMember)
  | senderKeyDistribution (row : SenderKeyDistribution)
  | groupMessage (row : GroupMessage)
  | groupMessageReceipt (row : GroupMessageReceipt)
  | message (row : Message)
  | userKeyBundle (row : UserKeyBundle)
  | oneTimePrekey (row : OneTimePreKey)
  | refreshTokenBlocklist (row : RefreshTokenBlocklist)
  deriving DecidableEq, Repr

namespace Row

def key : Row → Option Key
  | .user row => some (.user row.id)
  | .group row => some (.group row.id)
  | .groupMessage row => some (.groupMessage row.id)
  | _ => none

/-- The keys a row's foreign keys name. -/
def needs : Row → List Key
  | .group row => [.user row.creatorId]
  | .groupMember row => [.group row.groupId, .user row.userId]
  | .senderKeyDistribution row => [.group row.groupId, .user row.recipientId]
  | .groupMessage row => [.user row.senderId, .group row.groupId]
  | .groupMessageReceipt row => [.groupMessage row.messageId, .user row.userId]
  | .message row => [.user row.senderId, .user row.recipientId]
  | .userKeyBundle row => [.user row.userId]
  | .oneTimePrekey row => [.user row.userId]
  | .user _ | .refreshTokenBlocklist _ => []

@[simp] theorem key_eq_user {row : Row} {id : UserId} :
    row.key = some (.user id) ↔ ∃ u, row = .user u ∧ u.id = id := by
  cases row <;> simp [key]

@[simp] theorem key_eq_group {row : Row} {id : GroupId} :
    row.key = some (.group id) ↔ ∃ g, row = .group g ∧ g.id = id := by
  cases row <;> simp [key]

@[simp] theorem key_eq_groupMessage {row : Row} {id : MessageId} :
    row.key = some (.groupMessage id) ↔ ∃ m, row = .groupMessage m ∧ m.id = id := by
  cases row <;> simp [key]

end Row

/-- The foreign keys of `app/models`. -/
def schema : Schema Row Key := ⟨Row.key, fun row k => k ∈ row.needs⟩

namespace Database

def Stores (db : Database) : Row → Prop
  | .user row => row ∈ db.users
  | .group row => row ∈ db.groups
  | .groupMember row => row ∈ db.groupMembers
  | .senderKeyDistribution row => row ∈ db.senderKeyDistributions
  | .groupMessage row => row ∈ db.groupMessages
  | .groupMessageReceipt row => row ∈ db.groupMessageReceipts
  | .message row => row ∈ db.messages
  | .userKeyBundle row => row ∈ db.userKeyBundles
  | .oneTimePrekey row => row ∈ db.oneTimePrekeys
  | .refreshTokenBlocklist row => row ∈ db.refreshTokenBlocklist

def rows (db : Database) : Set Row := {row | db.Stores row}

/-! ## The deletions -/

/-- `id` is the id of a row the statement deletes. -/
def userGone (db : Database) (p : User → Bool) (id : UserId) : Bool :=
  db.users.any fun row => p row && row.id == id

def groupGone (db : Database) (p : Group → Bool) (id : GroupId) : Bool :=
  db.groups.any fun row => p row && row.id == id

def groupMessageGone (db : Database) (p : GroupMessage → Bool) (id : MessageId) : Bool :=
  db.groupMessages.any fun row => p row && row.id == id

/-- `DELETE FROM group_messages WHERE p`, with the receipts. -/
def deleteGroupMessagesWhere (db : Database) (p : GroupMessage → Bool) : Database :=
  { db with
    groupMessages := db.groupMessages.filter fun row => !p row
    groupMessageReceipts :=
      db.groupMessageReceipts.filter fun row => !db.groupMessageGone p row.messageId }

/-- `DELETE FROM groups WHERE p`, with everything that belongs to the groups. -/
def deleteGroupsWhere (db : Database) (p : Group → Bool) : Database :=
  { db.deleteGroupMessagesWhere fun row => db.groupGone p row.groupId with
    groups := db.groups.filter fun row => !p row
    groupMembers := db.groupMembers.filter fun row => !db.groupGone p row.groupId
    senderKeyDistributions :=
      db.senderKeyDistributions.filter fun row => !db.groupGone p row.groupId }

/-- `DELETE FROM users WHERE p`, with everything that belongs to the users and
the groups they are `creator_id` of. -/
def deleteUsersWhere (db : Database) (p : User → Bool) : Database :=
  let user := db.userGone p
  let group := db.groupGone fun row => user row.creatorId
  let groupMessage := db.groupMessageGone fun row => user row.senderId || group row.groupId
  { db with
    users := db.users.filter fun row => !p row
    groups := db.groups.filter fun row => !user row.creatorId
    groupMembers := db.groupMembers.filter fun row => !(group row.groupId || user row.userId)
    senderKeyDistributions := db.senderKeyDistributions.filter fun row =>
      !(group row.groupId || user row.recipientId)
    groupMessages := db.groupMessages.filter fun row =>
      !(user row.senderId || group row.groupId)
    groupMessageReceipts := db.groupMessageReceipts.filter fun row =>
      !(groupMessage row.messageId || user row.userId)
    messages := db.messages.filter fun row => !(user row.senderId || user row.recipientId)
    userKeyBundles := db.userKeyBundles.filter fun row => !user row.userId
    oneTimePrekeys := db.oneTimePrekeys.filter fun row => !user row.userId }

theorem userGone_iff {db : Database} {p : User → Bool} {id : UserId} :
    db.userGone p id = true ↔ ∃ row ∈ db.users, p row = true ∧ row.id = id := by
  simp [userGone]

theorem groupGone_iff {db : Database} {p : Group → Bool} {id : GroupId} :
    db.groupGone p id = true ↔ ∃ row ∈ db.groups, p row = true ∧ row.id = id := by
  simp [groupGone]

theorem groupMessageGone_iff {db : Database} {p : GroupMessage → Bool} {id : MessageId} :
    db.groupMessageGone p id = true ↔ ∃ row ∈ db.groupMessages, p row = true ∧ row.id = id := by
  simp [groupMessageGone]

/-! ## The deletions are cascades -/

section Cascades

variable {db left : Database}

/-- Users are named by groups, groups by group messages, never the other way. -/
def rank : Key → Nat
  | .user _ => 0
  | .group _ => 1
  | .groupMessage _ => 2

theorem needs_descend (row : Row) (k k' : Key) (named : row.key = some k)
    (refers : k' ∈ row.needs) : rank k' < rank k := by
  cases row <;> cases named <;> simp [Row.needs] at refers
  case group => subst refers; exact Nat.zero_lt_one
  case groupMessage => rcases refers with rfl | rfl <;> simp [rank]

/-- A deletion is described by the chosen rows and the keys that go with them. -/
theorem rows_eq_survivors {doomed : Set Row} (goneKey : Key → Prop)
    (kept : ∀ row, left.Stores row ↔
      db.Stores row ∧ row ∉ doomed ∧ ∀ k ∈ row.needs, ¬ goneKey k)
    (keys : ∀ k, goneKey k ↔ ∃ row, db.Stores row ∧ row.key = some k ∧
      (row ∈ doomed ∨ ∃ k' ∈ row.needs, goneKey k')) :
    left.rows = schema.survivors db.rows doomed := by
  ext row
  rw [Schema.mem_survivors_iff rank goneKey needs_descend keys]
  exact kept row

theorem deleteGroupMessagesWhere_rows (p : GroupMessage → Bool) :
    (db.deleteGroupMessagesWhere p).rows =
      schema.survivors db.rows {row | ∃ m, row = .groupMessage m ∧ p m = true} := by
  let goneKey : Key → Prop
    | .groupMessage id => db.groupMessageGone p id = true
    | _ => False
  refine rows_eq_survivors goneKey ?_ ?_
  · intro row
    cases row <;> simp [Stores, deleteGroupMessagesWhere, Row.needs, goneKey]
  · rintro (id | id | id)
    · simp [goneKey, Row.needs]
    · simp [goneKey, Row.needs]
    · simp [goneKey, Row.needs, groupMessageGone_iff, Stores, and_comm]

theorem deleteGroupsWhere_rows (p : Group → Bool) :
    (db.deleteGroupsWhere p).rows =
      schema.survivors db.rows {row | ∃ g, row = .group g ∧ p g = true} := by
  let goneKey : Key → Prop
    | .user _ => False
    | .group id => db.groupGone p id = true
    | .groupMessage id => db.groupMessageGone (fun m => db.groupGone p m.groupId) id = true
  refine rows_eq_survivors goneKey ?_ ?_
  · intro row
    cases row <;>
      simp [Stores, deleteGroupsWhere, deleteGroupMessagesWhere, Row.needs, goneKey]
  · rintro (id | id | id)
    · simp [goneKey, Row.needs]
    · simp [goneKey, Row.needs, groupGone_iff, Stores, and_comm]
    · simp [goneKey, Row.needs, groupMessageGone_iff, Stores, and_comm]

theorem deleteUsersWhere_rows (p : User → Bool) :
    (db.deleteUsersWhere p).rows =
      schema.survivors db.rows {row | ∃ u, row = .user u ∧ p u = true} := by
  let goneKey : Key → Prop
    | .user id => db.userGone p id = true
    | .group id => db.groupGone (fun g => db.userGone p g.creatorId) id = true
    | .groupMessage id => db.groupMessageGone (fun m => db.userGone p m.senderId ||
        db.groupGone (fun g => db.userGone p g.creatorId) m.groupId) id = true
  refine rows_eq_survivors goneKey ?_ ?_
  · intro row
    cases row <;> simp [Stores, deleteUsersWhere, Row.needs, goneKey]
  · rintro (id | id | id)
    · simp [goneKey, Row.needs, userGone_iff, Stores, and_comm]
    · simp [goneKey, Row.needs, groupGone_iff, Stores, and_comm]
    · simp [goneKey, Row.needs, groupMessageGone_iff, Stores, and_comm]

end Cascades

end Database

end SecureMsg.Store
