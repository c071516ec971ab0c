/-
# Store.Tables — the schema: rows, tables, sequences

One structure per mapped class of `app/models`, one list per table.  A serial
primary key is drawn from a sequence that only grows (`Sequences`), so an id is
never handed out twice.  Identifiers and epochs are `Int`: requests may carry
any integer, and a stored id is whatever the sequence gave.

The serial id of `sender_key_distributions` is left out: no query reads it, and
the rows are already told apart by `uq_skd_recipient_group_epoch`.
-/
import SecureMsg.Theory.Rows
import SecureMsg.Theory.Dict

namespace SecureMsg.Store

open SecureMsg.Theory

set_option autoImplicit false

abbrev UserId := Int
abbrev GroupId := Int
abbrev MessageId := Int
abbrev Bytes := List UInt8

/-- A `dict[int, bytes]` from user ids to ciphertexts. -/
abbrev Ciphertexts := Dict UserId Bytes

/-! ## Rows -/

structure User where
  id : UserId
  username : String
  srpSalt : String
  srpVerifierEnc : Bytes
  totpSecretEnc : Bytes
  deriving DecidableEq, Repr

structure RefreshTokenBlocklist where
  jtiHash : Bytes
  expiresAt : Int
  deriving DecidableEq, Repr

structure UserKeyBundle where
  userId : UserId
  identityPub : Bytes
  signedPrekeyPub : Bytes
  signedPrekeySig : Bytes
  pqPrekeyPub : Bytes
  pqPrekeySig : Bytes
  deriving DecidableEq, Repr

structure OneTimePreKey where
  id : Int
  userId : UserId
  prekeyPub : Bytes
  deriving DecidableEq, Repr

structure Message where
  id : MessageId
  senderId : UserId
  recipientId : UserId
  ciphertext : Bytes
  ratchetHeaderEnc : Bytes
  deriving DecidableEq, Repr

structure Group where
  id : GroupId
  name : String
  creatorId : UserId
  epoch : Int
  deriving DecidableEq, Repr

structure GroupMember where
  groupId : GroupId
  userId : UserId
  deriving DecidableEq, Repr

structure SenderKeyDistribution where
  groupId : GroupId
  recipientId : UserId
  skdmCiphertext : Bytes
  epoch : Int
  deriving DecidableEq, Repr

structure GroupMessage where
  id : MessageId
  senderId : UserId
  groupId : GroupId
  epoch : Int
  ciphertext : Bytes
  deriving DecidableEq, Repr

structure GroupMessageReceipt where
  messageId : MessageId
  userId : UserId
  deriving DecidableEq, Repr

/-- The next value of each serial primary key. -/
structure Sequences where
  users : Int := 1
  groups : Int := 1
  groupMessages : Int := 1
  messages : Int := 1
  oneTimePrekeys : Int := 1
  deriving DecidableEq, Repr

/-- Every sequence of the first is at or behind the one of the second. -/
structure Sequences.Within (before after : Sequences) : Prop where
  users : before.users ≤ after.users
  groups : before.groups ≤ after.groups
  groupMessages : before.groupMessages ≤ after.groupMessages
  messages : before.messages ≤ after.messages
  oneTimePrekeys : before.oneTimePrekeys ≤ after.oneTimePrekeys

structure Database where
  users : List User := []
  groups : List Group := []
  groupMembers : List GroupMember := []
  senderKeyDistributions : List SenderKeyDistribution := []
  groupMessages : List GroupMessage := []
  groupMessageReceipts : List GroupMessageReceipt := []
  messages : List Message := []
  userKeyBundles : List UserKeyBundle := []
  oneTimePrekeys : List OneTimePreKey := []
  refreshTokenBlocklist : List RefreshTokenBlocklist := []
  sequences : Sequences := {}
  deriving DecidableEq, Repr

/-- What a repository function can raise: the built-in exceptions it raises
itself, with their texts, and the driver's `IntegrityError` and `DataError`. -/
inductive Error where
  | permissionError (detail : String)
  | valueError (detail : String)
  | lookupError (detail : String)
  | overflowError (detail : String)
  | integrityError (violated : Violation)
  /-- "integer out of range" -/
  | dataError
  deriving DecidableEq, Repr

namespace Database

/-! ## Reading -/

def userIds (db : Database) : List UserId := db.users.map User.id

def groupIds (db : Database) : List GroupId := db.groups.map Group.id

def groupMessageIds (db : Database) : List MessageId := db.groupMessages.map GroupMessage.id

/-- Membership is the presence of the row, which has no other column. -/
def IsMember (db : Database) (groupId : GroupId) (userId : UserId) : Prop :=
  ⟨groupId, userId⟩ ∈ db.groupMembers

instance (db : Database) (groupId : GroupId) (userId : UserId) :
    Decidable (db.IsMember groupId userId) :=
  inferInstanceAs (Decidable (_ ∈ db.groupMembers))

/-- The user ids of a group's rows in `group_members`. -/
def membersOf (db : Database) (groupId : GroupId) : List UserId :=
  (db.groupMembers.filter fun row => row.groupId = groupId).map GroupMember.userId

/-- `SELECT ... FROM groups WHERE id = groupId`. -/
def findGroup (db : Database) (groupId : GroupId) : Option Group :=
  db.groups.find? fun row => row.id = groupId

@[simp] theorem mem_membersOf {db : Database} {groupId : GroupId} {userId : UserId} :
    userId ∈ db.membersOf groupId ↔ db.IsMember groupId userId := by
  simp only [membersOf, IsMember, List.mem_map, List.mem_filter, decide_eq_true_eq]
  constructor
  · rintro ⟨⟨g, u⟩, ⟨row, rfl⟩, rfl⟩
    exact row
  · intro row
    exact ⟨_, ⟨row, rfl⟩, rfl⟩

theorem findGroup_some {db : Database} {groupId : GroupId} {row : Group}
    (found : db.findGroup groupId = some row) : row ∈ db.groups ∧ row.id = groupId :=
  ⟨List.mem_of_find?_eq_some found, by simpa using List.find?_some found⟩

theorem findGroup_none {db : Database} {groupId : GroupId} :
    db.findGroup groupId = none ↔ groupId ∉ db.groupIds := by
  simp [findGroup, groupIds]

/-- Members are listed once when the table has no repeated row. -/
theorem membersOf_nodup {db : Database} (distinct : db.groupMembers.Nodup)
    (groupId : GroupId) : (db.membersOf groupId).Nodup := by
  refine List.Nodup.map_on ?_ (distinct.filter _)
  rintro ⟨g, u⟩ inTable ⟨g', u'⟩ inTable' same
  simp only [List.mem_filter, decide_eq_true_eq] at inTable inTable'
  rw [GroupMember.mk.injEq]
  exact ⟨inTable.2.trans inTable'.2.symm, same⟩

end Database

end SecureMsg.Store
