/-
# Store.Integrity — the constraints PostgreSQL keeps

`Constraints db` is what the schema declares and the server enforces at every
commit: primary and unique keys, sequences ahead of the ids they gave out, and
every foreign key resolving.  Each primitive change the repositories make keeps
them; the foreign keys of a deletion come from `Schema.survivors_closed`.
-/
import SecureMsg.Store.Cascade

namespace SecureMsg.Store

open SecureMsg.Theory

set_option autoImplicit false

namespace Database

/-- The row a key names is stored. -/
def Has (db : Database) : Key → Prop
  | .user id => id ∈ db.userIds
  | .group id => id ∈ db.groupIds
  | .groupMessage id => id ∈ db.groupMessageIds

theorem has_iff {db : Database} {k : Key} :
    db.Has k ↔ ∃ row ∈ db.rows, row.key = some k := by
  cases k <;> simp [Has, userIds, groupIds, groupMessageIds, rows, Stores]

theorem closed_iff {db : Database} :
    schema.Closed db.rows ↔ ∀ row, db.Stores row → ∀ k ∈ row.needs, db.Has k := by
  constructor
  · intro closed row stored k refers
    exact has_iff.mpr (closed row stored k refers)
  · intro resolves row stored k refers
    exact has_iff.mp (resolves row stored k refers)

end Database

structure Constraints (db : Database) : Prop where
  users : Ascending User.id db.users
  usernames : (db.users.map User.username).Nodup
  groups : Ascending Group.id db.groups
  groupMembers : db.groupMembers.Nodup
  senderKeyDistributions :
    (db.senderKeyDistributions.map fun row => (row.recipientId, row.groupId, row.epoch)).Nodup
  groupMessages : Ascending GroupMessage.id db.groupMessages
  groupMessageReceipts : db.groupMessageReceipts.Nodup
  messages : Ascending Message.id db.messages
  userKeyBundles : (db.userKeyBundles.map UserKeyBundle.userId).Nodup
  oneTimePrekeys : Ascending OneTimePreKey.id db.oneTimePrekeys
  refreshTokenBlocklist : (db.refreshTokenBlocklist.map RefreshTokenBlocklist.jtiHash).Nodup
  nextUser : ∀ row ∈ db.users, row.id < db.sequences.users
  nextGroup : ∀ row ∈ db.groups, row.id < db.sequences.groups
  nextGroupMessage : ∀ row ∈ db.groupMessages, row.id < db.sequences.groupMessages
  nextMessage : ∀ row ∈ db.messages, row.id < db.sequences.messages
  nextOneTimePrekey : ∀ row ∈ db.oneTimePrekeys, row.id < db.sequences.oneTimePrekeys
  references : ∀ row, db.Stores row → ∀ k ∈ row.needs, db.Has k

namespace Constraints

variable {db : Database} (c : Constraints db)

include c

theorem closed : schema.Closed db.rows := Database.closed_iff.mpr c.references

theorem creator_exists {row : Group} (stored : row ∈ db.groups) : row.creatorId ∈ db.userIds :=
  c.references (.group row) stored _ List.mem_cons_self

theorem member_exists {g : GroupId} {u : UserId} (member : db.IsMember g u) :
    g ∈ db.groupIds ∧ u ∈ db.userIds :=
  ⟨c.references (.groupMember ⟨g, u⟩) member (.group g) (by simp [Row.needs]),
    c.references (.groupMember ⟨g, u⟩) member (.user u) (by simp [Row.needs])⟩

theorem skdm_exists {row : SenderKeyDistribution} (stored : row ∈ db.senderKeyDistributions) :
    row.groupId ∈ db.groupIds ∧ row.recipientId ∈ db.userIds :=
  ⟨c.references (.senderKeyDistribution row) stored (.group _) (by simp [Row.needs]),
    c.references (.senderKeyDistribution row) stored (.user _) (by simp [Row.needs])⟩

theorem groupMessage_exists {row : GroupMessage} (stored : row ∈ db.groupMessages) :
    row.senderId ∈ db.userIds ∧ row.groupId ∈ db.groupIds :=
  ⟨c.references (.groupMessage row) stored (.user _) (by simp [Row.needs]),
    c.references (.groupMessage row) stored (.group _) (by simp [Row.needs])⟩

theorem receipt_exists {row : GroupMessageReceipt} (stored : row ∈ db.groupMessageReceipts) :
    row.messageId ∈ db.groupMessageIds ∧ row.userId ∈ db.userIds :=
  ⟨c.references (.groupMessageReceipt row) stored (.groupMessage _) (by simp [Row.needs]),
    c.references (.groupMessageReceipt row) stored (.user _) (by simp [Row.needs])⟩

theorem message_exists {row : Message} (stored : row ∈ db.messages) :
    row.senderId ∈ db.userIds ∧ row.recipientId ∈ db.userIds :=
  ⟨c.references (.message row) stored (.user row.senderId) (by simp [Row.needs]),
    c.references (.message row) stored (.user row.recipientId) (by simp [Row.needs])⟩

/-- The sequences are ahead of the ids in use. -/
theorem userId_lt {id : UserId} (known : id ∈ db.userIds) : id < db.sequences.users := by
  obtain ⟨row, stored, rfl⟩ := List.mem_map.mp known
  exact c.nextUser row stored

theorem groupId_lt {id : GroupId} (known : id ∈ db.groupIds) : id < db.sequences.groups := by
  obtain ⟨row, stored, rfl⟩ := List.mem_map.mp known
  exact c.nextGroup row stored

theorem groupMessageId_lt {id : MessageId} (known : id ∈ db.groupMessageIds) :
    id < db.sequences.groupMessages := by
  obtain ⟨row, stored, rfl⟩ := List.mem_map.mp known
  exact c.nextGroupMessage row stored

/-- A group is found by its id, and only it. -/
theorem findGroup_eq_some {row : Group} :
    db.findGroup row.id = some row ↔ row ∈ db.groups := by
  constructor
  · exact fun found => (Database.findGroup_some found).1
  · intro stored
    cases found : db.findGroup row.id with
    | none => exact absurd (List.mem_map_of_mem stored) (Database.findGroup_none.mp found)
    | some other =>
        obtain ⟨otherStored, same⟩ := Database.findGroup_some found
        rw [c.groups.unique otherStored stored same]

theorem member_group {g : GroupId} {u : UserId} (member : db.IsMember g u) :
    ∃ row ∈ db.groups, row.id = g := by
  simpa [Database.groupIds] using (c.member_exists member).1

/-- A stored group goes exactly when the statement chose it. -/
theorem groupGone_eq {p : Group → Bool} {row : Group} (stored : row ∈ db.groups) :
    db.groupGone p row.id = p row := by
  rw [Bool.eq_iff_iff, Database.groupGone_iff]
  constructor
  · rintro ⟨other, otherStored, chosen, same⟩
    rwa [c.groups.unique otherStored stored same] at chosen
  · intro chosen
    exact ⟨row, stored, chosen, rfl⟩

theorem groupMessageGone_eq {p : GroupMessage → Bool} {row : GroupMessage}
    (stored : row ∈ db.groupMessages) : db.groupMessageGone p row.id = p row := by
  rw [Bool.eq_iff_iff, Database.groupMessageGone_iff]
  constructor
  · rintro ⟨other, otherStored, chosen, same⟩
    rwa [c.groupMessages.unique otherStored stored same] at chosen
  · intro chosen
    exact ⟨row, stored, chosen, rfl⟩

/-- A receipt stays exactly when its message does. -/
theorem mem_groupMessageIds_filter {p : GroupMessage → Bool} {id : MessageId}
    (known : id ∈ db.groupMessageIds) :
    id ∈ (db.groupMessages.filter fun row => !p row).map GroupMessage.id ↔
      db.groupMessageGone p id = false := by
  obtain ⟨row, stored, rfl⟩ := List.mem_map.mp known
  rw [c.groupMessageGone_eq stored, List.mem_map]
  constructor
  · rintro ⟨other, kept, same⟩
    obtain ⟨otherStored, stays⟩ := List.mem_filter.mp kept
    rw [c.groupMessages.unique otherStored stored same] at stays
    simpa using stays
  · intro stays
    exact ⟨row, List.mem_filter.mpr ⟨stored, by simp [stays]⟩, rfl⟩

/-! ## Deletions -/

theorem deleteGroupMessagesWhere (p : GroupMessage → Bool) :
    Constraints (db.deleteGroupMessagesWhere p) :=
  { c with
    groupMessages := c.groupMessages.filter _
    groupMessageReceipts := c.groupMessageReceipts.filter _
    nextGroupMessage := fun row stored => c.nextGroupMessage row (List.mem_of_mem_filter stored)
    references := Database.closed_iff.mp
      (Database.deleteGroupMessagesWhere_rows p ▸ Schema.survivors_closed c.closed) }

theorem deleteGroupsWhere (p : Group → Bool) : Constraints (db.deleteGroupsWhere p) :=
  { c.deleteGroupMessagesWhere fun row => db.groupGone p row.groupId with
    groups := c.groups.filter _
    groupMembers := c.groupMembers.filter _
    senderKeyDistributions := c.senderKeyDistributions.sublist (List.filter_sublist.map _)
    nextGroup := fun row stored => c.nextGroup row (List.mem_of_mem_filter stored)
    references := Database.closed_iff.mp
      (Database.deleteGroupsWhere_rows p ▸ Schema.survivors_closed c.closed) }

theorem deleteUsersWhere (p : User → Bool) : Constraints (db.deleteUsersWhere p) :=
  { c with
    users := c.users.filter _
    usernames := c.usernames.sublist (List.filter_sublist.map _)
    groups := c.groups.filter _
    groupMembers := c.groupMembers.filter _
    senderKeyDistributions := c.senderKeyDistributions.sublist (List.filter_sublist.map _)
    groupMessages := c.groupMessages.filter _
    groupMessageReceipts := c.groupMessageReceipts.filter _
    messages := c.messages.filter _
    userKeyBundles := c.userKeyBundles.sublist (List.filter_sublist.map _)
    oneTimePrekeys := c.oneTimePrekeys.filter _
    nextUser := fun row stored => c.nextUser row (List.mem_of_mem_filter stored)
    nextGroup := fun row stored => c.nextGroup row (List.mem_of_mem_filter stored)
    nextGroupMessage := fun row stored => c.nextGroupMessage row (List.mem_of_mem_filter stored)
    nextMessage := fun row stored => c.nextMessage row (List.mem_of_mem_filter stored)
    nextOneTimePrekey := fun row stored => c.nextOneTimePrekey row (List.mem_of_mem_filter stored)
    references := Database.closed_iff.mp
      (Database.deleteUsersWhere_rows p ▸ Schema.survivors_closed c.closed) }

end Constraints

end SecureMsg.Store
