/-
# Groups.DeleteUser — the contract of `delete_user`

The account's groups are split by member count before the user row goes, so the
cascade through `groups.creator_id` finds nothing (`groupsSettled_creator`).
What goes is said by `DeletedWith`, which reads only the database before; what
stays is everything else, the rows of the user's other groups apart.
-/
import SecureMsg.Repository.Operation

namespace SecureMsg.Groups

open SecureMsg.Theory SecureMsg.Store SecureMsg.Repository

set_option autoImplicit false

/-- The rows that go with the account: its own, those that refer to it, and those
that refer to a group or a group message that goes.  A `groups` row goes only
when the user is its one member; naming the user as creator is not enough. -/
inductive DeletedWith (db : Database) (u : UserId) : Row → Prop where
  | account (row : User) (same : row.id = u) : DeletedWith db u (.user row)
  | soleGroup (row : Group) (only : ∀ uid, db.IsMember row.id uid ↔ uid = u) :
      DeletedWith db u (.group row)
  | refersToAccount (row : Row) (notGroup : ∀ g, row ≠ .group g) (refers : .user u ∈ row.needs) :
      DeletedWith db u row
  | refersToGroup (row : Row) (g : Group) (stored : g ∈ db.groups)
      (gone : DeletedWith db u (.group g)) (refers : .group g.id ∈ row.needs) :
      DeletedWith db u row
  | refersToMessage (row : Row) (msg : GroupMessage) (stored : msg ∈ db.groupMessages)
      (gone : DeletedWith db u (.groupMessage msg)) (refers : .groupMessage msg.id ∈ row.needs) :
      DeletedWith db u row

structure DeleteUserContract (db : Database) (u : UserId) (after : Database) : Prop where
  groupGone : ∀ row ∈ db.groups,
    row.id ∉ after.groupIds ↔ ∀ uid, db.IsMember row.id uid ↔ uid = u
  otherGroups : ∀ row ∈ db.groups, db.IsMember row.id u → row.id ∈ after.groupIds →
    (∀ uid, after.IsMember row.id uid ↔ db.IsMember row.id uid ∧ uid ≠ u) ∧
    ∃ updated, after.findGroup row.id = some updated ∧ updated.name = row.name ∧
      updated.epoch = row.epoch + 1 ∧
      (row.creatorId ≠ u → updated.creatorId = row.creatorId) ∧
      (row.creatorId = u → after.IsMember row.id updated.creatorId ∧
        ∀ uid, after.IsMember row.id uid → updated.creatorId ≤ uid)
  foreignGroups : ∀ row ∈ db.groups, ¬ db.IsMember row.id u → row ∈ after.groups
  noNewGroup : ∀ row ∈ after.groups, row.id ∈ db.groupIds
  otherRows : ∀ row, (∀ g, row ≠ .group g) →
    (after.Stores row ↔ db.Stores row ∧ ¬ DeletedWith db u row)
  accountGone : u ∉ after.userIds
  noReference : ∀ row, after.Stores row → .user u ∉ row.needs
  noDangling : ∀ row, after.Stores row → ∀ k ∈ row.needs, after.Has k

variable {db after : Database} {u : UserId}

theorem onlyMember_iff_forall {g : GroupId} :
    OnlyMember db g u ↔ ∀ uid, db.IsMember g uid ↔ uid = u := by
  rw [onlyMember_iff]
  constructor
  · rintro ⟨member, only⟩ uid
    constructor
    · exact only uid
    · rintro rfl
      exact member
  · intro exactly
    exact ⟨(exactly u).mpr rfl, fun uid => (exactly uid).mp⟩

/-! ## `DeletedWith`, table by table -/

theorem deletedWith_group {row : Group} :
    DeletedWith db u (.group row) ↔ OnlyMember db row.id u := by
  rw [onlyMember_iff_forall]
  constructor
  · intro gone
    cases gone with
    | soleGroup _ only => exact only
    | refersToAccount _ notGroup => exact absurd rfl (notGroup row)
    | refersToGroup _ g _ _ refers => simp [Row.needs] at refers
    | refersToMessage _ msg _ _ refers => simp [Row.needs] at refers
  · exact .soleGroup row

/-- Rows of the other tables go for one of three reasons. -/
theorem deletedWith_row {row : Row} (notGroup : ∀ g, row ≠ .group g)
    (notUser : ∀ account, row ≠ .user account) :
    DeletedWith db u row ↔ .user u ∈ row.needs ∨
      (∃ g ∈ db.groups, OnlyMember db g.id u ∧ .group g.id ∈ row.needs) ∨
      ∃ msg ∈ db.groupMessages, DeletedWith db u (.groupMessage msg) ∧
        .groupMessage msg.id ∈ row.needs := by
  constructor
  · intro gone
    cases gone with
    | account account => exact absurd rfl (notUser account)
    | soleGroup g => exact absurd rfl (notGroup g)
    | refersToAccount _ _ refers => exact Or.inl refers
    | refersToGroup _ g stored gone refers =>
        exact Or.inr (Or.inl ⟨g, stored, deletedWith_group.mp gone, refers⟩)
    | refersToMessage _ msg stored gone refers => exact Or.inr (Or.inr ⟨msg, stored, gone, refers⟩)
  · rintro (refers | ⟨g, stored, only, refers⟩ | ⟨msg, stored, gone, refers⟩)
    · exact .refersToAccount row notGroup refers
    · exact .refersToGroup row g stored (deletedWith_group.mpr only) refers
    · exact .refersToMessage row msg stored gone refers

/-- Referring to a group that goes, by id. -/
theorem refersToGroup_iff {g : GroupId} (known : g ∈ db.groupIds) :
    (∃ row ∈ db.groups, OnlyMember db row.id u ∧ row.id = g) ↔ OnlyMember db g u := by
  constructor
  · rintro ⟨row, -, only, rfl⟩
    exact only
  · intro only
    obtain ⟨row, stored, rfl⟩ := List.mem_map.mp known
    exact ⟨row, stored, only, rfl⟩

theorem deletedWith_user {row : User} : DeletedWith db u (.user row) ↔ row.id = u := by
  constructor
  · intro gone
    cases gone with
    | account _ same => exact same
    | refersToAccount _ _ refers => cases refers
    | refersToGroup _ _ _ _ refers => cases refers
    | refersToMessage _ _ _ _ refers => cases refers
  · exact .account row

theorem deletedWith_groupMember (c : Constraints db) {row : GroupMember}
    (stored : row ∈ db.groupMembers) :
    DeletedWith db u (.groupMember row) ↔ row.userId = u ∨ OnlyMember db row.groupId u := by
  have member : db.IsMember row.groupId row.userId := stored
  rw [deletedWith_row (by simp) (by simp), ← refersToGroup_iff (c.member_exists member).1]
  simp [Row.needs, eq_comm]

theorem deletedWith_skdm (c : Constraints db) {row : SenderKeyDistribution}
    (stored : row ∈ db.senderKeyDistributions) :
    DeletedWith db u (.senderKeyDistribution row) ↔
      row.recipientId = u ∨ OnlyMember db row.groupId u := by
  rw [deletedWith_row (by simp) (by simp), ← refersToGroup_iff (c.skdm_exists stored).1]
  simp [Row.needs, eq_comm]

theorem deletedWith_groupMessage (c : Constraints db) {row : GroupMessage}
    (stored : row ∈ db.groupMessages) :
    DeletedWith db u (.groupMessage row) ↔ row.senderId = u ∨ OnlyMember db row.groupId u := by
  rw [deletedWith_row (by simp) (by simp), ← refersToGroup_iff (c.groupMessage_exists stored).2]
  simp [Row.needs, eq_comm]

/-- A receipt goes with its reader or with its message. -/
theorem deletedWith_receipt (c : Constraints db) {row : GroupMessageReceipt}
    {msg : GroupMessage} (stored : msg ∈ db.groupMessages) (named : msg.id = row.messageId) :
    DeletedWith db u (.groupMessageReceipt row) ↔
      row.userId = u ∨ DeletedWith db u (.groupMessage msg) := by
  rw [deletedWith_row (by simp) (by simp)]
  simp only [Row.needs, List.mem_cons, List.not_mem_nil, or_false, Key.groupMessage.injEq,
    Key.user.injEq, reduceCtorEq, false_or, and_false, exists_false]
  refine or_congr eq_comm ?_
  constructor
  · rintro ⟨other, inTable, gone, same⟩
    rwa [c.groupMessages.unique inTable stored (same.trans named.symm)] at gone
  · intro gone
    exact ⟨msg, stored, gone, named⟩

/-- The tables that refer to users only. -/
theorem deletedWith_of_users {row : Row} (notGroup : ∀ g, row ≠ .group g)
    (notUser : ∀ account, row ≠ .user account) (usersOnly : ∀ k ∈ row.needs, ∃ id, k = .user id) :
    DeletedWith db u row ↔ .user u ∈ row.needs := by
  rw [deletedWith_row notGroup notUser]
  refine or_iff_left ?_
  rintro (⟨g, -, -, refers⟩ | ⟨msg, -, -, refers⟩)
  · obtain ⟨id, isUser⟩ := usersOnly _ refers
    cases isUser
  · obtain ⟨id, isUser⟩ := usersOnly _ refers
    cases isUser

/-! ## The contract -/

theorem otherRows_of_deleted (c : Constraints db) (gone : AccountDeleted db u after) (row : Row)
    (notGroup : ∀ g, row ≠ .group g) :
    after.Stores row ↔ db.Stores row ∧ ¬ DeletedWith db u row := by
  cases row with
  | user row => rw [deletedWith_user]; exact gone.users row
  | group row => exact absurd rfl (notGroup row)
  | groupMember row =>
      show row ∈ after.groupMembers ↔ row ∈ db.groupMembers ∧ _
      rw [gone.groupMembers]
      refine and_congr_right fun stored => ?_
      rw [deletedWith_groupMember c stored]
      have member : db.IsMember row.groupId row.userId := stored
      constructor
      · rintro different (same | only)
        · exact different same
        · exact different ((onlyMember_iff.mp only).2 _ member)
      · exact fun kept same => kept (Or.inl same)
  | senderKeyDistribution row =>
      show row ∈ after.senderKeyDistributions ↔ row ∈ db.senderKeyDistributions ∧ _
      rw [gone.senderKeyDistributions]
      refine and_congr_right fun stored => ?_
      rw [deletedWith_skdm c stored, not_or]
  | groupMessage row =>
      show row ∈ after.groupMessages ↔ row ∈ db.groupMessages ∧ _
      rw [gone.groupMessages]
      refine and_congr_right fun stored => ?_
      rw [deletedWith_groupMessage c stored, not_or]
  | groupMessageReceipt row =>
      show row ∈ after.groupMessageReceipts ↔ row ∈ db.groupMessageReceipts ∧ _
      rw [gone.groupMessageReceipts]
      refine and_congr_right fun stored => ?_
      obtain ⟨msg, inTable, named⟩ := List.mem_map.mp (c.receipt_exists stored).1
      rw [deletedWith_receipt c inTable named, not_or, deletedWith_groupMessage c inTable, not_or]
      refine and_congr_right fun _ => ?_
      constructor
      · intro listed
        obtain ⟨other, kept, same⟩ := List.mem_map.mp listed
        obtain ⟨otherStored, stays⟩ := (gone.groupMessages other).mp kept
        rwa [c.groupMessages.unique otherStored inTable (same.trans named.symm)] at stays
      · intro stays
        exact List.mem_map.mpr ⟨msg, (gone.groupMessages msg).mpr ⟨inTable, stays⟩, named⟩
  | message row =>
      rw [deletedWith_of_users (by simp) (by simp) (by simp [Row.needs])]
      show row ∈ after.messages ↔ row ∈ db.messages ∧ _
      rw [gone.messages]
      refine and_congr_right fun _ => ?_
      simp [Row.needs, eq_comm]
  | userKeyBundle row =>
      rw [deletedWith_of_users (by simp) (by simp) (by simp [Row.needs])]
      show row ∈ after.userKeyBundles ↔ row ∈ db.userKeyBundles ∧ _
      rw [gone.userKeyBundles]
      refine and_congr_right fun _ => ?_
      simp [Row.needs, eq_comm]
  | oneTimePrekey row =>
      rw [deletedWith_of_users (by simp) (by simp) (by simp [Row.needs])]
      show row ∈ after.oneTimePrekeys ↔ row ∈ db.oneTimePrekeys ∧ _
      rw [gone.oneTimePrekeys]
      refine and_congr_right fun _ => ?_
      simp [Row.needs, eq_comm]
  | refreshTokenBlocklist row =>
      rw [deletedWith_of_users (by simp) (by simp) (by simp [Row.needs])]
      show row ∈ after.refreshTokenBlocklist ↔ row ∈ db.refreshTokenBlocklist ∧ _
      rw [gone.refreshTokenBlocklist]
      simp [Row.needs]

theorem deleteUser_contract_of_sound (sound : Sound db) (exists_ : u ∈ db.userIds) :
    ∃ after, deleteUser db u = .ok (after, true) ∧ DeleteUserContract db u after := by
  have c := sound.constraints
  have done := deleteUser_eq c exists_
  have gone := deleteUser_deleted c sound.creators exists_
  have left := deleteUser_constraints c done
  refine ⟨_, done, ?_⟩
  generalize (groupsSettled db u).deleteUsersWhere (fun row => decide (row.id = u)) = after at *
  have rowAfter : ∀ row ∈ db.groups, ¬ OnlyMember db row.id u → withoutUser db u row ∈ after.groups :=
    fun row stored stays => (gone.groups _).mpr ⟨row, stored, stays, rfl⟩
  have idAfter : ∀ row ∈ db.groups, row.id ∈ after.groupIds ↔ ¬ OnlyMember db row.id u := by
    intro row stored
    constructor
    · intro listed
      obtain ⟨updated, kept, same⟩ := List.mem_map.mp listed
      obtain ⟨old, oldStored, stays, rfl⟩ := (gone.groups updated).mp kept
      rw [withoutUser_id] at same
      rwa [c.groups.unique oldStored stored same] at stays
    · intro stays
      have kept := List.mem_map_of_mem (f := Group.id) (rowAfter row stored stays)
      rwa [withoutUser_id] at kept
  have accountGone : u ∉ after.userIds := by
    intro listed
    obtain ⟨account, kept, same⟩ := List.mem_map.mp listed
    exact ((gone.users account).mp kept).2 same
  have membersAfter : ∀ g uid, after.IsMember g uid ↔ db.IsMember g uid ∧ uid ≠ u :=
    fun g uid => gone.groupMembers ⟨g, uid⟩
  constructor
  case groupGone =>
    intro row stored
    rw [idAfter row stored, not_not, onlyMember_iff_forall]
  case otherGroups =>
    intro row stored member listed
    have stays := (idAfter row stored).mp listed
    have found : after.findGroup row.id = some (handedOver db u row) := by
      have kept := rowAfter row stored stays
      rw [withoutUser, if_pos member] at kept
      exact left.findGroup_eq_some.mpr kept
    refine ⟨membersAfter row.id, handedOver db u row, found, rfl, rfl, ?_, ?_⟩
    · intro other
      rw [handedOver, if_neg other]
      rfl
    · intro creator
      cases least : newCreator db u row.id with
      | none => exact absurd ⟨member, newCreator_none.mp least⟩ stays
      | some heir =>
          obtain ⟨heirMember, different⟩ := newCreator_some least
          rw [handedOver, if_pos creator, least]
          refine ⟨(membersAfter row.id heir).mpr ⟨heirMember, different⟩, ?_⟩
          intro uid uidMember
          obtain ⟨before, other⟩ := (membersAfter row.id uid).mp uidMember
          exact newCreator_least least uid before other
  case foreignGroups =>
    intro row stored notMember
    have kept := rowAfter row stored fun only => notMember only.1
    rwa [withoutUser, if_neg notMember] at kept
  case noNewGroup =>
    intro row kept
    obtain ⟨old, oldStored, -, rfl⟩ := (gone.groups row).mp kept
    rw [withoutUser_id]
    exact List.mem_map_of_mem oldStored
  case otherRows => exact fun row notGroup => otherRows_of_deleted c gone row notGroup
  case accountGone => exact accountGone
  case noReference =>
    intro row stored refers
    exact accountGone (left.references row stored (.user u) refers)
  case noDangling => exact left.references

/-- **`delete_user` meets its contract** in every database the service reaches. -/
theorem deleteUser_contract (ops : List Operation) (u : UserId)
    (exists_ : u ∈ (service.run ops).userIds) :
    ∃ after, deleteUser (service.run ops) u = .ok (after, true) ∧
      DeleteUserContract (service.run ops) u after :=
  deleteUser_contract_of_sound (reachable ops) exists_

/-- Two users in one group; the first, its creator, also has a group alone. -/
def pair : List Operation :=
  [.createUser "ada" "5a" [1] [2], .createUser "bob" "5b" [3] [4],
    .createGroup "both" 1 Dict.empty, .addMember 1 1 2 [7], .createGroup "alone" 1 Dict.empty,
    .storeGroupMessage 1 2 1 [9]]

theorem deleteUser_contract_pair :
    ∃ after, deleteUser (service.run pair) 1 = .ok (after, true) ∧
      DeleteUserContract (service.run pair) 1 after :=
  deleteUser_contract pair 1 (by decide)

end SecureMsg.Groups
