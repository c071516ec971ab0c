/-
# Repository.User — `SQLUserRepository`

`deleteUser` is the method with the work in it: the groups the user is in are
split by their member count, sole-member groups are deleted, the others get a
new epoch and, where the user was the creator, the least remaining member as
creator; only then is the user row deleted, with its cascade.

`deleteUser_ok` says table by table what is left (`AccountDeleted`).  It needs
`CreatorsAreMembers`: the groups reassigned are found through `group_members`,
the cascade goes through `creator_id`.
-/
import SecureMsg.Repository.Group

namespace SecureMsg.Repository

open SecureMsg.Theory SecureMsg.Store

set_option autoImplicit false

def createUser (db : Database) (username srpSalt : String) (srpVerifierEnc totpSecretEnc : Bytes) :
    Except Error (Database × UserId) := do
  let (db, row) ← db.insertUser username srpSalt srpVerifierEnc totpSecretEnc
  return (db, row.id)

/-- Its callers pass usernames the schema accepted, so there is no NUL in them. -/
def getUserByUsername (db : Database) (username : String) : Option User :=
  db.users.find? fun row => row.username = username

def getUserById (db : Database) (userId : UserId) : Option User :=
  db.users.find? fun row => row.id = userId

def blockRefreshToken (db : Database) (jtiHash : Bytes) (expiresAt : Int) :
    Except Error Database :=
  db.insertRefreshTokenBlocklist ⟨jtiHash, expiresAt⟩

def isRefreshTokenBlocked (db : Database) (jtiHash : Bytes) : Bool :=
  db.refreshTokenBlocklist.any fun row => row.jtiHash = jtiHash

/-- The least member other than the user, if there is one. -/
def newCreator (db : Database) (userId : UserId) (groupId : GroupId) : Option UserId :=
  (remaining db groupId userId).min?

/-- The bulk `UPDATE groups` of `delete_user`: `creator_id` is `NOT NULL`, so a
group with no other member makes the statement fail. -/
def reassignGroups (db : Database) (userId : UserId) (groupIds : List GroupId) :
    Except Error Database :=
  if db.groups.any fun row =>
      row.id ∈ groupIds && row.creatorId = userId && (newCreator db userId row.id).isNone then
    .error (.integrityError .notNull)
  else .ok { db with
    groups := db.groups.map fun row =>
      if row.id ∈ groupIds then
        departed (if row.creatorId = userId then newCreator db userId row.id else none) row
      else row }

/-- The groups the user is a member of, in id order. -/
def groupsOf (db : Database) (userId : UserId) : List Group :=
  orderBy Group.id (db.groups.filter fun row => db.IsMember row.id userId)

/-- `rows` of `delete_user`: those groups with their member counts. -/
def memberCounts (db : Database) (userId : UserId) : List (GroupId × Nat) :=
  (groupsOf db userId).map fun row => (row.id, (db.membersOf row.id).length)

def soleMemberIds (db : Database) (userId : UserId) : List GroupId :=
  ((memberCounts db userId).filter fun r => r.2 ≤ 1).map Prod.fst

def multiMemberIds (db : Database) (userId : UserId) : List GroupId :=
  ((memberCounts db userId).filter fun r => 1 < r.2).map Prod.fst

def deleteUser (db : Database) (userId : UserId) : Except Error (Database × Bool) :=
  if userId ∉ db.userIds then .ok (db, false)
  else do
    let sole := soleMemberIds db userId
    let multi := multiMemberIds db userId
    let db := if sole = [] then db else db.deleteGroupsWhere fun row => row.id ∈ sole
    let db ← (if multi = [] then .ok db else reassignGroups db userId multi)
    return (db.deleteUsersWhere fun row => row.id = userId, true)

/-! ## Looking accounts up -/

theorem getUserById_some {db : Database} {userId : UserId} {user : User}
    (found : getUserById db userId = some user) : user.id = userId ∧ userId ∈ db.userIds := by
  have same : user.id = userId := by simpa using List.find?_some found
  exact ⟨same, same ▸ List.mem_map_of_mem (List.mem_of_find?_eq_some found)⟩

theorem getUserById_known {db : Database} {userId : UserId} (known : userId ∈ db.userIds) :
    ∃ user, getUserById db userId = some user ∧ user.id = userId := by
  obtain ⟨row, inTable, same⟩ := List.mem_map.mp known
  have present : (getUserById db userId).isSome = true :=
    List.find?_isSome.mpr ⟨row, inTable, by simpa using same⟩
  obtain ⟨user, found⟩ := Option.isSome_iff_exists.mp present
  exact ⟨user, found, (getUserById_some found).1⟩

theorem getUserByUsername_some {db : Database} {username : String} {user : User}
    (found : getUserByUsername db username = some user) :
    user ∈ db.users ∧ user.username = username :=
  ⟨List.mem_of_find?_eq_some found, by simpa using List.find?_some found⟩

theorem getUserByUsername_known {db : Database} {username : String}
    (known : username ∈ db.users.map User.username) :
    ∃ user, getUserByUsername db username = some user := by
  obtain ⟨row, inTable, named⟩ := List.mem_map.mp known
  refine Option.isSome_iff_exists.mp (List.find?_isSome.mpr ⟨row, inTable, ?_⟩)
  simp [named]

/-! ## Creators and sole members -/

/-- A group's creator is one of its members. -/
def CreatorsAreMembers (db : Database) : Prop :=
  ∀ row ∈ db.groups, db.IsMember row.id row.creatorId

variable {db after : Database} {userId : UserId} {groupId : GroupId}

/-- `userId` is the one member of the group. -/
def OnlyMember (db : Database) (groupId : GroupId) (userId : UserId) : Prop :=
  db.IsMember groupId userId ∧ remaining db groupId userId = []

instance : Decidable (OnlyMember db groupId userId) :=
  inferInstanceAs (Decidable (_ ∧ _))

theorem onlyMember_iff :
    OnlyMember db groupId userId ↔
      db.IsMember groupId userId ∧ ∀ uid, db.IsMember groupId uid → uid = userId := by
  unfold OnlyMember
  refine and_congr_right fun _ => ?_
  rw [List.eq_nil_iff_forall_not_mem]
  refine forall_congr' fun uid => ?_
  rw [mem_remaining, not_and, not_not]

/-- The users row makes a member count: one more than the others. -/
theorem length_membersOf (c : Constraints db) (member : db.IsMember groupId userId) :
    (db.membersOf groupId).length = (remaining db groupId userId).length + 1 := by
  have listed : userId ∈ db.membersOf groupId := Database.mem_membersOf.mpr member
  have once := Database.membersOf_nodup c.groupMembers groupId
  have others : remaining db groupId userId = (db.membersOf groupId).erase userId := by
    rw [once.erase_eq_filter]
    refine List.filter_congr fun uid _ => ?_
    rw [bne]
    by_cases same : uid = userId
    · simp [same]
    · simp [same]
  rw [others, List.length_erase_add_one listed]

theorem few_members_iff (c : Constraints db) (member : db.IsMember groupId userId) :
    (db.membersOf groupId).length ≤ 1 ↔ OnlyMember db groupId userId := by
  rw [length_membersOf c member, OnlyMember, ← List.length_eq_zero_iff]
  have holds := member
  constructor
  · intro few
    exact ⟨holds, by omega⟩
  · intro only
    have none_ := only.2
    omega

theorem newCreator_some {uid : UserId} (least : newCreator db userId groupId = some uid) :
    db.IsMember groupId uid ∧ uid ≠ userId :=
  mem_remaining.mp (List.min?_mem least)

theorem newCreator_least {uid : UserId} (least : newCreator db userId groupId = some uid) :
    ∀ other, db.IsMember groupId other → other ≠ userId → uid ≤ other := by
  intro other member different
  exact (List.le_min?_iff least).mp (le_refl uid) other (mem_remaining.mpr ⟨member, different⟩)

theorem newCreator_none : newCreator db userId groupId = none ↔
    remaining db groupId userId = [] := by
  rw [newCreator, List.min?_eq_none_iff]

/-- The choice depends on who the members are only. -/
theorem newCreator_congr {other : Database}
    (same : ∀ uid, uid ≠ userId → (other.IsMember groupId uid ↔ db.IsMember groupId uid)) :
    newCreator other userId groupId = newCreator db userId groupId := by
  have listed : ∀ uid, uid ∈ remaining other groupId userId ↔ uid ∈ remaining db groupId userId := by
    intro uid
    rw [mem_remaining, mem_remaining, and_congr_left_iff]
    exact same uid
  refine Option.ext fun uid => ?_
  unfold newCreator
  simp only [List.min?_eq_some_iff, listed]

/-! ## What `delete_user` leaves -/

/-- The row of a group the user was in, after the bulk update. -/
def handedOver (db : Database) (userId : UserId) (row : Group) : Group :=
  departed (if row.creatorId = userId then newCreator db userId row.id else none) row

/-- What a group row becomes when the user's account goes. -/
def withoutUser (db : Database) (userId : UserId) (row : Group) : Group :=
  if db.IsMember row.id userId then handedOver db userId row else row

@[simp] theorem withoutUser_id (row : Group) : (withoutUser db userId row).id = row.id := by
  unfold withoutUser
  by_cases member : db.IsMember row.id userId
  · rw [if_pos member]
    rfl
  · rw [if_neg member]

/-- `db` without the account: every table, row by row. -/
structure AccountDeleted (db : Database) (userId : UserId) (after : Database) : Prop where
  users : ∀ row, row ∈ after.users ↔ row ∈ db.users ∧ row.id ≠ userId
  groups : ∀ row, row ∈ after.groups ↔
    ∃ old ∈ db.groups, ¬ OnlyMember db old.id userId ∧ row = withoutUser db userId old
  groupMembers : ∀ row, row ∈ after.groupMembers ↔ row ∈ db.groupMembers ∧ row.userId ≠ userId
  senderKeyDistributions : ∀ row, row ∈ after.senderKeyDistributions ↔
    row ∈ db.senderKeyDistributions ∧ row.recipientId ≠ userId ∧
      ¬ OnlyMember db row.groupId userId
  groupMessages : ∀ row, row ∈ after.groupMessages ↔
    row ∈ db.groupMessages ∧ row.senderId ≠ userId ∧ ¬ OnlyMember db row.groupId userId
  groupMessageReceipts : ∀ row, row ∈ after.groupMessageReceipts ↔
    row ∈ db.groupMessageReceipts ∧ row.userId ≠ userId ∧ row.messageId ∈ after.groupMessageIds
  messages : ∀ row, row ∈ after.messages ↔
    row ∈ db.messages ∧ row.senderId ≠ userId ∧ row.recipientId ≠ userId
  userKeyBundles : ∀ row, row ∈ after.userKeyBundles ↔
    row ∈ db.userKeyBundles ∧ row.userId ≠ userId
  oneTimePrekeys : ∀ row, row ∈ after.oneTimePrekeys ↔
    row ∈ db.oneTimePrekeys ∧ row.userId ≠ userId
  refreshTokenBlocklist : after.refreshTokenBlocklist = db.refreshTokenBlocklist
  sequences : after.sequences = db.sequences

/-- The database after the first two statements: sole-member groups gone, the
user's other groups handed over. -/
def groupsSettled (db : Database) (userId : UserId) : Database :=
  { db.deleteGroupsWhere (fun row => decide (OnlyMember db row.id userId)) with
    groups := (db.groups.filter fun row => !decide (OnlyMember db row.id userId)).map
      (withoutUser db userId) }

theorem deleteGroupsWhere_congr {p q : Group → Bool} (same : ∀ row ∈ db.groups, p row = q row) :
    db.deleteGroupsWhere p = db.deleteGroupsWhere q := by
  have gone : db.groupGone p = db.groupGone q := by
    funext id
    rw [Bool.eq_iff_iff, Database.groupGone_iff, Database.groupGone_iff]
    refine exists_congr fun row => and_congr_right fun stored => ?_
    rw [same row stored]
  have kept : db.groups.filter (fun row => !p row) = db.groups.filter fun row => !q row := by
    refine List.filter_congr fun row stored => ?_
    rw [same row stored]
  unfold Database.deleteGroupsWhere
  rw [gone, kept]

/-- Deleting no group deletes nothing. -/
theorem deleteGroupsWhere_none {p : Group → Bool} (none_ : ∀ row ∈ db.groups, p row = false) :
    db.deleteGroupsWhere p = db := by
  have noGroup : ∀ id, db.groupGone p id = false := by
    intro id
    rw [← Bool.not_eq_true, Database.groupGone_iff]
    rintro ⟨row, stored, chosen, -⟩
    rw [none_ row stored] at chosen
    cases chosen
  have noMessage : ∀ id, db.groupMessageGone (fun _ => false) id = false := by
    simp [Database.groupMessageGone]
  have groupsKept : db.groups.filter (fun row => !p row) = db.groups :=
    List.filter_eq_self.mpr fun row stored => by rw [none_ row stored]; rfl
  simp [Database.deleteGroupsWhere, Database.deleteGroupMessagesWhere, noGroup, noMessage, groupsKept]

theorem mem_groupsOf {row : Group} :
    row ∈ groupsOf db userId ↔ row ∈ db.groups ∧ db.IsMember row.id userId := by
  simp [groupsOf]

/-- The ids `delete_user` picks by member count. -/
theorem mem_picked (p : Nat → Bool) :
    groupId ∈ ((memberCounts db userId).filter fun r => p r.2).map Prod.fst ↔
      groupId ∈ db.groupIds ∧ db.IsMember groupId userId ∧
        p (db.membersOf groupId).length = true := by
  simp only [memberCounts, List.mem_map, List.mem_filter, mem_groupsOf, Database.groupIds]
  constructor
  · rintro ⟨_, ⟨⟨row, ⟨stored, member⟩, rfl⟩, chosen⟩, rfl⟩
    exact ⟨⟨row, stored, rfl⟩, member, chosen⟩
  · rintro ⟨⟨row, stored, rfl⟩, member, chosen⟩
    exact ⟨_, ⟨⟨row, ⟨stored, member⟩, rfl⟩, chosen⟩, rfl⟩

theorem mem_soleMemberIds (c : Constraints db) :
    groupId ∈ soleMemberIds db userId ↔ groupId ∈ db.groupIds ∧ OnlyMember db groupId userId := by
  rw [soleMemberIds, mem_picked fun n => decide (n ≤ 1)]
  refine and_congr_right fun _ => ?_
  by_cases member : db.IsMember groupId userId
  · rw [decide_eq_true_eq, few_members_iff c member]
    exact and_iff_right member
  · exact iff_of_false (fun h => member h.1) (fun only => member only.1)

theorem mem_multiMemberIds (c : Constraints db) :
    groupId ∈ multiMemberIds db userId ↔
      groupId ∈ db.groupIds ∧ db.IsMember groupId userId ∧ ¬ OnlyMember db groupId userId := by
  rw [multiMemberIds, mem_picked fun n => decide (1 < n)]
  refine and_congr_right fun _ => and_congr_right fun member => ?_
  rw [decide_eq_true_eq, ← few_members_iff c member, not_le]

/-- Deleting the sole-member groups, whether or not there is one. -/
theorem soleGroups_deleted {ids : List GroupId}
    (picked : ∀ g, g ∈ ids ↔ g ∈ db.groupIds ∧ OnlyMember db g userId) :
    (if ids = [] then db else db.deleteGroupsWhere fun row => decide (row.id ∈ ids)) =
      db.deleteGroupsWhere fun row => decide (OnlyMember db row.id userId) := by
  have same : ∀ row ∈ db.groups,
      decide (row.id ∈ ids) = decide (OnlyMember db row.id userId) := by
    intro row stored
    have listed : row.id ∈ db.groupIds := List.mem_map_of_mem stored
    rw [decide_eq_decide, picked row.id]
    exact and_iff_right listed
  by_cases none_ : ids = []
  · rw [if_pos none_, deleteGroupsWhere_none]
    intro row stored
    rw [← same row stored, none_]
    rfl
  · rw [if_neg none_]
    exact deleteGroupsWhere_congr same

theorem membersOf_deleteGroupsWhere {p : Group → Bool} (kept : db.groupGone p groupId = false) :
    (db.deleteGroupsWhere p).membersOf groupId = db.membersOf groupId := by
  unfold Database.membersOf Database.deleteGroupsWhere
  rw [List.filter_filter]
  refine congrArg _ (List.filter_congr fun row _ => ?_)
  by_cases same : row.groupId = groupId
  · simp [same, kept]
  · simp [same]

/-- A group that stays is not the group of a deleted row. -/
theorem groupGone_onlyMember (stays : ¬ OnlyMember db groupId userId) :
    db.groupGone (fun row => decide (OnlyMember db row.id userId)) groupId = false := by
  rw [← Bool.not_eq_true, Database.groupGone_iff]
  rintro ⟨row, -, only, rfl⟩
  exact stays (of_decide_eq_true only)

/-- Reassigning the groups with other members never meets the `NOT NULL`. -/
theorem groups_handedOver {ids : List GroupId}
    (picked : ∀ g, g ∈ ids ↔ g ∈ db.groupIds ∧ db.IsMember g userId ∧ ¬ OnlyMember db g userId) :
    (if ids = [] then .ok (db.deleteGroupsWhere fun row => decide (OnlyMember db row.id userId))
      else reassignGroups
        (db.deleteGroupsWhere fun row => decide (OnlyMember db row.id userId)) userId ids) =
      .ok (groupsSettled db userId) := by
  have newCreator_same : ∀ g, ¬ OnlyMember db g userId →
      newCreator (db.deleteGroupsWhere fun row => decide (OnlyMember db row.id userId)) userId g =
        newCreator db userId g := by
    intro g stays
    unfold newCreator remaining
    rw [membersOf_deleteGroupsWhere (groupGone_onlyMember stays)]
  have rewritten : ∀ row ∈ db.groups.filter (fun row => !decide (OnlyMember db row.id userId)),
      (row.id ∈ ids ↔ db.IsMember row.id userId) ∧ ¬ OnlyMember db row.id userId := by
    intro row kept
    obtain ⟨stored, stays⟩ := List.mem_filter.mp kept
    have notOnly : ¬ OnlyMember db row.id userId := by simpa using stays
    have listed : row.id ∈ db.groupIds := List.mem_map_of_mem stored
    rw [picked row.id]
    exact ⟨⟨fun h => h.2.1, fun member => ⟨listed, member, notOnly⟩⟩, notOnly⟩
  by_cases none_ : ids = []
  · rw [if_pos none_]
    have same : (db.groups.filter fun row => !decide (OnlyMember db row.id userId)).map
        (withoutUser db userId) =
          db.groups.filter fun row => !decide (OnlyMember db row.id userId) := by
      conv_rhs => rw [← List.map_id (db.groups.filter _)]
      refine List.map_congr_left fun row kept => ?_
      have notMember : ¬ db.IsMember row.id userId := by
        rw [← (rewritten row kept).1, none_]
        exact List.not_mem_nil
      rw [withoutUser, if_neg notMember, id]
    rw [groupsSettled, same]
    rfl
  · rw [if_neg none_, reassignGroups, if_neg]
    · unfold groupsSettled
      congr 2
      refine List.map_congr_left fun row kept => ?_
      obtain ⟨isMember, stays⟩ := rewritten row kept
      by_cases member : db.IsMember row.id userId
      · rw [if_pos (isMember.mpr member), withoutUser, if_pos member, handedOver,
          newCreator_same row.id stays]
      · rw [if_neg (fun listed => member (isMember.mp listed)), withoutUser, if_neg member]
    · rw [List.any_eq_true]
      rintro ⟨row, kept, failing⟩
      simp only [Bool.and_eq_true, decide_eq_true_eq, Option.isNone_iff_eq_none] at failing
      obtain ⟨isMember, stays⟩ := rewritten row kept
      obtain ⟨⟨listed, -⟩, noOther⟩ := failing
      rw [newCreator_same row.id stays, newCreator_none] at noOther
      exact stays ⟨isMember.mp listed, noOther⟩

theorem deleteUser_eq (c : Constraints db) (exists_ : userId ∈ db.userIds) :
    deleteUser db userId =
      .ok ((groupsSettled db userId).deleteUsersWhere fun row => row.id = userId, true) := by
  unfold deleteUser
  rw [if_neg (not_not.mpr exists_)]
  dsimp only
  rw [soleGroups_deleted fun g => mem_soleMemberIds c, groups_handedOver fun g => mem_multiMemberIds c]
  rfl

theorem deleteUser_cases (c : Constraints db) {deleted : Bool}
    (done : deleteUser db userId = .ok (after, deleted)) :
    (userId ∉ db.userIds ∧ after = db ∧ deleted = false) ∨
      (userId ∈ db.userIds ∧
        after = ((groupsSettled db userId).deleteUsersWhere fun row => row.id = userId) ∧
        deleted = true) := by
  by_cases exists_ : userId ∈ db.userIds
  · rw [deleteUser_eq c exists_] at done
    cases done
    exact Or.inr ⟨exists_, rfl, rfl⟩
  · rw [deleteUser, if_pos exists_] at done
    cases done
    exact Or.inl ⟨exists_, rfl, rfl⟩

/-- A group that stays has the user as creator only if they are not in it. -/
theorem withoutUser_isCreator {row : Group} (stays : ¬ OnlyMember db row.id userId) :
    (withoutUser db userId row).creatorId = userId ↔
      row.creatorId = userId ∧ ¬ db.IsMember row.id userId := by
  unfold withoutUser
  by_cases member : db.IsMember row.id userId
  · rw [if_pos member]
    refine iff_of_false ?_ fun outside => outside.2 member
    by_cases creator : row.creatorId = userId
    · cases least : newCreator db userId row.id with
      | none => exact absurd ⟨member, newCreator_none.mp least⟩ stays
      | some uid =>
          have different := (newCreator_some least).2
          simpa [handedOver, departed, creator, least] using different
    · simp [handedOver, departed, creator]
  · rw [if_neg member]
    exact ⟨fun creator => ⟨creator, member⟩, And.left⟩

theorem mem_groupsSettled {row : Group} :
    row ∈ (groupsSettled db userId).groups ↔
      ∃ old ∈ db.groups, ¬ OnlyMember db old.id userId ∧ withoutUser db userId old = row := by
  simp [groupsSettled, and_assoc]

/-- After the hand-over no group has the user as creator, so the cascade finds none. -/
theorem groupsSettled_creator (creators : CreatorsAreMembers db) {row : Group}
    (stored : row ∈ (groupsSettled db userId).groups) : row.creatorId ≠ userId := by
  obtain ⟨old, inTable, stays, rfl⟩ := mem_groupsSettled.mp stored
  intro isCreator
  obtain ⟨creator, outside⟩ := (withoutUser_isCreator stays).mp isCreator
  exact outside (creator ▸ creators old inTable)

theorem withoutUser_creator (c : Constraints db) {row : Group} (stored : row ∈ db.groups) :
    (withoutUser db userId row).creatorId ∈ db.userIds := by
  have kept := c.creator_exists stored
  unfold withoutUser
  by_cases member : db.IsMember row.id userId
  · rw [if_pos member]
    by_cases creator : row.creatorId = userId
    · cases least : newCreator db userId row.id with
      | none => simpa [handedOver, departed, creator, least] using creator ▸ kept
      | some uid =>
          have known := (c.member_exists (newCreator_some least).1).2
          simpa [handedOver, departed, creator, least] using known
    · simpa [handedOver, departed, creator] using kept
  · rw [if_neg member]
    exact kept

theorem groupsSettled_constraints (c : Constraints db) : Constraints (groupsSettled db userId) := by
  have deleted := c.deleteGroupsWhere fun row => decide (OnlyMember db row.id userId)
  refine deleted.mapGroups withoutUser_id ?_
  intro row kept
  exact withoutUser_creator c (List.mem_filter.mp kept).1

section Deleted

theorem groupsSettled_userGone (exists_ : userId ∈ db.userIds) (id : UserId) :
    (groupsSettled db userId).userGone (fun row => decide (row.id = userId)) id =
      decide (id = userId) := by
  rw [Bool.eq_iff_iff, Database.userGone_iff, decide_eq_true_eq]
  obtain ⟨row, stored, same⟩ := List.mem_map.mp exists_
  constructor
  · rintro ⟨other, -, chosen, rfl⟩
    exact of_decide_eq_true chosen
  · rintro rfl
    exact ⟨row, stored, decide_eq_true same, same⟩

/-- No group of the settled database goes with the user. -/
theorem groupsSettled_groupGone (userId : UserId) (creators : CreatorsAreMembers db)
    (id : GroupId) :
    (groupsSettled db userId).groupGone (fun row => decide (row.creatorId = userId)) id =
      false := by
  rw [← Bool.not_eq_true, Database.groupGone_iff]
  rintro ⟨row, stored, chosen, -⟩
  exact groupsSettled_creator creators stored (of_decide_eq_true chosen)

theorem soleGroup_stays (c : Constraints db) {g : GroupId} (known : g ∈ db.groupIds) :
    db.groupGone (fun row => decide (OnlyMember db row.id userId)) g = false ↔
      ¬ OnlyMember db g userId := by
  obtain ⟨row, stored, rfl⟩ := List.mem_map.mp known
  rw [c.groupGone_eq stored, decide_eq_false_iff_not]

theorem groupsSettled_groups (creators : CreatorsAreMembers db) (exists_ : userId ∈ db.userIds)
    (row : Group) :
    row ∈ ((groupsSettled db userId).deleteUsersWhere fun r => r.id = userId).groups ↔
      ∃ old ∈ db.groups, ¬ OnlyMember db old.id userId ∧ row = withoutUser db userId old := by
  have listed : row ∈ ((groupsSettled db userId).deleteUsersWhere fun r => r.id = userId).groups ↔
      row ∈ (groupsSettled db userId).groups := by
    simp only [Database.deleteUsersWhere, groupsSettled_userGone exists_, List.mem_filter,
      Bool.not_eq_true', decide_eq_false_iff_not]
    exact and_iff_left_of_imp (groupsSettled_creator creators)
  rw [listed, groupsSettled, List.mem_map]
  refine exists_congr fun old => ?_
  rw [List.mem_filter, Bool.not_eq_true', decide_eq_false_iff_not, and_assoc]
  exact and_congr_right fun _ => and_congr_right fun _ => eq_comm

variable (c : Constraints db) (creators : CreatorsAreMembers db) (exists_ : userId ∈ db.userIds)

include c creators exists_

theorem groupsSettled_members (row : GroupMember) :
    row ∈ ((groupsSettled db userId).deleteUsersWhere fun r => r.id = userId).groupMembers ↔
      row ∈ db.groupMembers ∧ row.userId ≠ userId := by
  have gone := groupsSettled_userGone exists_
  have noGroup := groupsSettled_groupGone userId creators
  have listed : row ∈ ((groupsSettled db userId).deleteUsersWhere
      fun r => r.id = userId).groupMembers ↔
        row ∈ (groupsSettled db userId).groupMembers ∧ row.userId ≠ userId := by
    simp [Database.deleteUsersWhere, gone, noGroup]
  have kept : row ∈ (groupsSettled db userId).groupMembers ↔ row ∈ db.groupMembers ∧
      db.groupGone (fun r => decide (OnlyMember db r.id userId)) row.groupId = false := by
    simp [groupsSettled, Database.deleteGroupsWhere]
  rw [listed, kept, and_right_comm]
  refine and_iff_left_of_imp ?_
  rintro ⟨stored, other⟩
  have member : db.IsMember row.groupId row.userId := stored
  rw [soleGroup_stays c (c.member_exists member).1, onlyMember_iff]
  exact fun only => other (only.2 _ member)

/-- The receipts go in two rounds: with a dissolved group's messages, then with the
messages the user sent. -/
theorem groupsSettled_receipts (row : GroupMessageReceipt) :
    row ∈ ((groupsSettled db userId).deleteUsersWhere
        fun r => r.id = userId).groupMessageReceipts ↔
      row ∈ db.groupMessageReceipts ∧ row.userId ≠ userId ∧
        row.messageId ∈ ((groupsSettled db userId).deleteUsersWhere
          fun r => r.id = userId).groupMessageIds := by
  have settled : Constraints (groupsSettled db userId) := groupsSettled_constraints c
  have gone := groupsSettled_userGone exists_
  have noGroup := groupsSettled_groupGone userId creators
  have listed : row ∈ ((groupsSettled db userId).deleteUsersWhere
      fun r => r.id = userId).groupMessageReceipts ↔
        row ∈ (groupsSettled db userId).groupMessageReceipts ∧
          (groupsSettled db userId).groupMessageGone
            (fun m => decide (m.senderId = userId)) row.messageId = false ∧
          row.userId ≠ userId := by
    simp [Database.deleteUsersWhere, gone, noGroup]
  have kept : row ∈ (groupsSettled db userId).groupMessageReceipts ↔
      row ∈ db.groupMessageReceipts ∧
        db.groupMessageGone (fun m => db.groupGone
          (fun r => decide (OnlyMember db r.id userId)) m.groupId) row.messageId = false := by
    simp [groupsSettled, Database.deleteGroupsWhere, Database.deleteGroupMessagesWhere]
  have messagesLeft : ((groupsSettled db userId).deleteUsersWhere
      fun r => r.id = userId).groupMessageIds =
        ((groupsSettled db userId).groupMessages.filter
          fun m => !decide (m.senderId = userId)).map GroupMessage.id := by
    simp [Database.groupMessageIds, Database.deleteUsersWhere, gone, noGroup]
  rw [messagesLeft, listed, kept]
  constructor
  · rintro ⟨⟨stored, first⟩, second, owner⟩
    have known := (c.mem_groupMessageIds_filter (c.receipt_exists stored).1).mpr first
    exact ⟨stored, owner, (settled.mem_groupMessageIds_filter known).mpr second⟩
  · rintro ⟨stored, owner, left⟩
    have known : row.messageId ∈ (groupsSettled db userId).groupMessageIds := by
      obtain ⟨m, kept', same⟩ := List.mem_map.mp left
      exact List.mem_map.mpr ⟨m, List.mem_of_mem_filter kept', same⟩
    exact ⟨⟨stored, (c.mem_groupMessageIds_filter (c.receipt_exists stored).1).mp known⟩,
      (settled.mem_groupMessageIds_filter known).mp left, owner⟩

theorem deleteUser_deleted : AccountDeleted db userId
    ((groupsSettled db userId).deleteUsersWhere fun row => row.id = userId) := by
  have gone := groupsSettled_userGone exists_
  have noGroup := groupsSettled_groupGone userId creators
  refine
    { users := ?_, groups := groupsSettled_groups creators exists_,
      groupMembers := groupsSettled_members c creators exists_, senderKeyDistributions := ?_,
      groupMessages := ?_, groupMessageReceipts := groupsSettled_receipts c creators exists_,
      messages := ?_, userKeyBundles := ?_, oneTimePrekeys := ?_, refreshTokenBlocklist := rfl,
      sequences := rfl }
  · intro row
    simp [Database.deleteUsersWhere, groupsSettled, Database.deleteGroupsWhere,
      Database.deleteGroupMessagesWhere]
  · intro row
    have listed : row ∈ ((groupsSettled db userId).deleteUsersWhere
        fun r => r.id = userId).senderKeyDistributions ↔
          row ∈ (groupsSettled db userId).senderKeyDistributions ∧ row.recipientId ≠ userId := by
      simp [Database.deleteUsersWhere, gone, noGroup]
    have kept : row ∈ (groupsSettled db userId).senderKeyDistributions ↔
        row ∈ db.senderKeyDistributions ∧
          db.groupGone (fun r => decide (OnlyMember db r.id userId)) row.groupId = false := by
      simp [groupsSettled, Database.deleteGroupsWhere]
    rw [listed, kept, and_assoc]
    refine and_congr_right fun stored => ?_
    rw [soleGroup_stays c (c.skdm_exists stored).1, and_comm]
  · intro row
    have listed : row ∈ ((groupsSettled db userId).deleteUsersWhere
        fun r => r.id = userId).groupMessages ↔
          row ∈ (groupsSettled db userId).groupMessages ∧ row.senderId ≠ userId := by
      simp [Database.deleteUsersWhere, gone, noGroup]
    have kept : row ∈ (groupsSettled db userId).groupMessages ↔ row ∈ db.groupMessages ∧
        db.groupGone (fun r => decide (OnlyMember db r.id userId)) row.groupId = false := by
      simp [groupsSettled, Database.deleteGroupsWhere, Database.deleteGroupMessagesWhere]
    rw [listed, kept, and_assoc]
    refine and_congr_right fun stored => ?_
    rw [soleGroup_stays c (c.groupMessage_exists stored).2, and_comm]
  -- the other tables are the ones `groupsSettled` did not touch
  · intro row
    have listed : row ∈ ((groupsSettled db userId).deleteUsersWhere
        fun r => r.id = userId).messages ↔ row ∈ (groupsSettled db userId).messages ∧
          row.senderId ≠ userId ∧ row.recipientId ≠ userId := by
      simp [Database.deleteUsersWhere, gone]
    exact listed
  · intro row
    have listed : row ∈ ((groupsSettled db userId).deleteUsersWhere
        fun r => r.id = userId).userKeyBundles ↔
          row ∈ (groupsSettled db userId).userKeyBundles ∧ row.userId ≠ userId := by
      simp [Database.deleteUsersWhere, gone]
    exact listed
  · intro row
    have listed : row ∈ ((groupsSettled db userId).deleteUsersWhere
        fun r => r.id = userId).oneTimePrekeys ↔
          row ∈ (groupsSettled db userId).oneTimePrekeys ∧ row.userId ≠ userId := by
      simp [Database.deleteUsersWhere, gone]
    exact listed

end Deleted

/-- **What `delete_user` did**: nothing for an unknown id, otherwise `AccountDeleted`. -/
theorem deleteUser_ok (c : Constraints db) (creators : CreatorsAreMembers db) {deleted : Bool}
    (done : deleteUser db userId = .ok (after, deleted)) :
    (userId ∉ db.userIds ∧ after = db ∧ deleted = false) ∨
      (userId ∈ db.userIds ∧ deleted = true ∧ AccountDeleted db userId after) := by
  rcases deleteUser_cases c done with ⟨absent, rfl, rfl⟩ | ⟨exists_, rfl, rfl⟩
  · exact Or.inl ⟨absent, rfl, rfl⟩
  · exact Or.inr ⟨exists_, rfl, deleteUser_deleted c creators exists_⟩

theorem deleteUser_constraints (c : Constraints db) {deleted : Bool}
    (done : deleteUser db userId = .ok (after, deleted)) : Constraints after := by
  rcases deleteUser_cases c done with ⟨-, rfl, -⟩ | ⟨-, rfl, -⟩
  · exact c
  · exact (groupsSettled_constraints c).deleteUsersWhere _

end SecureMsg.Repository
