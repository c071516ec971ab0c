/-
# Repository.Group — `SQLGroupRepository`

Each method is a function from the committed database to the database it
commits, with its result; an exception (`Except.error`) commits nothing, since
the request's session is closed without a commit.

A SQLAlchemy `Session` keeps the `Group` objects it has loaded in an identity
map and does not refresh them: a later `SELECT`, also `FOR UPDATE`, decides
*whether* a row is there, but hands back the object with the values loaded
earlier (`Session.selectGroup`).  `removeMember` is the one method that reads
such an object, so it alone takes the session.

For every method there is a lemma `…_ok` that says what a successful call did,
as one explicit database; later modules use these and never unfold a method.
-/
import SecureMsg.Store.Statements

namespace SecureMsg.Repository

open SecureMsg.Theory SecureMsg.Store

set_option autoImplicit false

/-! ## The identity map -/

/-- What a session remembers: the `Group` objects it has loaded. -/
structure Session where
  groups : List Group := []
  deriving DecidableEq, Repr

namespace Session

/-- A session that has loaded nothing. -/
def fresh : Session := {}

def cached (session : Session) (groupId : GroupId) : Option Group :=
  session.groups.find? fun row => row.id = groupId

/-- `session.scalar(select(Group).where(Group.id == groupId))`. -/
def selectGroup (session : Session) (db : Database) (groupId : GroupId) : Option Group :=
  (db.findGroup groupId).map fun stored => (session.cached groupId).getD stored

/-- The session after `selectGroup` returned `group`. -/
def remember (session : Session) (group : Group) : Session :=
  match session.cached group.id with
  | some _ => session
  | none => ⟨group :: session.groups⟩

@[simp] theorem selectGroup_fresh (db : Database) (groupId : GroupId) :
    fresh.selectGroup db groupId = db.findGroup groupId := by
  simp [selectGroup, fresh, cached]

/-- Whether the row is found is decided by the database alone. -/
theorem selectGroup_eq_none {session : Session} {db : Database} {groupId : GroupId} :
    session.selectGroup db groupId = none ↔ db.findGroup groupId = none := by
  simp [selectGroup]

end Session

/-! ## Creating and reading groups -/

/-- `UPDATE groups SET epoch = epoch + 1`. -/
def bumpEpoch (row : Group) : Group := { row with epoch := row.epoch + 1 }

def setCreator (creatorId : UserId) (row : Group) : Group := { row with creatorId := creatorId }

@[simp] theorem bumpEpoch_id (row : Group) : (bumpEpoch row).id = row.id := rfl

@[simp] theorem bumpEpoch_creatorId (row : Group) : (bumpEpoch row).creatorId = row.creatorId := rfl

@[simp] theorem bumpEpoch_epoch (row : Group) : (bumpEpoch row).epoch = row.epoch + 1 := rfl

@[simp] theorem setCreator_id (c : UserId) (row : Group) : (setCreator c row).id = row.id := rfl

/-- The rows `_store_skdms` adds. -/
def skdmRows (groupId : GroupId) (epoch : Int) (skdmCiphertexts : Ciphertexts) :
    List SenderKeyDistribution :=
  skdmCiphertexts.entries.map fun entry => ⟨groupId, entry.1, entry.2, epoch⟩

/-- `_store_skdms`: bump the epoch and stamp one row per entry with it, without
committing. -/
def storeSkdmsUncommitted (db : Database) (groupId : GroupId) (skdmCiphertexts : Ciphertexts) :
    Except Error Database :=
  match db.findGroup groupId with
  | none => .error (.valueError ("group " ++ toString groupId ++ " does not exist"))
  | some row =>
      (db.updateGroup groupId bumpEpoch).insertSenderKeyDistributions
        (skdmRows groupId (row.epoch + 1) skdmCiphertexts)

/-- `initial_members` is empty where the source has `None` or `{}`: both are false. -/
def createGroup (db : Database) (name : String) (creatorId : UserId)
    (initialMembers : Ciphertexts) : Except Error (Database × Group) := do
  let (db, group) ← db.insertGroup name creatorId 0
  let db ← db.insertGroupMembers
    (⟨group.id, creatorId⟩ :: initialMembers.keys.map fun uid => ⟨group.id, uid⟩)
  if initialMembers.nonempty then
    let db ← storeSkdmsUncommitted db group.id initialMembers
    return (db, bumpEpoch group)
  else
    return (db, group)

def getGroup (session : Session) (db : Database) (groupId : GroupId) : Option Group :=
  session.selectGroup db groupId

def isCreator (db : Database) (groupId : GroupId) (userId : UserId) : Bool :=
  (db.findGroup groupId).map Group.creatorId == some userId

def getMembers (db : Database) (groupId : GroupId) : List UserId :=
  orderBy id (db.membersOf groupId)

def isMember (db : Database) (groupId : GroupId) (userId : UserId) : Bool :=
  decide (db.IsMember groupId userId)

def getGroupsForUser (db : Database) (userId : UserId) : List Group :=
  (orderBy (fun pair => pair.1.id)
    ((joinOn (fun group member => member.groupId == group.id) db.groups db.groupMembers).filter
      fun pair => pair.2.userId = userId)).map Prod.fst

/-! ## Membership -/

def addMember (db : Database) (groupId : GroupId) (requesterId userId : UserId)
    (skdmCiphertext : Bytes) : Except Error Database := do
  if isCreator db groupId requesterId then
    let db ← db.insertGroupMemberOrIgnore ⟨groupId, userId⟩
    storeSkdmsUncommitted db groupId (Dict.singleton userId skdmCiphertext)
  else .error (.permissionError "only the group creator can add members")

/-- The ways `remove_member` returns, by the line it logs there. -/
inductive RemoveExit where
  /-- "remove_member no-op: group not found" -/
  | groupNotFound
  /-- "remove_member no-op: user not in group" -/
  | userNotInGroup
  /-- "group deleted — last member left" -/
  | lastMemberLeft
  /-- "group deleted — creator left with no remaining members" -/
  | creatorLeftEmpty
  /-- "removed member" -/
  | removed
  deriving DecidableEq, Repr

/-- The end of `remove_member`: purge the pending SKDMs, then store the supplied
ones or, when there is none, bump the epoch. -/
def purgeAndRekey (db : Database) (groupId : GroupId) (skdmCiphertexts : Ciphertexts) :
    Except Error Database :=
  let purged := db.deleteSkdmsWhere fun row => row.groupId = groupId
  if skdmCiphertexts.nonempty then storeSkdmsUncommitted purged groupId skdmCiphertexts
  else .ok (purged.updateGroup groupId bumpEpoch)

/-- `skdm_ciphertexts` is empty where the source has `None` or `{}`. -/
def removeMember (session : Session) (db : Database) (groupId : GroupId)
    (requesterId userId : UserId) (skdmCiphertexts : Ciphertexts) :
    Except Error (Database × RemoveExit) :=
  match session.selectGroup db groupId with
  | none => .ok (db, .groupNotFound)
  | some group =>
      let isSelf := requesterId = userId
      if ¬ isSelf ∧ group.creatorId ≠ requesterId then
        .error (.permissionError "only the group creator can remove other members")
      else if ¬ db.IsMember groupId userId then .ok (db, .userNotInGroup)
      else
        let db := db.deleteGroupMember groupId userId
        if (db.membersOf groupId).length ≤ 1 then
          .ok (db.deleteGroupsWhere fun row => row.id = groupId, .lastMemberLeft)
        else if group.creatorId = userId then
          match (db.membersOf groupId).min? with
          | none => .ok (db.deleteGroupsWhere fun row => row.id = groupId, .creatorLeftEmpty)
          | some newCreator => do
              let db ← purgeAndRekey (db.updateGroup groupId (setCreator newCreator)) groupId
                skdmCiphertexts
              return (db, .removed)
        else do
          let db ← purgeAndRekey db groupId skdmCiphertexts
          return (db, .removed)

/-! ## Sender keys -/

def storeSkdms (db : Database) (groupId : GroupId) (skdmCiphertexts : Ciphertexts) :
    Except Error Database :=
  storeSkdmsUncommitted db groupId skdmCiphertexts

/-- The pending rows of one reader in one group. -/
def pendingFor (userId : UserId) (groupId : GroupId) (row : SenderKeyDistribution) : Bool :=
  row.recipientId = userId && row.groupId = groupId

def popSkdmsForUser (db : Database) (userId : UserId) (groupId : GroupId) :
    Database × List (Int × Bytes) :=
  (db.deleteSkdmsWhere (pendingFor userId groupId),
    (db.senderKeyDistributions.filter (pendingFor userId groupId)).map
      fun row => (row.epoch, row.skdmCiphertext))

/-! ## Messages -/

/-- The receipts of a new message: one per member of the group, sender excluded. -/
def receiptRows (db : Database) (groupId : GroupId) (senderId : UserId) (messageId : MessageId) :
    List GroupMessageReceipt :=
  ((db.membersOf groupId).filter fun uid => uid ≠ senderId).map fun uid => ⟨messageId, uid⟩

def storeGroupMessage (db : Database) (groupId : GroupId) (senderId : UserId) (epoch : Int)
    (ciphertext : Bytes) : Except Error (Database × GroupMessage) := do
  let (db, msg) ← db.insertGroupMessage senderId groupId epoch ciphertext
  let db ← db.insertGroupMessageReceipts (receiptRows db groupId senderId msg.id)
  return (db, msg)

def getGroupMessages (db : Database) (groupId : GroupId) (userId : UserId) : List GroupMessage :=
  (orderBy (fun pair => pair.1.id)
    ((joinOn (fun (msg : GroupMessage) receipt =>
        receipt.messageId = msg.id && receipt.userId = userId)
      db.groupMessages db.groupMessageReceipts).filter
      fun pair => pair.1.groupId = groupId)).map Prod.fst

/-- The rows `revoke_group_message` deletes. -/
def sentAs (messageId : MessageId) (senderId : UserId) (row : GroupMessage) : Bool :=
  row.id = messageId && row.senderId = senderId

def revokeGroupMessage (db : Database) (messageId : MessageId) (senderId : UserId) :
    Database × Bool :=
  if db.groupMessages.any (sentAs messageId senderId) then
    (db.deleteGroupMessagesWhere (sentAs messageId senderId), true)
  else (db, false)

/-- `DELETE FROM group_messages WHERE id = messageId AND NOT EXISTS (a receipt for it)`. -/
def deleteMessageIfRead (db : Database) (messageId : MessageId) : Database :=
  db.deleteGroupMessagesWhere fun msg =>
    msg.id = messageId && !db.groupMessageReceipts.any fun receipt => receipt.messageId = messageId

def recordGroupReceipt (db : Database) (messageId : MessageId) (userId : UserId) :
    Except Error Database :=
  if ⟨messageId, userId⟩ ∈ db.groupMessageReceipts then
    .ok (deleteMessageIfRead (db.deleteReceipt messageId userId) messageId)
  else .error (.lookupError ("group message " ++ toString messageId ++ " not found"))

/-! ## What a successful call did -/

variable {db after : Database} {groupId : GroupId} {requesterId userId : UserId}
  {skdmCiphertexts : Ciphertexts}

theorem skdmRows_eq_nil {epoch : Int} (none_ : skdmCiphertexts.nonempty = false) :
    skdmRows groupId epoch skdmCiphertexts = [] := by
  rw [skdmRows, Dict.nonempty_eq_false.mp none_]
  rfl

theorem mem_skdmRows {epoch : Int} {row : SenderKeyDistribution}
    (listed : row ∈ skdmRows groupId epoch skdmCiphertexts) :
    row.groupId = groupId ∧ row.epoch = epoch ∧ row.recipientId ∈ skdmCiphertexts.keys := by
  obtain ⟨entry, inDict, rfl⟩ := List.mem_map.mp listed
  exact ⟨rfl, rfl, List.mem_map_of_mem inDict⟩

/-- `isCreator` compares with the stored row. -/
theorem isCreator_iff : isCreator db groupId userId = true ↔
    ∃ row, db.findGroup groupId = some row ∧ row.creatorId = userId := by
  simp [isCreator]

theorem storeSkdmsUncommitted_ok
    (done : storeSkdmsUncommitted db groupId skdmCiphertexts = .ok after) :
    ∃ row, db.findGroup groupId = some row ∧ (∀ uid ∈ skdmCiphertexts.keys, uid ∈ db.userIds) ∧
      after = { db.updateGroup groupId bumpEpoch with
        senderKeyDistributions :=
          db.senderKeyDistributions ++ skdmRows groupId (row.epoch + 1) skdmCiphertexts } := by
  unfold storeSkdmsUncommitted at done
  cases found : db.findGroup groupId with
  | none =>
      rw [found] at done
      cases done
  | some row =>
      rw [found] at done
      obtain ⟨rfl, known, -⟩ := Database.insertSenderKeyDistributions_ok.mp done
      refine ⟨row, rfl, ?_, rfl⟩
      intro uid inKeys
      obtain ⟨entry, inDict, rfl⟩ := List.mem_map.mp inKeys
      exact (known _ (List.mem_map_of_mem inDict)).2

/-- What the batch needs: the group's row, the recipients, the unique key. -/
theorem storeSkdmsUncommitted_ok_iff :
    (∃ after, storeSkdmsUncommitted db groupId skdmCiphertexts = .ok after) ↔
      ∃ row, db.findGroup groupId = some row ∧ (∀ uid ∈ skdmCiphertexts.keys, uid ∈ db.userIds) ∧
        ((db.senderKeyDistributions ++ skdmRows groupId (row.epoch + 1) skdmCiphertexts).map
          fun row => (row.recipientId, row.groupId, row.epoch)).Nodup := by
  constructor
  · rintro ⟨after, done⟩
    obtain ⟨row, found, known, -⟩ := storeSkdmsUncommitted_ok done
    rw [storeSkdmsUncommitted, found] at done
    exact ⟨row, found, known, (Database.insertSenderKeyDistributions_ok.mp done).2.2⟩
  · rintro ⟨row, found, known, distinct⟩
    obtain ⟨stored, rfl⟩ := Database.findGroup_some found
    unfold storeSkdmsUncommitted
    rw [found]
    refine ⟨_, Database.insertSenderKeyDistributions_ok.mpr ⟨rfl, ?_, distinct⟩⟩
    intro added listed
    obtain ⟨sameGroup, -, inKeys⟩ := mem_skdmRows listed
    rw [Database.updateGroup_groupIds bumpEpoch_id, sameGroup]
    exact ⟨List.mem_map_of_mem stored, known _ inKeys⟩

theorem storeSkdmsUncommitted_error {row : Group} {e : Error}
    (found : db.findGroup groupId = some row)
    (failed : storeSkdmsUncommitted db groupId skdmCiphertexts = .error e) :
    ∃ violated, e = refusal skdmCiphertexts.keys violated := by
  unfold storeSkdmsUncommitted at failed
  rw [found] at failed
  obtain ⟨violated, refused⟩ := insertInto_error failed
  refine ⟨violated, refused.trans ?_⟩
  rw [skdmRows, List.flatMap_map, Dict.keys, List.map_eq_flatMap]

/-- A batch under an epoch no row of the group carries keeps the keys distinct. -/
theorem skdmKeys_nodup {table : List SenderKeyDistribution} {epoch : Int}
    (distinct : (table.map fun row => (row.recipientId, row.groupId, row.epoch)).Nodup)
    (unused : ∀ pending ∈ table, pending.groupId = groupId → pending.epoch ≠ epoch) :
    ((table ++ skdmRows groupId epoch skdmCiphertexts).map
      fun row => (row.recipientId, row.groupId, row.epoch)).Nodup := by
  rw [List.map_append]
  refine List.nodup_append.mpr ⟨distinct, ?_, ?_⟩
  · have rows := skdmCiphertexts.rows_nodup
      (fun entry => (entry.1, groupId, epoch)) Prod.fst (fun _ => rfl)
    rw [skdmRows, List.map_map]
    exact rows
  · intro old inOld new inNew same
    obtain ⟨pending, stored, rfl⟩ := List.mem_map.mp inOld
    obtain ⟨added, listed, rfl⟩ := List.mem_map.mp inNew
    obtain ⟨sameGroup, sameEpoch, -⟩ := mem_skdmRows listed
    simp only [Prod.mk.injEq] at same
    exact unused pending stored (same.2.1.trans sameGroup) (same.2.2.trans sameEpoch)

/-- The batch goes in when every recipient exists and no row of the group is
stamped with the new epoch yet. -/
theorem storeSkdmsUncommitted_succeeds (c : Constraints db) {row : Group}
    (found : db.findGroup groupId = some row)
    (known : ∀ uid ∈ skdmCiphertexts.keys, uid ∈ db.userIds)
    (unused : ∀ pending ∈ db.senderKeyDistributions, pending.groupId = groupId →
      pending.epoch ≠ row.epoch + 1) :
    storeSkdmsUncommitted db groupId skdmCiphertexts =
      .ok { db.updateGroup groupId bumpEpoch with
        senderKeyDistributions :=
          db.senderKeyDistributions ++ skdmRows groupId (row.epoch + 1) skdmCiphertexts } := by
  have groupThere : groupId ∈ db.groupIds := by
    obtain ⟨stored, rfl⟩ := Database.findGroup_some found
    exact List.mem_map_of_mem stored
  unfold storeSkdmsUncommitted
  rw [found]
  refine Database.insertSenderKeyDistributions_ok.mpr ⟨rfl, ?_, ?_⟩
  · intro added listed
    obtain ⟨sameGroup, -, inKeys⟩ := mem_skdmRows listed
    rw [Database.updateGroup_groupIds bumpEpoch_id, sameGroup]
    exact ⟨groupThere, known _ inKeys⟩
  · exact skdmKeys_nodup c.senderKeyDistributions unused

/-- A group's id is new: no stored row of any group table carries it. -/
theorem updateGroup_new (c : Constraints db) (row : Group) (isNew : row.id = db.sequences.groups)
    (f : Group → Group) :
    (db.groups ++ [row]).map (fun old => if old.id = row.id then f old else old) =
      db.groups ++ [f row] := by
  rw [List.map_append, List.map_singleton, if_pos rfl]
  congr 1
  conv_rhs => rw [← List.map_id db.groups]
  refine List.map_congr_left fun old stored => ?_
  have older := c.nextGroup old stored
  have different : old.id ≠ row.id := isNew ▸ ne_of_lt older
  rw [if_neg different, id]

theorem createGroup_ok (c : Constraints db) {name : String} {creatorId : UserId}
    {initialMembers : Ciphertexts} {row : Group}
    (done : createGroup db name creatorId initialMembers = .ok (after, row)) :
    Sendable name ∧ creatorId ∈ db.userIds ∧ (∀ uid ∈ initialMembers.keys, uid ∈ db.userIds) ∧
    row = ⟨db.sequences.groups, name, creatorId, if initialMembers.nonempty then 1 else 0⟩ ∧
    after = { db with
      groups := db.groups ++ [row]
      groupMembers := db.groupMembers ++
        (⟨row.id, creatorId⟩ :: initialMembers.keys.map fun uid => ⟨row.id, uid⟩)
      senderKeyDistributions :=
        db.senderKeyDistributions ++ skdmRows row.id 1 initialMembers
      sequences := { db.sequences with groups := db.sequences.groups + 1 } } := by
  obtain ⟨⟨opened, group⟩, inserted, rest⟩ := bind_eq_ok.mp done
  obtain ⟨sendable, creatorKnown, rfl, rfl⟩ := Database.insertGroup_ok.mp inserted
  obtain ⟨joined, membersAdded, rest⟩ := bind_eq_ok.mp rest
  obtain ⟨rfl, membersKnown, -⟩ := Database.insertGroupMembers_ok.mp membersAdded
  have known : ∀ uid ∈ initialMembers.keys, uid ∈ db.userIds := by
    intro uid inKeys
    exact (membersKnown ⟨_, uid⟩ (List.mem_cons_of_mem _ (List.mem_map_of_mem inKeys))).2
  by_cases some_ : initialMembers.nonempty
  · rw [if_pos some_] at rest
    obtain ⟨stored, skdmsStored, returned⟩ := bind_eq_ok.mp rest
    obtain ⟨found, isFound, -, rfl⟩ := storeSkdmsUncommitted_ok skdmsStored
    cases returned
    have isNew : found = ⟨db.sequences.groups, name, creatorId, 0⟩ := by
      obtain ⟨listed, sameId⟩ := Database.findGroup_some isFound
      rcases List.mem_append.mp listed with old | new
      · exact absurd sameId (ne_of_lt (c.nextGroup found old))
      · exact List.mem_singleton.mp new
    subst isNew
    refine ⟨sendable, creatorKnown, known, by simp [bumpEpoch, some_], ?_⟩
    have groupsAfter := updateGroup_new c ⟨db.sequences.groups, name, creatorId, 0⟩ rfl bumpEpoch
    simp only [Database.updateGroup, groupsAfter]
    rfl
  · have none_ : initialMembers.nonempty = false := by simpa using some_
    rw [if_neg some_] at rest
    cases rest
    refine ⟨sendable, creatorKnown, known, by simp [none_], ?_⟩
    rw [skdmRows_eq_nil none_, List.append_nil]

/-- The rows of `group_members` after one was inserted or was there already. -/
theorem mem_groupMembers_added {member : GroupMember} :
    (member ∈ if db.IsMember groupId userId then db.groupMembers
      else db.groupMembers ++ [⟨groupId, userId⟩]) ↔
      member ∈ db.groupMembers ∨ member = ⟨groupId, userId⟩ := by
  by_cases already : db.IsMember groupId userId
  · rw [if_pos already]
    refine (or_iff_left_of_imp ?_).symm
    rintro rfl
    exact already
  · rw [if_neg already, List.mem_append, List.mem_singleton]

theorem addMember_ok {skdmCiphertext : Bytes}
    (done : addMember db groupId requesterId userId skdmCiphertext = .ok after) :
    ∃ row, db.findGroup groupId = some row ∧ row.creatorId = requesterId ∧
      userId ∈ db.userIds ∧
      after = { db.updateGroup groupId bumpEpoch with
        groupMembers :=
          if db.IsMember groupId userId then db.groupMembers
          else db.groupMembers ++ [⟨groupId, userId⟩]
        senderKeyDistributions :=
          db.senderKeyDistributions ++ [⟨groupId, userId, skdmCiphertext, row.epoch + 1⟩] } := by
  unfold addMember at done
  by_cases creator : isCreator db groupId requesterId
  · rw [if_pos creator] at done
    obtain ⟨row, found, sameCreator⟩ := isCreator_iff.mp creator
    obtain ⟨joined, inserted, stored⟩ := bind_eq_ok.mp done
    obtain ⟨found', isFound, known, rfl⟩ := storeSkdmsUncommitted_ok stored
    have recipient : userId ∈ [userId] := List.mem_singleton_self _
    rcases Database.insertGroupMemberOrIgnore_ok.mp inserted with ⟨present, rfl⟩ | ⟨absent, added⟩
    · rw [found] at isFound
      cases isFound
      refine ⟨row, found, sameCreator, known userId recipient, ?_⟩
      have member : joined.IsMember groupId userId := present
      rw [if_pos member]
      rfl
    · obtain ⟨rfl, -, -⟩ := Database.insertGroupMembers_ok.mp added
      have sameRow : found' = row := by
        have unchanged : db.findGroup groupId = some found' := isFound
        rw [found] at unchanged
        exact (Option.some.inj unchanged).symm
      subst sameRow
      refine ⟨found', found, sameCreator, known userId recipient, ?_⟩
      have notMember : ¬ db.IsMember groupId userId := absent
      rw [if_neg notMember]
      rfl
  · rw [if_neg creator] at done
    cases done

/-- It fails for anyone but the creator, or at the user's own rows. -/
theorem addMember_error {skdmCiphertext : Bytes} {e : Error}
    (failed : addMember db groupId requesterId userId skdmCiphertext = .error e) :
    (isCreator db groupId requesterId = false ∧
        e = .permissionError "only the group creator can add members") ∨
      (isCreator db groupId requesterId = true ∧ ∃ violated, e = refusal [userId] violated) := by
  unfold addMember at failed
  by_cases creator : isCreator db groupId requesterId
  · rw [if_pos creator] at failed
    obtain ⟨row, found, -⟩ := isCreator_iff.mp creator
    refine Or.inr ⟨creator, ?_⟩
    rcases bind_eq_error.mp failed with insert | ⟨joined, inserted, stored⟩
    · unfold Database.insertGroupMemberOrIgnore at insert
      by_cases present : (⟨groupId, userId⟩ : GroupMember) ∈ db.groupMembers
      · rw [if_pos present] at insert
        cases insert
      · rw [if_neg present] at insert
        exact insertInto_error insert
    · have foundAfter : joined.findGroup groupId = some row := by
        rcases Database.insertGroupMemberOrIgnore_ok.mp inserted with ⟨-, rfl⟩ | ⟨-, added⟩
        · exact found
        · obtain ⟨rfl, -, -⟩ := Database.insertGroupMembers_ok.mp added
          exact found
      exact storeSkdmsUncommitted_error foundAfter stored
  · rw [if_neg creator] at failed
    cases failed
    exact Or.inl ⟨by simpa using creator, rfl⟩

/-- The members a group keeps when `userId` goes. -/
def remaining (db : Database) (groupId : GroupId) (userId : UserId) : List UserId :=
  (db.membersOf groupId).filter fun uid => uid ≠ userId

@[simp] theorem mem_remaining {uid : UserId} :
    uid ∈ remaining db groupId userId ↔ db.IsMember groupId uid ∧ uid ≠ userId := by
  simp [remaining]

theorem membersOf_deleteGroupMember :
    (db.deleteGroupMember groupId userId).membersOf groupId = remaining db groupId userId := by
  simp only [Database.membersOf, Database.deleteGroupMember, remaining, List.filter_map,
    List.filter_filter]
  congr 1
  refine List.filter_congr fun row _ => ?_
  obtain ⟨g, u⟩ := row
  by_cases sameGroup : g = groupId
  · simp [sameGroup]
  · simp [sameGroup]

/-- The group row `remove_member` leaves: one epoch on, the creator replaced when
`transfer` names one. -/
def departed (transfer : Option UserId) (row : Group) : Group :=
  { row with
    creatorId := transfer.getD row.creatorId
    epoch := row.epoch + 1 }

@[simp] theorem departed_id (transfer : Option UserId) (row : Group) :
    (departed transfer row).id = row.id := rfl

@[simp] theorem departed_epoch (transfer : Option UserId) (row : Group) :
    (departed transfer row).epoch = row.epoch + 1 := rfl

/-- `updated` is `db` without the member, with the group row rewritten, and with
the supplied keys as the group's only pending ones. -/
def departure (db : Database) (groupId : GroupId) (userId : UserId) (transfer : Option UserId)
    (epoch : Int) (skdmCiphertexts : Ciphertexts) : Database :=
  { db.deleteGroupMember groupId userId with
    groups := (db.updateGroup groupId (departed transfer)).groups
    senderKeyDistributions :=
      db.senderKeyDistributions.filter (fun row => !decide (row.groupId = groupId)) ++
        skdmRows groupId (epoch + 1) skdmCiphertexts }

theorem findGroup_updateGroup {f : Group → Group} (keeps : ∀ row, (f row).id = row.id) :
    (db.updateGroup groupId f).findGroup groupId = (db.findGroup groupId).map f := by
  unfold Database.findGroup Database.updateGroup
  induction db.groups with
  | nil => rfl
  | cons row rest ih =>
      by_cases hit : row.id = groupId
      · simp [hit, keeps]
      · simpa [hit] using ih

theorem updateGroup_updateGroup {f h : Group → Group} (keeps : ∀ row, (f row).id = row.id) :
    (db.updateGroup groupId f).updateGroup groupId h = db.updateGroup groupId (h ∘ f) := by
  unfold Database.updateGroup
  rw [Database.mk.injEq]
  refine ⟨rfl, ?_, rfl, rfl, rfl, rfl, rfl, rfl, rfl, rfl, rfl⟩
  rw [List.map_map]
  refine List.map_congr_left fun row _ => ?_
  by_cases hit : row.id = groupId
  · simp [hit, keeps]
  · simp [hit]

theorem purgeAndRekey_ok {row : Group} (found : db.findGroup groupId = some row)
    (done : purgeAndRekey db groupId skdmCiphertexts = .ok after) :
    (∀ uid ∈ skdmCiphertexts.keys, uid ∈ db.userIds) ∧
      after = { db.updateGroup groupId bumpEpoch with
        senderKeyDistributions :=
          db.senderKeyDistributions.filter (fun row => !decide (row.groupId = groupId)) ++
            skdmRows groupId (row.epoch + 1) skdmCiphertexts } := by
  unfold purgeAndRekey at done
  by_cases some_ : skdmCiphertexts.nonempty
  · simp only [some_, if_true] at done
    obtain ⟨found', isFound, known, rfl⟩ := storeSkdmsUncommitted_ok done
    have sameRow : db.findGroup groupId = some found' := isFound
    rw [found] at sameRow
    cases sameRow
    exact ⟨known, rfl⟩
  · have none_ : skdmCiphertexts.nonempty = false := by simpa using some_
    simp only [none_] at done
    cases done
    refine ⟨?_, ?_⟩
    · intro uid inKeys
      rw [Dict.keys, Dict.nonempty_eq_false.mp none_] at inKeys
      cases inKeys
    · rw [skdmRows_eq_nil none_, List.append_nil]
      rfl

/-- Re-keying cannot fail on known users: the purge left no row of the group. -/
theorem purgeAndRekey_succeeds (c : Constraints db) {row : Group}
    (found : db.findGroup groupId = some row)
    (known : ∀ uid ∈ skdmCiphertexts.keys, uid ∈ db.userIds) :
    ∃ after, purgeAndRekey db groupId skdmCiphertexts = .ok after := by
  unfold purgeAndRekey
  by_cases some_ : skdmCiphertexts.nonempty
  · rw [if_pos some_]
    have stored := storeSkdmsUncommitted_succeeds
      (c.deleteSkdmsWhere fun pending => pending.groupId = groupId) found known (by
        intro pending inTable sameGroup
        have kept := (List.mem_filter.mp inTable).2
        simp [sameGroup] at kept)
    exact ⟨_, stored⟩
  · exact ⟨_, if_neg some_⟩

theorem purgeAndRekey_error {row : Group} {e : Error} (found : db.findGroup groupId = some row)
    (failed : purgeAndRekey db groupId skdmCiphertexts = .error e) :
    ∃ violated, e = refusal skdmCiphertexts.keys violated := by
  unfold purgeAndRekey at failed
  by_cases some_ : skdmCiphertexts.nonempty
  · rw [if_pos some_] at failed
    have purged : (db.deleteSkdmsWhere fun pending => pending.groupId = groupId).findGroup groupId =
        some row := found
    exact storeSkdmsUncommitted_error purged failed
  · rw [if_neg some_] at failed
    cases failed

/-- How `remove_member` ended, with what it found and what it left. -/
inductive RemoveMember (session : Session) (db : Database) (groupId : GroupId)
    (requesterId userId : UserId) (skdmCiphertexts : Ciphertexts) :
    Database → RemoveExit → Prop where
  | groupNotFound (absent : db.findGroup groupId = none) :
      RemoveMember session db groupId requesterId userId skdmCiphertexts db .groupNotFound
  | userNotInGroup (group : Group) (selected : session.selectGroup db groupId = some group)
      (authorised : requesterId = userId ∨ group.creatorId = requesterId)
      (absent : ¬ db.IsMember groupId userId) :
      RemoveMember session db groupId requesterId userId skdmCiphertexts db .userNotInGroup
  | lastMemberLeft (group : Group) (selected : session.selectGroup db groupId = some group)
      (authorised : requesterId = userId ∨ group.creatorId = requesterId)
      (member : db.IsMember groupId userId)
      (few : (remaining db groupId userId).length ≤ 1) :
      RemoveMember session db groupId requesterId userId skdmCiphertexts
        ((db.deleteGroupMember groupId userId).deleteGroupsWhere fun row => row.id = groupId)
        .lastMemberLeft
  | removed (group stored : Group) (selected : session.selectGroup db groupId = some group)
      (found : db.findGroup groupId = some stored)
      (authorised : requesterId = userId ∨ group.creatorId = requesterId)
      (member : db.IsMember groupId userId)
      (many : 1 < (remaining db groupId userId).length)
      (known : ∀ uid ∈ skdmCiphertexts.keys, uid ∈ db.userIds)
      (transfer : Option UserId)
      (transferred : transfer =
        if group.creatorId = userId then (remaining db groupId userId).min? else none) :
      RemoveMember session db groupId requesterId userId skdmCiphertexts
        (departure db groupId userId transfer stored.epoch skdmCiphertexts) .removed

theorem selectGroup_some {session : Session} {group : Group}
    (selected : session.selectGroup db groupId = some group) :
    ∃ stored, db.findGroup groupId = some stored ∧
      group = (session.cached groupId).getD stored := by
  obtain ⟨stored, found, rfl⟩ := Option.map_eq_some_iff.mp selected
  exact ⟨stored, found, rfl⟩

theorem departure_of_transfer {row : Group} (newCreator : UserId)
    (found : db.findGroup groupId = some row)
    (done : purgeAndRekey ((db.deleteGroupMember groupId userId).updateGroup groupId
      (setCreator newCreator)) groupId skdmCiphertexts = .ok after) :
    (∀ uid ∈ skdmCiphertexts.keys, uid ∈ db.userIds) ∧
      after = departure db groupId userId (some newCreator) row.epoch skdmCiphertexts := by
  have foundAfter : ((db.deleteGroupMember groupId userId).updateGroup groupId
      (setCreator newCreator)).findGroup groupId = some (setCreator newCreator row) := by
    rw [findGroup_updateGroup (setCreator_id newCreator)]
    exact congrArg (Option.map (setCreator newCreator)) found
  obtain ⟨known, rfl⟩ := purgeAndRekey_ok foundAfter done
  refine ⟨known, ?_⟩
  rw [updateGroup_updateGroup (setCreator_id newCreator)]
  rfl

theorem departure_of_stay {row : Group} (found : db.findGroup groupId = some row)
    (done : purgeAndRekey (db.deleteGroupMember groupId userId) groupId skdmCiphertexts =
      .ok after) :
    (∀ uid ∈ skdmCiphertexts.keys, uid ∈ db.userIds) ∧
      after = departure db groupId userId none row.epoch skdmCiphertexts := by
  have foundAfter : (db.deleteGroupMember groupId userId).findGroup groupId = some row := found
  obtain ⟨known, rfl⟩ := purgeAndRekey_ok foundAfter done
  exact ⟨known, rfl⟩

/-- Every successful `remove_member` ended in one of the four ways; the branch
"creator left with no remaining members" is not among them. -/
theorem removeMember_ok {session : Session} {exit : RemoveExit}
    (done : removeMember session db groupId requesterId userId skdmCiphertexts =
      .ok (after, exit)) :
    RemoveMember session db groupId requesterId userId skdmCiphertexts after exit := by
  unfold removeMember at done
  cases selected : session.selectGroup db groupId with
  | none =>
      rw [selected] at done
      cases done
      exact .groupNotFound (Session.selectGroup_eq_none.mp selected)
  | some group =>
      rw [selected] at done
      obtain ⟨stored, found, -⟩ := selectGroup_some selected
      dsimp only at done
      by_cases refused : ¬ requesterId = userId ∧ group.creatorId ≠ requesterId
      · rw [if_pos refused] at done
        cases done
      · rw [if_neg refused] at done
        have authorised : requesterId = userId ∨ group.creatorId = requesterId := by
          by_cases self : requesterId = userId
          · exact Or.inl self
          · exact Or.inr (not_not.mp fun other => refused ⟨self, other⟩)
        by_cases member : db.IsMember groupId userId
        · rw [if_neg (not_not.mpr member), membersOf_deleteGroupMember] at done
          by_cases few : (remaining db groupId userId).length ≤ 1
          · rw [if_pos few] at done
            cases done
            exact .lastMemberLeft group selected authorised member few
          · rw [if_neg few] at done
            have many : 1 < (remaining db groupId userId).length := by omega
            by_cases leaving : group.creatorId = userId
            · rw [if_pos leaving] at done
              cases least : (remaining db groupId userId).min? with
              | none =>
                  rw [List.min?_eq_none_iff] at least
                  rw [least] at many
                  cases many
              | some newCreator =>
                  rw [least] at done
                  obtain ⟨left, rekeyed, returned⟩ := bind_eq_ok.mp done
                  cases returned
                  obtain ⟨known, rfl⟩ := departure_of_transfer newCreator found rekeyed
                  exact .removed group stored selected found authorised member many known _
                    (by rw [if_pos leaving, least])
            · rw [if_neg leaving] at done
              obtain ⟨left, rekeyed, returned⟩ := bind_eq_ok.mp done
              cases returned
              obtain ⟨known, rfl⟩ := departure_of_stay found rekeyed
              exact .removed group stored selected found authorised member many known _
                (by rw [if_neg leaving])
        · rw [if_pos member] at done
          cases done
          exact .userNotInGroup group selected authorised member

/-- A permitted removal that leaves two members goes through when every supplied
recipient exists. -/
theorem removeMember_succeeds (c : Constraints db) {session : Session} {group : Group}
    (selected : session.selectGroup db groupId = some group)
    (authorised : requesterId = userId ∨ group.creatorId = requesterId)
    (member : db.IsMember groupId userId) (many : 1 < (remaining db groupId userId).length)
    (known : ∀ uid ∈ skdmCiphertexts.keys, uid ∈ db.userIds) :
    ∃ after, removeMember session db groupId requesterId userId skdmCiphertexts =
      .ok (after, .removed) := by
  obtain ⟨stored, found, -⟩ := selectGroup_some selected
  have allowed : ¬ (¬ requesterId = userId ∧ group.creatorId ≠ requesterId) := by
    rintro ⟨other, notCreator⟩
    rcases authorised with self | creator
    · exact other self
    · exact notCreator creator
  have enough : ¬ (remaining db groupId userId).length ≤ 1 := by omega
  unfold removeMember
  rw [selected]
  dsimp only
  rw [if_neg allowed, if_neg (not_not.mpr member), membersOf_deleteGroupMember, if_neg enough]
  by_cases leaving : group.creatorId = userId
  · rw [if_pos leaving]
    cases least : (remaining db groupId userId).min? with
    | none =>
        rw [List.min?_eq_none_iff] at least
        rw [least] at many
        cases many
    | some newCreator =>
        have creatorKnown : newCreator ∈ db.userIds :=
          (c.member_exists (mem_remaining.mp (List.min?_mem least)).1).2
        have handed : Constraints ((db.deleteGroupMember groupId userId).updateGroup groupId
            (setCreator newCreator)) :=
          (c.deleteGroupMember groupId userId).updateGroup (setCreator_id newCreator)
            fun _ _ _ => creatorKnown
        have foundAfter : ((db.deleteGroupMember groupId userId).updateGroup groupId
            (setCreator newCreator)).findGroup groupId = some (setCreator newCreator stored) := by
          rw [findGroup_updateGroup (setCreator_id newCreator)]
          exact congrArg (Option.map (setCreator newCreator)) found
        obtain ⟨after, rekeyed⟩ := purgeAndRekey_succeeds handed foundAfter known
        refine ⟨after, ?_⟩
        simp only [rekeyed]
        rfl
  · rw [if_neg leaving]
    have foundAfter : (db.deleteGroupMember groupId userId).findGroup groupId = some stored := found
    obtain ⟨after, rekeyed⟩ :=
      purgeAndRekey_succeeds (c.deleteGroupMember groupId userId) foundAfter known
    refine ⟨after, ?_⟩
    rw [rekeyed]
    rfl

/-- It fails when the requester may not remove others, or at the supplied keys. -/
theorem removeMember_error {session : Session} {e : Error}
    (failed : removeMember session db groupId requesterId userId skdmCiphertexts = .error e) :
    ∃ group, session.selectGroup db groupId = some group ∧
      ((requesterId ≠ userId ∧ group.creatorId ≠ requesterId ∧
          e = .permissionError "only the group creator can remove other members") ∨
        ((requesterId = userId ∨ group.creatorId = requesterId) ∧ db.IsMember groupId userId ∧
          1 < (remaining db groupId userId).length ∧
          ∃ violated, e = refusal skdmCiphertexts.keys violated)) := by
  unfold removeMember at failed
  cases selected : session.selectGroup db groupId with
  | none =>
      rw [selected] at failed
      cases failed
  | some group =>
      refine ⟨group, rfl, ?_⟩
      rw [selected] at failed
      obtain ⟨stored, found, -⟩ := selectGroup_some selected
      dsimp only at failed
      by_cases refused : ¬ requesterId = userId ∧ group.creatorId ≠ requesterId
      · rw [if_pos refused] at failed
        cases failed
        exact Or.inl ⟨refused.1, refused.2, rfl⟩
      · rw [if_neg refused] at failed
        have authorised : requesterId = userId ∨ group.creatorId = requesterId := by
          by_cases self : requesterId = userId
          · exact Or.inl self
          · exact Or.inr (not_not.mp fun other => refused ⟨self, other⟩)
        by_cases member : db.IsMember groupId userId
        · rw [if_neg (not_not.mpr member), membersOf_deleteGroupMember] at failed
          by_cases few : (remaining db groupId userId).length ≤ 1
          · rw [if_pos few] at failed
            cases failed
          · rw [if_neg few] at failed
            refine Or.inr ⟨authorised, member, by omega, ?_⟩
            by_cases leaving : group.creatorId = userId
            · rw [if_pos leaving] at failed
              cases least : (remaining db groupId userId).min? with
              | none =>
                  rw [least] at failed
                  cases failed
              | some newCreator =>
                  rw [least] at failed
                  have foundAfter : ((db.deleteGroupMember groupId userId).updateGroup groupId
                      (setCreator newCreator)).findGroup groupId =
                        some (setCreator newCreator stored) := by
                    rw [findGroup_updateGroup (setCreator_id newCreator)]
                    exact congrArg (Option.map (setCreator newCreator)) found
                  rcases bind_eq_error.mp failed with rekey | ⟨left, -, returned⟩
                  · exact purgeAndRekey_error foundAfter rekey
                  · cases returned
            · rw [if_neg leaving] at failed
              have foundAfter : (db.deleteGroupMember groupId userId).findGroup groupId =
                  some stored := found
              rcases bind_eq_error.mp failed with rekey | ⟨left, -, returned⟩
              · exact purgeAndRekey_error foundAfter rekey
              · cases returned
        · rw [if_pos member] at failed
          cases failed

/-! ## Constraints -/

theorem storeSkdmsUncommitted_constraints (c : Constraints db)
    (done : storeSkdmsUncommitted db groupId skdmCiphertexts = .ok after) : Constraints after := by
  unfold storeSkdmsUncommitted at done
  cases found : db.findGroup groupId with
  | none =>
      rw [found] at done
      cases done
  | some row =>
      rw [found] at done
      have bumped : Constraints (db.updateGroup groupId bumpEpoch) :=
        c.updateGroup bumpEpoch_id
          fun old stored _ => (c.creator_exists stored : old.creatorId ∈ db.userIds)
      exact bumped.insertSenderKeyDistributions done

theorem createGroup_constraints (c : Constraints db) {name : String} {creatorId : UserId}
    {initialMembers : Ciphertexts} {row : Group}
    (done : createGroup db name creatorId initialMembers = .ok (after, row)) :
    Constraints after := by
  obtain ⟨⟨opened, group⟩, inserted, rest⟩ := bind_eq_ok.mp done
  obtain ⟨joined, membersAdded, rest⟩ := bind_eq_ok.mp rest
  have joinedConstraints := (c.insertGroup inserted).insertGroupMembers membersAdded
  by_cases some_ : initialMembers.nonempty
  · rw [if_pos some_] at rest
    obtain ⟨stored, skdmsStored, returned⟩ := bind_eq_ok.mp rest
    cases returned
    exact storeSkdmsUncommitted_constraints joinedConstraints skdmsStored
  · rw [if_neg some_] at rest
    cases rest
    exact joinedConstraints

theorem addMember_constraints (c : Constraints db) {skdmCiphertext : Bytes}
    (done : addMember db groupId requesterId userId skdmCiphertext = .ok after) :
    Constraints after := by
  unfold addMember at done
  by_cases creator : isCreator db groupId requesterId
  · rw [if_pos creator] at done
    obtain ⟨joined, inserted, stored⟩ := bind_eq_ok.mp done
    exact storeSkdmsUncommitted_constraints (c.insertGroupMemberOrIgnore inserted) stored
  · rw [if_neg creator] at done
    cases done

theorem purgeAndRekey_constraints (c : Constraints db)
    (done : purgeAndRekey db groupId skdmCiphertexts = .ok after) : Constraints after := by
  have purged := c.deleteSkdmsWhere fun row => row.groupId = groupId
  unfold purgeAndRekey at done
  by_cases some_ : skdmCiphertexts.nonempty
  · rw [if_pos some_] at done
    exact storeSkdmsUncommitted_constraints purged done
  · rw [if_neg some_] at done
    cases done
    exact purged.updateGroup bumpEpoch_id
      fun old stored _ => (c.creator_exists stored : old.creatorId ∈ db.userIds)

theorem departure_constraints (c : Constraints db) {row : Group} {transfer : Option UserId}
    (found : db.findGroup groupId = some row)
    (known : ∀ uid ∈ skdmCiphertexts.keys, uid ∈ db.userIds)
    (creatorKnown : ∀ uid, transfer = some uid → uid ∈ db.userIds) :
    Constraints (departure db groupId userId transfer row.epoch skdmCiphertexts) := by
  have left := c.deleteGroupMember groupId userId
  cases transfer with
  | none =>
      have foundAfter : (db.deleteGroupMember groupId userId).findGroup groupId = some row := found
      obtain ⟨after, rekeyed⟩ := purgeAndRekey_succeeds left foundAfter known
      obtain ⟨-, rfl⟩ := departure_of_stay found rekeyed
      exact purgeAndRekey_constraints left rekeyed
  | some uid =>
      have handed : Constraints ((db.deleteGroupMember groupId userId).updateGroup groupId
          (setCreator uid)) :=
        left.updateGroup (setCreator_id uid) fun _ _ _ => creatorKnown uid rfl
      have foundAfter : ((db.deleteGroupMember groupId userId).updateGroup groupId
          (setCreator uid)).findGroup groupId = some (setCreator uid row) := by
        rw [findGroup_updateGroup (setCreator_id uid)]
        exact congrArg (Option.map (setCreator uid)) found
      obtain ⟨after, rekeyed⟩ := purgeAndRekey_succeeds handed foundAfter known
      obtain ⟨-, rfl⟩ := departure_of_transfer uid found rekeyed
      exact purgeAndRekey_constraints handed rekeyed

theorem removeMember_constraints (c : Constraints db) {session : Session} {exit : RemoveExit}
    (done : removeMember session db groupId requesterId userId skdmCiphertexts =
      .ok (after, exit)) : Constraints after := by
  cases removeMember_ok done with
  | groupNotFound => exact c
  | userNotInGroup => exact c
  | lastMemberLeft => exact (c.deleteGroupMember groupId userId).deleteGroupsWhere _
  | removed group stored selected found authorised member many known transfer transferred =>
      refine departure_constraints c found known ?_
      intro uid isTransfer
      rw [isTransfer] at transferred
      by_cases leaving : group.creatorId = userId
      · rw [if_pos leaving] at transferred
        exact (c.member_exists (mem_remaining.mp (List.min?_mem transferred.symm)).1).2
      · rw [if_neg leaving] at transferred
        cases transferred

theorem mem_receiptRows {senderId uid : UserId} {messageId id : MessageId} :
    ⟨id, uid⟩ ∈ receiptRows db groupId senderId messageId ↔
      id = messageId ∧ db.IsMember groupId uid ∧ uid ≠ senderId := by
  constructor
  · intro listed
    obtain ⟨reader, inList, same⟩ := List.mem_map.mp listed
    cases same
    obtain ⟨member, other⟩ := List.mem_filter.mp inList
    exact ⟨rfl, Database.mem_membersOf.mp member, of_decide_eq_true other⟩
  · rintro ⟨rfl, member, other⟩
    exact List.mem_map.mpr ⟨uid,
      List.mem_filter.mpr ⟨Database.mem_membersOf.mpr member, decide_eq_true other⟩, rfl⟩

theorem storeGroupMessage_ok {senderId : UserId} {epoch : Int} {ciphertext : Bytes}
    {row : GroupMessage}
    (done : storeGroupMessage db groupId senderId epoch ciphertext = .ok (after, row)) :
    senderId ∈ db.userIds ∧ groupId ∈ db.groupIds ∧ FitsInteger epoch ∧
    row = ⟨db.sequences.groupMessages, senderId, groupId, epoch, ciphertext⟩ ∧
    after = { db with
      groupMessages := db.groupMessages ++ [row]
      groupMessageReceipts := db.groupMessageReceipts ++ receiptRows db groupId senderId row.id
      sequences := { db.sequences with groupMessages := db.sequences.groupMessages + 1 } } := by
  obtain ⟨⟨stored, msg⟩, inserted, rest⟩ := bind_eq_ok.mp done
  obtain ⟨⟨known, fits⟩, rfl, rfl⟩ := Database.insertGroupMessage_ok.mp inserted
  obtain ⟨delivered, receipts, returned⟩ := bind_eq_ok.mp rest
  obtain ⟨rfl, -, -⟩ := Database.insertGroupMessageReceipts_ok.mp receipts
  cases returned
  exact ⟨known.1, known.2, fits, rfl, rfl⟩

/-- A message goes in when its sender and its group exist and its epoch fits the column. -/
theorem storeGroupMessage_succeeds (c : Constraints db) {senderId : UserId}
    (senderKnown : senderId ∈ db.userIds) (groupKnown : groupId ∈ db.groupIds) {epoch : Int}
    (fits : FitsInteger epoch) (ciphertext : Bytes) :
    ∃ result, storeGroupMessage db groupId senderId epoch ciphertext = .ok result := by
  let row : GroupMessage := ⟨db.sequences.groupMessages, senderId, groupId, epoch, ciphertext⟩
  let stored : Database := { db with
    groupMessages := db.groupMessages ++ [row]
    sequences := { db.sequences with groupMessages := db.sequences.groupMessages + 1 } }
  have inserted : db.insertGroupMessage senderId groupId epoch ciphertext = .ok (stored, row) :=
    Database.insertGroupMessage_ok.mpr ⟨⟨⟨senderKnown, groupKnown⟩, fits⟩, rfl, rfl⟩
  have receipts : stored.insertGroupMessageReceipts (receiptRows stored groupId senderId row.id) =
      .ok { stored with
        groupMessageReceipts :=
          stored.groupMessageReceipts ++ receiptRows stored groupId senderId row.id } := by
    refine Database.insertGroupMessageReceipts_ok.mpr ⟨rfl, ?_, ?_⟩
    · rintro ⟨id, uid⟩ listed
      obtain ⟨rfl, member, -⟩ := mem_receiptRows.mp listed
      exact ⟨by simp [stored, row, Database.groupMessageIds], (c.member_exists member).2⟩
    · refine List.nodup_append.mpr ⟨c.groupMessageReceipts, ?_, ?_⟩
      · have once := (Database.membersOf_nodup c.groupMembers groupId).filter fun uid => uid ≠ senderId
        exact once.map fun uid other same => (GroupMessageReceipt.mk.injEq .. ▸ same).2
      · rintro ⟨id, uid⟩ old ⟨id', uid'⟩ listed same
        obtain ⟨rfl, -, -⟩ := mem_receiptRows.mp listed
        cases same
        -- the id of the message has just been drawn
        exact absurd (c.groupMessageId_lt (c.receipt_exists old).1) (lt_irrefl _)
  exact ⟨(_, row), bind_eq_ok.mpr ⟨_, inserted, bind_eq_ok.mpr ⟨_, receipts, rfl⟩⟩⟩

theorem storeGroupMessage_constraints (c : Constraints db) {senderId : UserId} {epoch : Int}
    {ciphertext : Bytes} {row : GroupMessage}
    (done : storeGroupMessage db groupId senderId epoch ciphertext = .ok (after, row)) :
    Constraints after := by
  obtain ⟨⟨stored, msg⟩, inserted, rest⟩ := bind_eq_ok.mp done
  obtain ⟨delivered, receipts, returned⟩ := bind_eq_ok.mp rest
  cases returned
  exact (c.insertGroupMessage inserted).insertGroupMessageReceipts receipts

/-- Whether or not it finds the message, the call is the `DELETE`. -/
theorem revokeGroupMessage_fst (messageId : MessageId) :
    (revokeGroupMessage db messageId userId).1 =
      db.deleteGroupMessagesWhere (sentAs messageId userId) := by
  unfold revokeGroupMessage
  by_cases sent : db.groupMessages.any (sentAs messageId userId)
  · rw [if_pos sent]
  · rw [if_neg sent]
    have none_ : ∀ row ∈ db.groupMessages, sentAs messageId userId row = false := by
      simpa using sent
    have kept : db.groupMessages.filter (fun row => !sentAs messageId userId row) =
        db.groupMessages :=
      List.filter_eq_self.mpr fun row stored => by rw [none_ row stored]; rfl
    have noMessage : ∀ id, db.groupMessageGone (sentAs messageId userId) id = false := by
      intro id
      rw [← Bool.not_eq_true, Database.groupMessageGone_iff]
      rintro ⟨row, stored, chosen, -⟩
      rw [none_ row stored] at chosen
      cases chosen
    simp [Database.deleteGroupMessagesWhere, kept, noMessage]

theorem recordGroupReceipt_ok {messageId : MessageId}
    (done : recordGroupReceipt db messageId userId = .ok after) :
    ⟨messageId, userId⟩ ∈ db.groupMessageReceipts ∧
      after = deleteMessageIfRead (db.deleteReceipt messageId userId) messageId := by
  unfold recordGroupReceipt at done
  by_cases waiting : (⟨messageId, userId⟩ : GroupMessageReceipt) ∈ db.groupMessageReceipts
  · rw [if_pos waiting] at done
    cases done
    exact ⟨waiting, rfl⟩
  · rw [if_neg waiting] at done
    cases done

theorem recordGroupReceipt_constraints (c : Constraints db) {messageId : MessageId}
    (done : recordGroupReceipt db messageId userId = .ok after) : Constraints after := by
  obtain ⟨-, rfl⟩ := recordGroupReceipt_ok done
  exact (c.deleteReceipt messageId userId).deleteGroupMessagesWhere _

end SecureMsg.Repository
