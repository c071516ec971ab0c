/-
# Repository.Operation — runs of committed operations

An `Operation` is one call of a repository method in a session of its own.
`perform` is what the call does; `commit` is the database afterwards, which is
the one before when the call raised.  The result of a call is not part of the
state, so the query methods do not appear.

`rolledBack` stands for a transaction that did not commit: all it leaves behind
are the sequence values it drew, so serial ids may have gaps.

`reachable` — after every run the constraints hold, every creator is a member
and every pending sender key is stamped with an epoch its group has reached
(`Sound`).
-/
import SecureMsg.Theory.Run
import SecureMsg.Repository.Ownership
import SecureMsg.Repository.Message
import SecureMsg.Repository.KeyBundle

namespace SecureMsg.Repository

open SecureMsg.Theory SecureMsg.Store

set_option autoImplicit false

/-- Values drawn from each sequence. -/
structure Draws where
  users : Nat := 0
  groups : Nat := 0
  groupMessages : Nat := 0
  messages : Nat := 0
  oneTimePrekeys : Nat := 0
  deriving DecidableEq, Repr

def advance (sequences : Sequences) (drawn : Draws) : Sequences where
  users := sequences.users + drawn.users
  groups := sequences.groups + drawn.groups
  groupMessages := sequences.groupMessages + drawn.groupMessages
  messages := sequences.messages + drawn.messages
  oneTimePrekeys := sequences.oneTimePrekeys + drawn.oneTimePrekeys

theorem within_refl (sequences : Sequences) : sequences.Within sequences :=
  ⟨le_refl _, le_refl _, le_refl _, le_refl _, le_refl _⟩

theorem within_advance (sequences : Sequences) (drawn : Draws) :
    sequences.Within (advance sequences drawn) := by
  constructor
  all_goals
    simp only [advance]
    omega

inductive Operation where
  | createUser (username srpSalt : String) (srpVerifierEnc totpSecretEnc : Bytes)
  | deleteUser (userId : UserId)
  | blockRefreshToken (jtiHash : Bytes) (expiresAt : Int)
  | createGroup (name : String) (creatorId : UserId) (initialMembers : Ciphertexts)
  | addMember (groupId : GroupId) (requesterId userId : UserId) (skdmCiphertext : Bytes)
  | removeMember (groupId : GroupId) (requesterId userId : UserId) (skdmCiphertexts : Ciphertexts)
  | storeSkdms (groupId : GroupId) (skdmCiphertexts : Ciphertexts)
  | popSkdmsForUser (userId : UserId) (groupId : GroupId)
  | storeGroupMessage (groupId : GroupId) (senderId : UserId) (epoch : Int) (ciphertext : Bytes)
  | revokeGroupMessage (messageId : MessageId) (senderId : UserId)
  | recordGroupReceipt (messageId : MessageId) (userId : UserId)
  | storeMessage (senderId recipientId : UserId) (ciphertext ratchetHeaderEnc : Bytes)
  | deleteMessage (messageId : MessageId) (owner : OwnerField) (userId : UserId)
  | storeKeyBundle (bundle : UserKeyBundle)
  | addOneTimePrekeys (userId : UserId) (prekeys : List Bytes)
  | popOneTimePrekey (userId : UserId)
  | rolledBack (drawn : Draws)
  deriving DecidableEq

def perform (db : Database) : Operation → Except Error Database
  | .createUser username srpSalt srpVerifierEnc totpSecretEnc => do
      let (db, _) ← createUser db username srpSalt srpVerifierEnc totpSecretEnc
      return db
  | .deleteUser userId => do
      let (db, _) ← deleteUser db userId
      return db
  | .blockRefreshToken jtiHash expiresAt => blockRefreshToken db jtiHash expiresAt
  | .createGroup name creatorId initialMembers => do
      let (db, _) ← createGroup db name creatorId initialMembers
      return db
  | .addMember groupId requesterId userId skdmCiphertext =>
      addMember db groupId requesterId userId skdmCiphertext
  | .removeMember groupId requesterId userId skdmCiphertexts => do
      let (db, _) ← removeMember .fresh db groupId requesterId userId skdmCiphertexts
      return db
  | .storeSkdms groupId skdmCiphertexts => storeSkdms db groupId skdmCiphertexts
  | .popSkdmsForUser userId groupId => .ok (popSkdmsForUser db userId groupId).1
  | .storeGroupMessage groupId senderId epoch ciphertext => do
      let (db, _) ← storeGroupMessage db groupId senderId epoch ciphertext
      return db
  | .revokeGroupMessage messageId senderId => .ok (revokeGroupMessage db messageId senderId).1
  | .recordGroupReceipt messageId userId => recordGroupReceipt db messageId userId
  | .storeMessage senderId recipientId ciphertext ratchetHeaderEnc => do
      let (db, _) ← storeMessage db senderId recipientId ciphertext ratchetHeaderEnc
      return db
  | .deleteMessage messageId owner userId => .ok (deleteMessage db messageId owner userId).1
  | .storeKeyBundle bundle => storeKeyBundle db bundle
  | .addOneTimePrekeys userId prekeys => addOneTimePrekeys db userId prekeys
  | .popOneTimePrekey userId => .ok (popOneTimePrekey db userId).1
  | .rolledBack drawn => .ok { db with sequences := advance db.sequences drawn }

/-- The database after the call; an exception leaves the one before. -/
def commit (db : Database) (op : Operation) : Database :=
  match perform db op with
  | .ok after => after
  | .error _ => db

/-- The service from an empty database. -/
def service : System Database Operation := ⟨{}, commit⟩

variable {db after : Database}

theorem commit_ok {op : Operation} (done : perform db op = .ok after) : commit db op = after := by
  rw [commit, done]

theorem commit_error {op : Operation} {e : Error} (failed : perform db op = .error e) :
    commit db op = db := by
  rw [commit, failed]

/-- The rule for state properties: only successful calls need an argument. -/
theorem commit_keeps {P : Database → Prop} {op : Operation} (now : P db)
    (kept : ∀ after, perform db op = .ok after → P after) : P (commit db op) := by
  cases done : perform db op with
  | ok after =>
      rw [commit_ok done]
      exact kept after done
  | error e =>
      rw [commit_error done]
      exact now

/-- A call whose result is dropped. -/
theorem dropResult_ok {β : Type} {x : Except Error (Database × β)}
    (done : (do let (db, _) ← x; return db : Except Error Database) = .ok after) :
    ∃ result, x = .ok (after, result) := by
  obtain ⟨⟨stored, result⟩, isOk, returned⟩ := bind_eq_ok.mp done
  cases returned
  exact ⟨result, isOk⟩

/-- Deleting an account that exists succeeds. -/
theorem perform_deleteUser (c : Constraints db) {userId : UserId} (exists_ : userId ∈ db.userIds) :
    perform db (.deleteUser userId) =
      .ok ((groupsSettled db userId).deleteUsersWhere fun row => row.id = userId) := by
  rw [perform, deleteUser_eq c exists_]
  rfl

/-! ## Constraints after every call -/

theorem perform_constraints (c : Constraints db) {op : Operation}
    (done : perform db op = .ok after) : Constraints after := by
  cases op with
  | createUser username srpSalt srpVerifierEnc totpSecretEnc =>
      obtain ⟨id, created⟩ := dropResult_ok done
      obtain ⟨⟨stored, row⟩, inserted, returned⟩ := bind_eq_ok.mp created
      cases returned
      exact c.insertUser inserted
  | deleteUser userId =>
      obtain ⟨deleted, isDone⟩ := dropResult_ok done
      exact deleteUser_constraints c isDone
  | blockRefreshToken jtiHash expiresAt => exact c.insertRefreshTokenBlocklist done
  | createGroup name creatorId initialMembers =>
      obtain ⟨group, created⟩ := dropResult_ok done
      exact createGroup_constraints c created
  | addMember groupId requesterId userId skdmCiphertext => exact addMember_constraints c done
  | removeMember groupId requesterId userId skdmCiphertexts =>
      obtain ⟨exit, removed⟩ := dropResult_ok done
      exact removeMember_constraints c removed
  | storeSkdms groupId skdmCiphertexts => exact storeSkdmsUncommitted_constraints c done
  | popSkdmsForUser userId groupId =>
      cases done
      exact c.deleteSkdmsWhere _
  | storeGroupMessage groupId senderId epoch ciphertext =>
      obtain ⟨msg, stored⟩ := dropResult_ok done
      exact storeGroupMessage_constraints c stored
  | revokeGroupMessage messageId senderId =>
      cases done
      rw [revokeGroupMessage_fst]
      exact c.deleteGroupMessagesWhere _
  | recordGroupReceipt messageId userId => exact recordGroupReceipt_constraints c done
  | storeMessage senderId recipientId ciphertext ratchetHeaderEnc =>
      obtain ⟨id, stored⟩ := dropResult_ok done
      obtain ⟨-, row, inserted, -⟩ := storeMessage_ok stored
      exact c.insertMessage inserted
  | deleteMessage messageId owner userId =>
      cases done
      exact c.deleteMessagesWhere _
  | storeKeyBundle bundle => exact c.upsertUserKeyBundle done
  | addOneTimePrekeys userId prekeys => exact c.insertOneTimePrekeys done
  | popOneTimePrekey userId =>
      cases done
      exact popOneTimePrekey_constraints c userId
  | rolledBack drawn =>
      cases done
      exact c.advanceSequences (within_advance _ _)

/-! ## What a call can do to the group tables -/

/-- `after` has the group tables of `db`; users may have been added. -/
structure GroupsUntouched (db after : Database) : Prop where
  groups : after.groups = db.groups
  groupMembers : after.groupMembers = db.groupMembers
  senderKeyDistributions : after.senderKeyDistributions = db.senderKeyDistributions
  groupMessages : after.groupMessages = db.groupMessages
  groupMessageReceipts : after.groupMessageReceipts = db.groupMessageReceipts
  users : ∀ id ∈ db.userIds, id ∈ after.userIds
  newUsers : ∀ id ∈ after.userIds, id ∈ db.userIds ∨ db.sequences.users ≤ id
  sequences : db.sequences.Within after.sequences

/-- The three methods that write messages and receipts one at a time. -/
def Operation.OnGroupMessages : Operation → Prop
  | .storeGroupMessage .. | .revokeGroupMessage .. | .recordGroupReceipt .. => True
  | _ => False

/-- What a successful call did to the group tables. -/
inductive Effect (db : Database) : Operation → Database → Prop where
  | accountDeleted (userId : UserId) (after : Database) (exists_ : userId ∈ db.userIds)
      (gone : AccountDeleted db userId after) : Effect db (.deleteUser userId) after
  | groupCreated (name : String) (creatorId : UserId) (initialMembers : Ciphertexts) (row : Group)
      (isRow : row =
        ⟨db.sequences.groups, name, creatorId, if initialMembers.nonempty then 1 else 0⟩)
      (creatorKnown : creatorId ∈ db.userIds)
      (known : ∀ uid ∈ initialMembers.keys, uid ∈ db.userIds) :
      Effect db (.createGroup name creatorId initialMembers) { db with
        groups := db.groups ++ [row]
        groupMembers := db.groupMembers ++
          (⟨row.id, creatorId⟩ :: initialMembers.keys.map fun uid => ⟨row.id, uid⟩)
        senderKeyDistributions :=
          db.senderKeyDistributions ++ skdmRows row.id 1 initialMembers
        sequences := { db.sequences with groups := db.sequences.groups + 1 } }
  | memberAdded (groupId : GroupId) (requesterId userId : UserId) (skdmCiphertext : Bytes)
      (row : Group) (found : db.findGroup groupId = some row)
      (isCreator : row.creatorId = requesterId) (known : userId ∈ db.userIds) :
      Effect db (.addMember groupId requesterId userId skdmCiphertext)
        { db.updateGroup groupId bumpEpoch with
          groupMembers :=
            if db.IsMember groupId userId then db.groupMembers
            else db.groupMembers ++ [⟨groupId, userId⟩]
          senderKeyDistributions :=
            db.senderKeyDistributions ++ [⟨groupId, userId, skdmCiphertext, row.epoch + 1⟩] }
  | groupDissolved (groupId : GroupId) (requesterId userId : UserId)
      (skdmCiphertexts : Ciphertexts) (row : Group) (found : db.findGroup groupId = some row)
      (authorised : requesterId = userId ∨ row.creatorId = requesterId)
      (member : db.IsMember groupId userId)
      (few : (remaining db groupId userId).length ≤ 1) :
      Effect db (.removeMember groupId requesterId userId skdmCiphertexts)
        ((db.deleteGroupMember groupId userId).deleteGroupsWhere fun row => row.id = groupId)
  | memberRemoved (groupId : GroupId) (requesterId userId : UserId)
      (skdmCiphertexts : Ciphertexts) (row : Group) (found : db.findGroup groupId = some row)
      (authorised : requesterId = userId ∨ row.creatorId = requesterId)
      (member : db.IsMember groupId userId)
      (many : 1 < (remaining db groupId userId).length)
      (known : ∀ uid ∈ skdmCiphertexts.keys, uid ∈ db.userIds) (transfer : Option UserId)
      (transferred : transfer =
        if row.creatorId = userId then (remaining db groupId userId).min? else none) :
      Effect db (.removeMember groupId requesterId userId skdmCiphertexts)
        (departure db groupId userId transfer row.epoch skdmCiphertexts)
  | skdmsStored (groupId : GroupId) (skdmCiphertexts : Ciphertexts) (row : Group)
      (found : db.findGroup groupId = some row)
      (known : ∀ uid ∈ skdmCiphertexts.keys, uid ∈ db.userIds) :
      Effect db (.storeSkdms groupId skdmCiphertexts) { db.updateGroup groupId bumpEpoch with
        senderKeyDistributions :=
          db.senderKeyDistributions ++ skdmRows groupId (row.epoch + 1) skdmCiphertexts }
  | skdmsPopped (userId : UserId) (groupId : GroupId) :
      Effect db (.popSkdmsForUser userId groupId)
        (db.deleteSkdmsWhere (pendingFor userId groupId))
  | messageStored (groupId : GroupId) (senderId : UserId) (epoch : Int) (ciphertext : Bytes)
      (row : GroupMessage)
      (isRow : row = ⟨db.sequences.groupMessages, senderId, groupId, epoch, ciphertext⟩)
      (senderKnown : senderId ∈ db.userIds) (groupKnown : groupId ∈ db.groupIds) :
      Effect db (.storeGroupMessage groupId senderId epoch ciphertext) { db with
        groupMessages := db.groupMessages ++ [row]
        groupMessageReceipts :=
          db.groupMessageReceipts ++ receiptRows db groupId senderId row.id
        sequences := { db.sequences with groupMessages := db.sequences.groupMessages + 1 } }
  | messageRevoked (messageId : MessageId) (senderId : UserId) :
      Effect db (.revokeGroupMessage messageId senderId)
        (db.deleteGroupMessagesWhere (sentAs messageId senderId))
  | receiptRecorded (messageId : MessageId) (userId : UserId)
      (waiting : ⟨messageId, userId⟩ ∈ db.groupMessageReceipts) :
      Effect db (.recordGroupReceipt messageId userId)
        (deleteMessageIfRead (db.deleteReceipt messageId userId) messageId)
  | elsewhere (op : Operation) (after : Database) (other : ¬ op.OnGroupMessages)
      (same : GroupsUntouched db after) : Effect db op after

theorem GroupsUntouched.refl (db : Database) : GroupsUntouched db db :=
  ⟨rfl, rfl, rfl, rfl, rfl, fun _ h => h, fun _ h => Or.inl h, within_refl _⟩

theorem perform_effect (c : Constraints db) (creators : CreatorsAreMembers db) {op : Operation}
    (done : perform db op = .ok after) : Effect db op after := by
  cases op with
  | createUser username srpSalt srpVerifierEnc totpSecretEnc =>
      obtain ⟨id, created⟩ := dropResult_ok done
      obtain ⟨⟨stored, row⟩, inserted, returned⟩ := bind_eq_ok.mp created
      cases returned
      obtain ⟨-, -, rfl, rfl⟩ := Database.insertUser_ok.mp inserted
      refine .elsewhere _ _ id ⟨rfl, rfl, rfl, rfl, rfl, ?_, ?_, ?_⟩
      · intro id known
        obtain ⟨row, inTable, same⟩ := List.mem_map.mp known
        exact List.mem_map.mpr ⟨row, List.mem_append_left _ inTable, same⟩
      · intro id listed
        obtain ⟨row, inTable, rfl⟩ := List.mem_map.mp listed
        rcases List.mem_append.mp inTable with old | new
        · exact Or.inl (List.mem_map_of_mem old)
        · rw [List.mem_singleton.mp new]
          exact Or.inr (le_refl _)
      · exact ⟨le_of_lt (Int.lt_succ _), le_refl _, le_refl _, le_refl _, le_refl _⟩
  | deleteUser userId =>
      obtain ⟨deleted, isDone⟩ := dropResult_ok done
      rcases deleteUser_ok c creators isDone with ⟨-, rfl, -⟩ | ⟨exists_, -, gone⟩
      · exact .elsewhere _ _ id (.refl _)
      · exact .accountDeleted userId after exists_ gone
  | blockRefreshToken jtiHash expiresAt =>
      obtain ⟨rfl, -⟩ := Database.insertRefreshTokenBlocklist_ok.mp done
      exact .elsewhere _ _ id { GroupsUntouched.refl db with }
  | createGroup name creatorId initialMembers =>
      obtain ⟨group, created⟩ := dropResult_ok done
      obtain ⟨-, creatorKnown, known, isRow, rfl⟩ := createGroup_ok c created
      exact .groupCreated name creatorId initialMembers group isRow creatorKnown known
  | addMember groupId requesterId userId skdmCiphertext =>
      obtain ⟨row, found, isCreator, known, rfl⟩ := addMember_ok done
      exact .memberAdded groupId requesterId userId skdmCiphertext row found isCreator known
  | removeMember groupId requesterId userId skdmCiphertexts =>
      obtain ⟨exit, removed⟩ := dropResult_ok done
      cases removeMember_ok removed with
      | groupNotFound => exact .elsewhere _ _ id (.refl _)
      | userNotInGroup => exact .elsewhere _ _ id (.refl _)
      | lastMemberLeft row selected authorised member few =>
          rw [Session.selectGroup_fresh] at selected
          exact .groupDissolved groupId requesterId userId skdmCiphertexts row selected authorised
            member few
      | removed object row selected found authorised member many known transfer transferred =>
          rw [Session.selectGroup_fresh, found] at selected
          cases selected
          exact .memberRemoved groupId requesterId userId skdmCiphertexts object found authorised
            member many known transfer transferred
  | storeSkdms groupId skdmCiphertexts =>
      obtain ⟨row, found, known, rfl⟩ := storeSkdmsUncommitted_ok done
      exact .skdmsStored groupId skdmCiphertexts row found known
  | popSkdmsForUser userId groupId =>
      cases done
      exact .skdmsPopped userId groupId
  | storeGroupMessage groupId senderId epoch ciphertext =>
      obtain ⟨msg, stored⟩ := dropResult_ok done
      obtain ⟨senderKnown, groupKnown, -, isRow, rfl⟩ := storeGroupMessage_ok stored
      exact .messageStored groupId senderId epoch ciphertext msg isRow senderKnown groupKnown
  | revokeGroupMessage messageId senderId =>
      cases done
      rw [revokeGroupMessage_fst]
      exact .messageRevoked messageId senderId
  | recordGroupReceipt messageId userId =>
      obtain ⟨waiting, rfl⟩ := recordGroupReceipt_ok done
      exact .receiptRecorded messageId userId waiting
  | storeMessage senderId recipientId ciphertext ratchetHeaderEnc =>
      obtain ⟨id', stored⟩ := dropResult_ok done
      obtain ⟨-, row, inserted, -⟩ := storeMessage_ok stored
      obtain ⟨-, rfl, rfl⟩ := Database.insertMessage_ok.mp inserted
      exact .elsewhere _ _ id { GroupsUntouched.refl db with
        sequences := ⟨le_refl _, le_refl _, le_refl _, le_of_lt (Int.lt_succ _), le_refl _⟩ }
  | deleteMessage messageId owner userId =>
      cases done
      exact .elsewhere _ _ id { GroupsUntouched.refl db with }
  | storeKeyBundle bundle =>
      rcases Database.upsertUserKeyBundle_ok.mp done with ⟨-, rfl⟩ | ⟨-, -, rfl⟩
      · exact .elsewhere _ _ id { GroupsUntouched.refl db with }
      · exact .elsewhere _ _ id { GroupsUntouched.refl db with }
  | addOneTimePrekeys userId prekeys =>
      obtain ⟨-, rfl⟩ := Database.insertOneTimePrekeys_ok.mp done
      have forward : db.sequences.oneTimePrekeys ≤ db.sequences.oneTimePrekeys + prekeys.length := by
        omega
      exact .elsewhere _ _ id { GroupsUntouched.refl db with
        sequences := ⟨le_refl _, le_refl _, le_refl _, le_refl _, forward⟩ }
  | popOneTimePrekey userId =>
      cases done
      obtain ⟨rows, popped⟩ := popOneTimePrekey_fst db userId
      rw [popped]
      exact .elsewhere _ _ id { GroupsUntouched.refl db with }
  | rolledBack drawn =>
      cases done
      exact .elsewhere _ _ id { GroupsUntouched.refl db with sequences := within_advance _ _ }

/-! ## Creators and epochs after every call -/

theorem perform_creators (c : Constraints db) (creators : CreatorsAreMembers db) {op : Operation}
    (done : perform db op = .ok after) : CreatorsAreMembers after := by
  have effect := perform_effect c creators done
  cases effect with
  | accountDeleted =>
      obtain ⟨deleted, isDone⟩ := dropResult_ok done
      exact deleteUser_creators c creators isDone
  | groupCreated =>
      obtain ⟨group, created⟩ := dropResult_ok done
      exact createGroup_creators c creators created
  | memberAdded => exact addMember_creators creators done
  | groupDissolved _ _ _ _ row found =>
      obtain ⟨inTable, rfl⟩ := Database.findGroup_some found
      exact dissolve_creators creators inTable
  | memberRemoved =>
      obtain ⟨exit, removed⟩ := dropResult_ok done
      exact (removeMember_creators c creators removed).mpr not_staleCreator_fresh
  | skdmsStored => exact storeSkdms_creators creators done
  | skdmsPopped => exact creators
  | messageStored => exact creators
  | messageRevoked => exact creators
  | receiptRecorded => exact creators
  | elsewhere _ _ _ same =>
      unfold CreatorsAreMembers Database.IsMember
      rw [same.groups, same.groupMembers]
      exact creators

/-- No pending sender key is stamped ahead of its group. -/
def PendingWithinEpoch (db : Database) : Prop :=
  ∀ pending ∈ db.senderKeyDistributions, ∀ row ∈ db.groups, row.id = pending.groupId →
    pending.epoch ≤ row.epoch

/-- Raising epochs and stamping new rows with the raised one keeps stamps behind. -/
theorem PendingWithinEpoch.bump (c : Constraints db) (within : PendingWithinEpoch db)
    {groupId : GroupId} {row : Group} (found : db.findGroup groupId = some row)
    {f : Group → Group} (raised : ∀ r, (f r).epoch = r.epoch + 1) (keeps : ∀ r, (f r).id = r.id)
    (groups : after.groups = (db.updateGroup groupId f).groups)
    (pending : ∀ p ∈ after.senderKeyDistributions, p ∈ db.senderKeyDistributions ∨
      (p.groupId = groupId ∧ p.epoch = row.epoch + 1)) : PendingWithinEpoch after := by
  obtain ⟨inTable, rfl⟩ := Database.findGroup_some found
  intro p stored r listed same
  rw [groups] at listed
  obtain ⟨old, oldStored, rfl⟩ := Database.mem_updateGroup.mp listed
  rcases pending p stored with before | ⟨sameGroup, stamp⟩
  · by_cases hit : old.id = row.id
    · rw [if_pos hit] at same ⊢
      rw [keeps] at same
      have behind := within p before old oldStored same
      rw [raised]
      omega
    · rw [if_neg hit] at same ⊢
      exact within p before old oldStored same
  · by_cases hit : old.id = row.id
    · rw [if_pos hit, raised, c.groups.unique oldStored inTable hit]
      omega
    · rw [if_neg hit] at same
      exact absurd (same.trans sameGroup) hit

theorem perform_epochs (c : Constraints db) (creators : CreatorsAreMembers db)
    (within : PendingWithinEpoch db) {op : Operation} (done : perform db op = .ok after) :
    PendingWithinEpoch after := by
  have effect := perform_effect c creators done
  cases effect with
  | accountDeleted userId _ _ gone =>
      intro pending stored row listed same
      obtain ⟨inTable, -, -⟩ := (gone.senderKeyDistributions pending).mp stored
      obtain ⟨old, oldStored, -, rfl⟩ := (gone.groups row).mp listed
      rw [withoutUser_id] at same
      have behind := within pending inTable old oldStored same
      unfold withoutUser
      by_cases member : db.IsMember old.id userId
      · rw [if_pos member]
        show pending.epoch ≤ old.epoch + 1
        omega
      · rw [if_neg member]
        exact behind
  | groupCreated name creatorId initialMembers row isRow =>
      intro pending stored other listed same
      rcases List.mem_append.mp stored with oldRow | newRow
      · rcases List.mem_append.mp listed with oldGroup | newGroup
        · exact within pending oldRow other oldGroup same
        · -- a pending row names an existing group, never the new one
          have older := c.groupId_lt (c.skdm_exists oldRow).1
          rw [List.mem_singleton.mp newGroup, isRow] at same
          exact absurd same.symm (ne_of_lt older)
      · obtain ⟨sameGroup, stamp, inKeys⟩ := mem_skdmRows newRow
        rcases List.mem_append.mp listed with oldGroup | newGroup
        · have older := c.nextGroup other oldGroup
          rw [sameGroup, isRow] at same
          exact absurd same (ne_of_lt older)
        · rw [stamp, List.mem_singleton.mp newGroup, isRow]
          have some_ : initialMembers.nonempty = true := by
            cases empty : initialMembers.nonempty with
            | true => rfl
            | false =>
                rw [skdmRows_eq_nil empty] at newRow
                cases newRow
          simp [some_]
  | memberAdded groupId requesterId userId skdmCiphertext row found =>
      refine within.bump c found bumpEpoch_epoch bumpEpoch_id rfl ?_
      intro pending stored
      rcases List.mem_append.mp stored with old | new
      · exact Or.inl old
      · rw [List.mem_singleton.mp new]
        exact Or.inr ⟨rfl, rfl⟩
  | groupDissolved =>
      intro pending stored row listed same
      exact within pending (List.mem_of_mem_filter stored) row (List.mem_of_mem_filter listed) same
  | memberRemoved groupId requesterId userId skdmCiphertexts row found _ _ _ _ transfer =>
      refine within.bump c found (departed_epoch transfer) (departed_id transfer) rfl ?_
      intro pending stored
      rcases List.mem_append.mp stored with old | new
      · exact Or.inl (List.mem_of_mem_filter old)
      · obtain ⟨sameGroup, stamp, -⟩ := mem_skdmRows new
        exact Or.inr ⟨sameGroup, stamp⟩
  | skdmsStored groupId skdmCiphertexts row found =>
      refine within.bump c found bumpEpoch_epoch bumpEpoch_id rfl ?_
      intro pending stored
      rcases List.mem_append.mp stored with old | new
      · exact Or.inl old
      · obtain ⟨sameGroup, stamp, -⟩ := mem_skdmRows new
        exact Or.inr ⟨sameGroup, stamp⟩
  | skdmsPopped =>
      intro pending stored row listed same
      exact within pending (List.mem_of_mem_filter stored) row listed same
  | messageStored => exact within
  | messageRevoked => exact within
  | receiptRecorded => exact within
  | elsewhere _ _ _ same =>
      unfold PendingWithinEpoch
      rw [same.groups, same.senderKeyDistributions]
      exact within

/-! ## Every run -/

/-- What holds of every database the service reaches. -/
structure Sound (db : Database) : Prop where
  constraints : Constraints db
  creators : CreatorsAreMembers db
  epochs : PendingWithinEpoch db

theorem sound_empty : Sound {} where
  constraints := by
    constructor
    case references =>
      intro row stored
      cases row <;> cases stored
    all_goals first
      | exact List.Pairwise.nil
      | exact List.nodup_nil
      | exact fun row stored => absurd stored List.not_mem_nil
  creators := fun row stored => absurd stored List.not_mem_nil
  epochs := fun pending stored => absurd stored List.not_mem_nil

theorem Sound.perform (sound : Sound db) {op : Operation}
    (done : perform db op = .ok after) : Sound after :=
  ⟨perform_constraints sound.constraints done,
    perform_creators sound.constraints sound.creators done,
    perform_epochs sound.constraints sound.creators sound.epochs done⟩

theorem Sound.commit (sound : Sound db) (op : Operation) : Sound (commit db op) :=
  commit_keeps sound fun _ done => sound.perform done

/-- **Every reachable database is sound.** -/
theorem reachable (ops : List Operation) : Sound (service.run ops) :=
  service.invariant sound_empty (fun _ op sound => sound.commit op) ops

theorem Sound.effect (sound : Sound db) {op : Operation} (done : Repository.perform db op = .ok after) :
    Effect db op after :=
  perform_effect sound.constraints sound.creators done

end SecureMsg.Repository
