/-
# Store.Statements — the writes the repositories issue

One function per kind of `INSERT`, `UPDATE` and plain `DELETE`.  An insert checks
its foreign keys and its declared unique key (`insertInto`); a serial primary
key is drawn from the sequence and cannot collide, so it is not checked.  Each
statement keeps `Constraints`.
-/
import SecureMsg.Store.Integrity

namespace SecureMsg.Store

open SecureMsg.Theory

set_option autoImplicit false

/-- What an `INTEGER` column holds: four bytes. -/
def FitsInteger (n : Int) : Prop := -2147483648 ≤ n ∧ n ≤ 2147483647

instance : DecidablePred FitsInteger := fun _ => inferInstanceAs (Decidable (_ ∧ _))

/-- How an `INSERT` that cannot go in fails: an id no `INTEGER` column holds is refused
before any constraint is looked at. -/
def refusal (integers : List Int) (violated : Violation) : Error :=
  if ∀ n ∈ integers, FitsInteger n then .integrityError violated else .dataError

theorem refusal_cases (integers : List Int) (violated : Violation) :
    refusal integers violated = .integrityError violated ∨
      refusal integers violated = .dataError := by
  unfold refusal
  split
  · exact Or.inl rfl
  · exact Or.inr rfl

/-- A text without NUL: the driver sends no other. -/
def Sendable (text : String) : Prop := '\x00' ∉ text.toList

instance : DecidablePred Sendable := fun _ => inferInstanceAs (Decidable (¬ _))

/-- What the driver raises, before anything is sent. -/
def nulInText : Error := .valueError "A string literal cannot contain NUL (0x00) characters."

/-- `INSERT` of a batch into one table; `integers` are the ids of a row that a request
may have named. -/
def insertInto {ρ κ : Type} [DecidableEq κ] (put : List ρ → Database) (key : ρ → κ)
    (referenced : ρ → Prop) [DecidablePred referenced] (integers : ρ → List Int)
    (table added : List ρ) : Except Error Database :=
  match insertRows key referenced table added with
  | .ok rows => .ok (put rows)
  | .error violated => .error (refusal (added.flatMap integers) violated)

theorem insertInto_ok_iff {ρ κ : Type} [DecidableEq κ] {put : List ρ → Database} {key : ρ → κ}
    {referenced : ρ → Prop} [DecidablePred referenced] {integers : ρ → List Int}
    {table added : List ρ} {db : Database} :
    insertInto put key referenced integers table added = .ok db ↔
      db = put (table ++ added) ∧ (∀ row ∈ added, referenced row) ∧
        ((table ++ added).map key).Nodup := by
  unfold insertInto
  cases inserted : insertRows key referenced table added with
  | ok rows =>
      obtain ⟨rfl, known, distinct⟩ := (insertRows_ok_iff key referenced).mp inserted
      simp only [Except.ok.injEq]
      exact ⟨fun same => ⟨same.symm, known, distinct⟩, fun facts => facts.1.symm⟩
  | error violated =>
      simp only [reduceCtorEq, false_iff]
      rintro ⟨-, known, distinct⟩
      have succeeds := (insertRows_ok_iff key referenced).mpr ⟨rfl, known, distinct⟩
      rw [inserted] at succeeds
      cases succeeds

theorem insertInto_error {ρ κ : Type} [DecidableEq κ] {put : List ρ → Database} {key : ρ → κ}
    {referenced : ρ → Prop} [DecidablePred referenced] {integers : ρ → List Int}
    {table added : List ρ} {e : Error}
    (failed : insertInto put key referenced integers table added = .error e) :
    ∃ violated, e = refusal (added.flatMap integers) violated := by
  unfold insertInto at failed
  cases inserted : insertRows key referenced table added with
  | ok rows =>
      rw [inserted] at failed
      cases failed
  | error violated =>
      rw [inserted] at failed
      cases failed
      exact ⟨violated, rfl⟩

/-- Under distinct keys the uniqueness constraint is not what fails. -/
theorem insertInto_ne_unique {ρ κ : Type} [DecidableEq κ] {put : List ρ → Database} {key : ρ → κ}
    {referenced : ρ → Prop} [DecidablePred referenced] {integers : ρ → List Int}
    {table added : List ρ} (distinct : ((table ++ added).map key).Nodup) :
    insertInto put key referenced integers table added ≠ .error (.integrityError .unique) := by
  unfold insertInto insertRows
  by_cases known : ∀ row ∈ added, referenced row
  · rw [if_neg (not_not.mpr known), if_pos distinct]
    simp
  · rw [if_pos known]
    simp only [refusal]
    split
    · simp
    · simp

namespace Database

/-! ## Group tables -/

def insertGroup (db : Database) (name : String) (creatorId : UserId) (epoch : Int) :
    Except Error (Database × Group) :=
  let row : Group := ⟨db.sequences.groups, name, creatorId, epoch⟩
  if ¬ Sendable name then .error nulInText
  else if creatorId ∈ db.userIds then
    .ok ({ db with
      groups := db.groups ++ [row]
      sequences := { db.sequences with groups := row.id + 1 } }, row)
  else .error (.integrityError .foreignKey)

def insertGroupMembers (db : Database) (rows : List GroupMember) : Except Error Database :=
  insertInto (fun table => { db with groupMembers := table }) id
    (fun row => row.groupId ∈ db.groupIds ∧ row.userId ∈ db.userIds)
    (fun row => [row.userId]) db.groupMembers rows

/-- `INSERT ... ON CONFLICT DO NOTHING`. -/
def insertGroupMemberOrIgnore (db : Database) (row : GroupMember) : Except Error Database :=
  if row ∈ db.groupMembers then .ok db else db.insertGroupMembers [row]

def insertSenderKeyDistributions (db : Database) (rows : List SenderKeyDistribution) :
    Except Error Database :=
  insertInto (fun table => { db with senderKeyDistributions := table })
    (fun row => (row.recipientId, row.groupId, row.epoch))
    (fun row => row.groupId ∈ db.groupIds ∧ row.recipientId ∈ db.userIds)
    (fun row => [row.recipientId]) db.senderKeyDistributions rows

/-- The epoch is the sender's, and need not fit its column. -/
def insertGroupMessage (db : Database) (senderId : UserId) (groupId : GroupId) (epoch : Int)
    (ciphertext : Bytes) : Except Error (Database × GroupMessage) :=
  let row : GroupMessage := ⟨db.sequences.groupMessages, senderId, groupId, epoch, ciphertext⟩
  if (senderId ∈ db.userIds ∧ groupId ∈ db.groupIds) ∧ FitsInteger epoch then
    .ok ({ db with
      groupMessages := db.groupMessages ++ [row]
      sequences := { db.sequences with groupMessages := row.id + 1 } }, row)
  else .error (refusal [groupId, epoch] .foreignKey)

def insertGroupMessageReceipts (db : Database) (rows : List GroupMessageReceipt) :
    Except Error Database :=
  insertInto (fun table => { db with groupMessageReceipts := table }) id
    (fun row => row.messageId ∈ db.groupMessageIds ∧ row.userId ∈ db.userIds)
    (fun _ => []) db.groupMessageReceipts rows

/-- `UPDATE groups SET ... WHERE id = groupId`. -/
def updateGroup (db : Database) (groupId : GroupId) (f : Group → Group) : Database :=
  { db with groups := db.groups.map fun row => if row.id = groupId then f row else row }

def deleteGroupMember (db : Database) (groupId : GroupId) (userId : UserId) : Database :=
  { db with groupMembers := db.groupMembers.filter fun row => row ≠ ⟨groupId, userId⟩ }

def deleteSkdmsWhere (db : Database) (p : SenderKeyDistribution → Bool) : Database :=
  { db with senderKeyDistributions := db.senderKeyDistributions.filter fun row => !p row }

def deleteReceipt (db : Database) (messageId : MessageId) (userId : UserId) : Database :=
  { db with
    groupMessageReceipts := db.groupMessageReceipts.filter fun row => row ≠ ⟨messageId, userId⟩ }

/-! ## User tables -/

def insertUser (db : Database) (username srpSalt : String) (srpVerifierEnc totpSecretEnc : Bytes) :
    Except Error (Database × User) :=
  let row : User := ⟨db.sequences.users, username, srpSalt, srpVerifierEnc, totpSecretEnc⟩
  if ¬ (Sendable username ∧ Sendable srpSalt) then .error nulInText
  else if username ∈ db.users.map User.username then .error (.integrityError .unique)
  else .ok ({ db with
    users := db.users ++ [row]
    sequences := { db.sequences with users := row.id + 1 } }, row)

def insertRefreshTokenBlocklist (db : Database) (row : RefreshTokenBlocklist) :
    Except Error Database :=
  insertInto (fun table => { db with refreshTokenBlocklist := table })
    RefreshTokenBlocklist.jtiHash (fun _ => True) (fun _ => []) db.refreshTokenBlocklist [row]

/-! ## Direct messages and keys -/

def insertMessage (db : Database) (senderId recipientId : UserId)
    (ciphertext ratchetHeaderEnc : Bytes) : Except Error (Database × Message) :=
  let row : Message := ⟨db.sequences.messages, senderId, recipientId, ciphertext, ratchetHeaderEnc⟩
  if senderId ∈ db.userIds ∧ recipientId ∈ db.userIds then
    .ok ({ db with
      messages := db.messages ++ [row]
      sequences := { db.sequences with messages := row.id + 1 } }, row)
  else .error (refusal [recipientId] .foreignKey)

def deleteMessagesWhere (db : Database) (p : Message → Bool) : Database :=
  { db with messages := db.messages.filter fun row => !p row }

/-- `INSERT ... ON CONFLICT (user_id) DO UPDATE`. -/
def upsertUserKeyBundle (db : Database) (row : UserKeyBundle) : Except Error Database :=
  if row.userId ∈ db.userKeyBundles.map UserKeyBundle.userId then
    .ok { db with
      userKeyBundles := db.userKeyBundles.map fun old => if old.userId = row.userId then row else old }
  else if row.userId ∈ db.userIds then
    .ok { db with userKeyBundles := db.userKeyBundles ++ [row] }
  else .error (.integrityError .foreignKey)

/-- The rows of a batch of prekeys, numbered from `next` on. -/
def numberPrekeys (userId : UserId) : Int → List Bytes → List OneTimePreKey
  | _, [] => []
  | next, pub :: rest => ⟨next, userId, pub⟩ :: numberPrekeys userId (next + 1) rest

def insertOneTimePrekeys (db : Database) (userId : UserId) (prekeys : List Bytes) :
    Except Error Database :=
  if prekeys = [] ∨ userId ∈ db.userIds then
    .ok { db with
      oneTimePrekeys := db.oneTimePrekeys ++ numberPrekeys userId db.sequences.oneTimePrekeys prekeys
      sequences :=
        { db.sequences with oneTimePrekeys := db.sequences.oneTimePrekeys + prekeys.length } }
  else .error (.integrityError .foreignKey)

def deleteOneTimePrekey (db : Database) (id : Int) : Database :=
  { db with oneTimePrekeys := db.oneTimePrekeys.filter fun row => row.id ≠ id }

/-! ## What a successful statement did -/

variable {db after : Database}

theorem insertGroup_ok {name : String} {creatorId : UserId} {epoch : Int} {row : Group} :
    db.insertGroup name creatorId epoch = .ok (after, row) ↔
      Sendable name ∧ creatorId ∈ db.userIds ∧ row = ⟨db.sequences.groups, name, creatorId, epoch⟩ ∧
      after = { db with
        groups := db.groups ++ [row]
        sequences := { db.sequences with groups := db.sequences.groups + 1 } } := by
  unfold insertGroup
  by_cases sendable : Sendable name
  · rw [if_neg (not_not.mpr sendable)]
    by_cases known : creatorId ∈ db.userIds
    · simp only [known, sendable, if_true, Except.ok.injEq, Prod.mk.injEq, true_and]
      constructor
      · rintro ⟨rfl, rfl⟩
        exact ⟨rfl, rfl⟩
      · rintro ⟨rfl, rfl⟩
        exact ⟨rfl, rfl⟩
    · simp [known]
  · simp [sendable]

theorem insertGroupMembers_ok {rows : List GroupMember} :
    db.insertGroupMembers rows = .ok after ↔
      after = { db with groupMembers := db.groupMembers ++ rows } ∧
      (∀ row ∈ rows, row.groupId ∈ db.groupIds ∧ row.userId ∈ db.userIds) ∧
      (db.groupMembers ++ rows).Nodup := by
  simp only [insertGroupMembers, insertInto_ok_iff, List.map_id]

theorem insertGroupMemberOrIgnore_ok {row : GroupMember} :
    db.insertGroupMemberOrIgnore row = .ok after ↔
      (row ∈ db.groupMembers ∧ after = db) ∨
      (row ∉ db.groupMembers ∧ db.insertGroupMembers [row] = .ok after) := by
  unfold insertGroupMemberOrIgnore
  by_cases present : row ∈ db.groupMembers
  · simp [present, eq_comm]
  · simp [present]

theorem insertSenderKeyDistributions_ok {rows : List SenderKeyDistribution} :
    db.insertSenderKeyDistributions rows = .ok after ↔
      after = { db with senderKeyDistributions := db.senderKeyDistributions ++ rows } ∧
      (∀ row ∈ rows, row.groupId ∈ db.groupIds ∧ row.recipientId ∈ db.userIds) ∧
      ((db.senderKeyDistributions ++ rows).map
        fun row => (row.recipientId, row.groupId, row.epoch)).Nodup := by
  simp only [insertSenderKeyDistributions, insertInto_ok_iff]

theorem insertGroupMessage_ok {senderId : UserId} {groupId : GroupId} {epoch : Int}
    {ciphertext : Bytes} {row : GroupMessage} :
    db.insertGroupMessage senderId groupId epoch ciphertext = .ok (after, row) ↔
      ((senderId ∈ db.userIds ∧ groupId ∈ db.groupIds) ∧ FitsInteger epoch) ∧
      row = ⟨db.sequences.groupMessages, senderId, groupId, epoch, ciphertext⟩ ∧
      after = { db with
        groupMessages := db.groupMessages ++ [row]
        sequences := { db.sequences with groupMessages := db.sequences.groupMessages + 1 } } := by
  unfold insertGroupMessage
  by_cases known : (senderId ∈ db.userIds ∧ groupId ∈ db.groupIds) ∧ FitsInteger epoch
  · rw [if_pos known]
    simp only [Except.ok.injEq, Prod.mk.injEq]
    constructor
    · rintro ⟨rfl, rfl⟩
      exact ⟨known, rfl, rfl⟩
    · rintro ⟨-, rfl, rfl⟩
      exact ⟨rfl, rfl⟩
  · simp only [known, if_false, reduceCtorEq, false_and]

theorem insertGroupMessageReceipts_ok {rows : List GroupMessageReceipt} :
    db.insertGroupMessageReceipts rows = .ok after ↔
      after = { db with groupMessageReceipts := db.groupMessageReceipts ++ rows } ∧
      (∀ row ∈ rows, row.messageId ∈ db.groupMessageIds ∧ row.userId ∈ db.userIds) ∧
      (db.groupMessageReceipts ++ rows).Nodup := by
  simp only [insertGroupMessageReceipts, insertInto_ok_iff, List.map_id]

theorem insertUser_ok {username srpSalt : String} {srpVerifierEnc totpSecretEnc : Bytes}
    {row : User} :
    db.insertUser username srpSalt srpVerifierEnc totpSecretEnc = .ok (after, row) ↔
      (Sendable username ∧ Sendable srpSalt) ∧ username ∉ db.users.map User.username ∧
      row = ⟨db.sequences.users, username, srpSalt, srpVerifierEnc, totpSecretEnc⟩ ∧
      after = { db with
        users := db.users ++ [row]
        sequences := { db.sequences with users := db.sequences.users + 1 } } := by
  unfold insertUser
  by_cases sendable : Sendable username ∧ Sendable srpSalt
  · rw [if_neg (not_not.mpr sendable)]
    by_cases taken : username ∈ db.users.map User.username
    · simp only [taken, if_true, reduceCtorEq, not_true, false_and, and_false]
    · rw [if_neg taken]
      simp only [Except.ok.injEq, Prod.mk.injEq]
      constructor
      · rintro ⟨rfl, rfl⟩
        exact ⟨sendable, taken, rfl, rfl⟩
      · rintro ⟨-, -, rfl, rfl⟩
        exact ⟨rfl, rfl⟩
  · simp only [sendable, not_false_eq_true, if_true, reduceCtorEq, false_and]

theorem insertRefreshTokenBlocklist_ok {row : RefreshTokenBlocklist} :
    db.insertRefreshTokenBlocklist row = .ok after ↔
      after = { db with refreshTokenBlocklist := db.refreshTokenBlocklist ++ [row] } ∧
      ((db.refreshTokenBlocklist ++ [row]).map RefreshTokenBlocklist.jtiHash).Nodup := by
  simp only [insertRefreshTokenBlocklist, insertInto_ok_iff, implies_true, true_and]

theorem insertMessage_ok {senderId recipientId : UserId} {ciphertext ratchetHeaderEnc : Bytes}
    {row : Message} :
    db.insertMessage senderId recipientId ciphertext ratchetHeaderEnc = .ok (after, row) ↔
      (senderId ∈ db.userIds ∧ recipientId ∈ db.userIds) ∧
      row = ⟨db.sequences.messages, senderId, recipientId, ciphertext, ratchetHeaderEnc⟩ ∧
      after = { db with
        messages := db.messages ++ [row]
        sequences := { db.sequences with messages := db.sequences.messages + 1 } } := by
  unfold insertMessage
  by_cases known : senderId ∈ db.userIds ∧ recipientId ∈ db.userIds
  · rw [if_pos known]
    simp only [Except.ok.injEq, Prod.mk.injEq]
    constructor
    · rintro ⟨rfl, rfl⟩
      exact ⟨known, rfl, rfl⟩
    · rintro ⟨-, rfl, rfl⟩
      exact ⟨rfl, rfl⟩
  · simp only [known, if_false, reduceCtorEq, false_and]

theorem upsertUserKeyBundle_ok {row : UserKeyBundle} :
    db.upsertUserKeyBundle row = .ok after ↔
      (row.userId ∈ db.userKeyBundles.map UserKeyBundle.userId ∧
        after = { db with userKeyBundles := db.userKeyBundles.map fun old =>
          if old.userId = row.userId then row else old }) ∨
      (row.userId ∉ db.userKeyBundles.map UserKeyBundle.userId ∧ row.userId ∈ db.userIds ∧
        after = { db with userKeyBundles := db.userKeyBundles ++ [row] }) := by
  unfold upsertUserKeyBundle
  by_cases stored : row.userId ∈ db.userKeyBundles.map UserKeyBundle.userId
  · rw [if_pos stored]
    simp only [stored, Except.ok.injEq, not_true, false_and, or_false, true_and]
    exact eq_comm
  · rw [if_neg stored]
    by_cases known : row.userId ∈ db.userIds
    · rw [if_pos known]
      simp only [stored, known, Except.ok.injEq, not_false_iff, false_and, false_or, true_and]
      exact eq_comm
    · simp only [stored, known, if_false, reduceCtorEq, false_and, and_false, or_false]

theorem insertOneTimePrekeys_ok {userId : UserId} {prekeys : List Bytes} :
    db.insertOneTimePrekeys userId prekeys = .ok after ↔
      (prekeys = [] ∨ userId ∈ db.userIds) ∧
      after = { db with
        oneTimePrekeys :=
          db.oneTimePrekeys ++ numberPrekeys userId db.sequences.oneTimePrekeys prekeys
        sequences :=
          { db.sequences with oneTimePrekeys := db.sequences.oneTimePrekeys + prekeys.length } } := by
  unfold insertOneTimePrekeys
  by_cases known : prekeys = [] ∨ userId ∈ db.userIds
  · rw [if_pos known]
    simp only [known, Except.ok.injEq, true_and]
    exact eq_comm
  · simp only [known, if_false, reduceCtorEq, false_and]

@[simp] theorem mem_updateGroup {g : GroupId} {f : Group → Group} {row : Group} :
    row ∈ (db.updateGroup g f).groups ↔
      ∃ old ∈ db.groups, (if old.id = g then f old else old) = row := by
  simp [updateGroup]

/-- An update that keeps the primary key keeps the list of ids. -/
theorem updateGroup_groupIds {g : GroupId} {f : Group → Group} (keeps : ∀ row, (f row).id = row.id) :
    (db.updateGroup g f).groupIds = db.groupIds := by
  simp only [groupIds, updateGroup, List.map_map]
  refine List.map_congr_left fun row _ => ?_
  by_cases hit : row.id = g <;> simp [hit, keeps]

theorem mem_numberPrekeys {userId : UserId} {next : Int} {prekeys : List Bytes}
    {row : OneTimePreKey} (listed : row ∈ numberPrekeys userId next prekeys) :
    row.userId = userId ∧ next ≤ row.id ∧ row.id < next + prekeys.length := by
  induction prekeys generalizing next with
  | nil => cases listed
  | cons pub rest ih =>
      rcases List.mem_cons.mp listed with rfl | later
      · refine ⟨rfl, le_refl _, ?_⟩
        show next < next + (pub :: rest).length
        rw [List.length_cons]
        omega
      · obtain ⟨owner, low, high⟩ := ih later
        refine ⟨owner, by omega, ?_⟩
        rw [List.length_cons]
        omega

theorem numberPrekeys_ascending (userId : UserId) (next : Int) (prekeys : List Bytes) :
    Ascending OneTimePreKey.id (numberPrekeys userId next prekeys) := by
  induction prekeys generalizing next with
  | nil => exact List.Pairwise.nil
  | cons pub rest ih =>
      refine List.Pairwise.cons ?_ (ih (next + 1))
      intro row later
      have low := (mem_numberPrekeys later).2.1
      show next < row.id
      omega

end Database

/-! ## Every statement keeps the constraints -/

namespace Constraints

open Database

variable {db after : Database} (c : Constraints db)

include c

/-- Adding rows whose references resolve keeps every reference resolved. -/
theorem references_grow (more : ∀ k, db.Has k → after.Has k)
    (new : ∀ row, after.Stores row → db.Stores row ∨ ∀ k ∈ row.needs, after.Has k) :
    ∀ row, after.Stores row → ∀ k ∈ row.needs, after.Has k := by
  intro row stored k refers
  rcases new row stored with old | resolved
  · exact more k (c.references row old k refers)
  · exact resolved k refers

theorem insertGroup {name : String} {creatorId : UserId} {epoch : Int} {row : Group}
    (done : db.insertGroup name creatorId epoch = .ok (after, row)) : Constraints after := by
  obtain ⟨-, known, rfl, rfl⟩ := insertGroup_ok.mp done
  exact { c with
    groups := c.groups.snoc c.nextGroup
    nextGroup := by
      intro row stored
      rcases List.mem_append.mp stored with old | new
      · have below := c.nextGroup row old
        exact lt_trans below (Int.lt_succ _)
      · rw [List.mem_singleton.mp new]
        exact Int.lt_succ _
    references := by
      refine c.references_grow ?_ ?_
      · rintro (id | id | id) has
        · exact has
        · exact List.mem_map.mpr ((List.mem_map.mp has).imp fun _ h => ⟨List.mem_append_left _ h.1, h.2⟩)
        · exact has
      · intro row stored
        cases row <;> try exact Or.inl stored
        case group row =>
          rcases List.mem_append.mp stored with old | new
          · exact Or.inl old
          · right
            rw [List.mem_singleton.mp new]
            simpa [Row.needs, Has, userIds, groupIds, groupMessageIds] using known }

theorem insertGroupMembers {rows : List GroupMember}
    (done : db.insertGroupMembers rows = .ok after) : Constraints after := by
  obtain ⟨rfl, known, distinct⟩ := insertGroupMembers_ok.mp done
  exact { c with
    groupMembers := distinct
    references := by
      refine c.references_grow (fun k has => by cases k <;> exact has) ?_
      intro row stored
      cases row <;> try exact Or.inl stored
      case groupMember row =>
        rcases List.mem_append.mp stored with old | new
        · exact Or.inl old
        · right
          simpa [Row.needs, Has, userIds, groupIds, groupMessageIds] using known row new }

theorem insertGroupMemberOrIgnore {row : GroupMember}
    (done : db.insertGroupMemberOrIgnore row = .ok after) : Constraints after := by
  rcases insertGroupMemberOrIgnore_ok.mp done with ⟨-, rfl⟩ | ⟨-, inserted⟩
  · exact c
  · exact c.insertGroupMembers inserted

theorem insertSenderKeyDistributions {rows : List SenderKeyDistribution}
    (done : db.insertSenderKeyDistributions rows = .ok after) : Constraints after := by
  obtain ⟨rfl, known, distinct⟩ := insertSenderKeyDistributions_ok.mp done
  exact { c with
    senderKeyDistributions := distinct
    references := by
      refine c.references_grow (fun k has => by cases k <;> exact has) ?_
      intro row stored
      cases row <;> try exact Or.inl stored
      case senderKeyDistribution row =>
        rcases List.mem_append.mp stored with old | new
        · exact Or.inl old
        · right
          simpa [Row.needs, Has, userIds, groupIds, groupMessageIds] using known row new }

theorem insertGroupMessage {senderId : UserId} {groupId : GroupId} {epoch : Int}
    {ciphertext : Bytes} {row : GroupMessage}
    (done : db.insertGroupMessage senderId groupId epoch ciphertext = .ok (after, row)) :
    Constraints after := by
  obtain ⟨⟨known, -⟩, rfl, rfl⟩ := insertGroupMessage_ok.mp done
  exact { c with
    groupMessages := c.groupMessages.snoc c.nextGroupMessage
    nextGroupMessage := by
      intro row stored
      rcases List.mem_append.mp stored with old | new
      · have below := c.nextGroupMessage row old
        exact lt_trans below (Int.lt_succ _)
      · rw [List.mem_singleton.mp new]
        exact Int.lt_succ _
    references := by
      refine c.references_grow ?_ ?_
      · rintro (id | id | id) has
        · exact has
        · exact has
        · exact List.mem_map.mpr ((List.mem_map.mp has).imp fun _ h => ⟨List.mem_append_left _ h.1, h.2⟩)
      · intro row stored
        cases row <;> try exact Or.inl stored
        case groupMessage row =>
          rcases List.mem_append.mp stored with old | new
          · exact Or.inl old
          · right
            rw [List.mem_singleton.mp new]
            simpa [Row.needs, Has, userIds, groupIds, groupMessageIds] using known }

theorem insertGroupMessageReceipts {rows : List GroupMessageReceipt}
    (done : db.insertGroupMessageReceipts rows = .ok after) : Constraints after := by
  obtain ⟨rfl, known, distinct⟩ := insertGroupMessageReceipts_ok.mp done
  exact { c with
    groupMessageReceipts := distinct
    references := by
      refine c.references_grow (fun k has => by cases k <;> exact has) ?_
      intro row stored
      cases row <;> try exact Or.inl stored
      case groupMessageReceipt row =>
        rcases List.mem_append.mp stored with old | new
        · exact Or.inl old
        · right
          simpa [Row.needs, Has, userIds, groupIds, groupMessageIds] using known row new }

/-- Updating group rows in place, keeping ids and naming existing creators. -/
theorem mapGroups {f : Group → Group} (keeps : ∀ row, (f row).id = row.id)
    (creators : ∀ row ∈ db.groups, (f row).creatorId ∈ db.userIds) :
    Constraints { db with groups := db.groups.map f } := by
  have sameIds : (db.groups.map f).map Group.id = db.groups.map Group.id := by
    rw [List.map_map]
    exact List.map_congr_left fun row _ => keeps row
  exact { c with
    groups := c.groups.map keeps
    nextGroup := by
      intro row stored
      obtain ⟨old, inTable, rfl⟩ := List.mem_map.mp stored
      rw [keeps]
      exact c.nextGroup old inTable
    references := by
      have more : ∀ k, db.Has k → Has { db with groups := db.groups.map f } k := by
        rintro (id | id | id) has
        · exact has
        · show id ∈ (db.groups.map f).map Group.id
          rw [sameIds]
          exact has
        · exact has
      refine c.references_grow more ?_
      intro row stored
      cases row <;> try exact Or.inl stored
      case group row =>
        right
        obtain ⟨old, inTable, rfl⟩ := List.mem_map.mp stored
        simpa [Row.needs, Has, userIds, groupIds, groupMessageIds] using creators old inTable }

theorem updateGroup {g : GroupId} {f : Group → Group} (keeps : ∀ row, (f row).id = row.id)
    (creators : ∀ row ∈ db.groups, row.id = g → (f row).creatorId ∈ db.userIds) :
    Constraints (db.updateGroup g f) := by
  refine c.mapGroups ?_ ?_
  · intro row
    by_cases hit : row.id = g <;> simp [hit, keeps]
  · intro row stored
    by_cases hit : row.id = g
    · simpa [hit] using creators row stored hit
    · simpa [hit] using c.creator_exists stored

/-- Removing rows no foreign key names keeps the references. -/
theorem references_shrink (same : ∀ k, db.Has k → after.Has k)
    (fewer : ∀ row, after.Stores row → db.Stores row) :
    ∀ row, after.Stores row → ∀ k ∈ row.needs, after.Has k :=
  fun row stored k refers => same k (c.references row (fewer row stored) k refers)

theorem deleteGroupMember (g : GroupId) (u : UserId) : Constraints (db.deleteGroupMember g u) :=
  { c with
    groupMembers := c.groupMembers.filter _
    references := by
      refine c.references_shrink (fun k has => by cases k <;> exact has) ?_
      intro row stored
      cases row <;> first | exact stored | exact List.mem_of_mem_filter stored }

theorem deleteSkdmsWhere (p : SenderKeyDistribution → Bool) :
    Constraints (db.deleteSkdmsWhere p) :=
  { c with
    senderKeyDistributions := c.senderKeyDistributions.sublist (List.filter_sublist.map _)
    references := by
      refine c.references_shrink (fun k has => by cases k <;> exact has) ?_
      intro row stored
      cases row <;> first | exact stored | exact List.mem_of_mem_filter stored }

theorem deleteReceipt (m : MessageId) (u : UserId) : Constraints (db.deleteReceipt m u) :=
  { c with
    groupMessageReceipts := c.groupMessageReceipts.filter _
    references := by
      refine c.references_shrink (fun k has => by cases k <;> exact has) ?_
      intro row stored
      cases row <;> first | exact stored | exact List.mem_of_mem_filter stored }

theorem insertUser {username srpSalt : String} {srpVerifierEnc totpSecretEnc : Bytes} {row : User}
    (done : db.insertUser username srpSalt srpVerifierEnc totpSecretEnc = .ok (after, row)) :
    Constraints after := by
  obtain ⟨-, fresh, rfl, rfl⟩ := insertUser_ok.mp done
  exact { c with
    users := c.users.snoc c.nextUser
    usernames := by
      show ((db.users ++ [_]).map User.username).Nodup
      rw [List.map_append]
      exact List.nodup_append.mpr ⟨c.usernames, List.nodup_singleton _, by
        intro name used other new same
        rw [List.map_singleton, List.mem_singleton] at new
        rw [same, new] at used
        exact fresh used⟩
    nextUser := by
      intro row stored
      rcases List.mem_append.mp stored with old | new
      · have below := c.nextUser row old
        exact lt_trans below (Int.lt_succ _)
      · rw [List.mem_singleton.mp new]
        exact Int.lt_succ _
    references := by
      refine c.references_grow ?_ ?_
      · intro k has
        cases k with
        | user id =>
            obtain ⟨row, stored, same⟩ := List.mem_map.mp has
            exact List.mem_map.mpr ⟨row, List.mem_append_left _ stored, same⟩
        | group id => exact has
        | groupMessage id => exact has
      · intro row stored
        cases row <;> try exact Or.inl stored
        case user row => exact Or.inr (fun k refers => absurd refers List.not_mem_nil) }

theorem insertRefreshTokenBlocklist {row : RefreshTokenBlocklist}
    (done : db.insertRefreshTokenBlocklist row = .ok after) : Constraints after := by
  obtain ⟨rfl, distinct⟩ := insertRefreshTokenBlocklist_ok.mp done
  exact { c with
    refreshTokenBlocklist := distinct
    references := by
      refine c.references_grow (fun k has => by cases k <;> exact has) ?_
      intro row stored
      cases row <;> try exact Or.inl stored
      case refreshTokenBlocklist row => exact Or.inr (fun k refers => absurd refers List.not_mem_nil) }

theorem insertMessage {senderId recipientId : UserId} {ciphertext ratchetHeaderEnc : Bytes}
    {row : Message}
    (done : db.insertMessage senderId recipientId ciphertext ratchetHeaderEnc = .ok (after, row)) :
    Constraints after := by
  obtain ⟨known, rfl, rfl⟩ := insertMessage_ok.mp done
  exact { c with
    messages := c.messages.snoc c.nextMessage
    nextMessage := by
      intro row stored
      rcases List.mem_append.mp stored with old | new
      · have below := c.nextMessage row old
        exact lt_trans below (Int.lt_succ _)
      · rw [List.mem_singleton.mp new]
        exact Int.lt_succ _
    references := by
      refine c.references_grow (fun k has => by cases k <;> exact has) ?_
      intro row stored
      cases row <;> try exact Or.inl stored
      case message row =>
        rcases List.mem_append.mp stored with old | new
        · exact Or.inl old
        · right
          rw [List.mem_singleton.mp new]
          simpa [Row.needs, Has, userIds] using known }

theorem deleteMessagesWhere (p : Message → Bool) : Constraints (db.deleteMessagesWhere p) :=
  { c with
    messages := c.messages.filter _
    nextMessage := fun row stored => c.nextMessage row (List.mem_of_mem_filter stored)
    references := by
      refine c.references_shrink (fun k has => by cases k <;> exact has) ?_
      intro row stored
      cases row <;> first | exact stored | exact List.mem_of_mem_filter stored }

theorem upsertUserKeyBundle {row : UserKeyBundle}
    (done : db.upsertUserKeyBundle row = .ok after) : Constraints after := by
  rcases upsertUserKeyBundle_ok.mp done with ⟨stored, rfl⟩ | ⟨absent, known, rfl⟩
  · have sameKeys : (db.userKeyBundles.map fun old =>
        if old.userId = row.userId then row else old).map UserKeyBundle.userId =
          db.userKeyBundles.map UserKeyBundle.userId := by
      rw [List.map_map]
      refine List.map_congr_left fun old _ => ?_
      by_cases hit : old.userId = row.userId
      · simp [hit]
      · simp [hit]
    exact { c with
      userKeyBundles := by rw [sameKeys]; exact c.userKeyBundles
      references := by
        refine c.references_grow (fun k has => by cases k <;> exact has) ?_
        intro r inTable
        cases r <;> try exact Or.inl inTable
        case userKeyBundle r =>
          obtain ⟨old, oldStored, rfl⟩ := List.mem_map.mp inTable
          have owner := c.references (.userKeyBundle old) oldStored (.user old.userId)
            List.mem_cons_self
          right
          by_cases hit : old.userId = row.userId
          · simpa [hit, Row.needs, Has, userIds] using owner
          · simpa [hit, Row.needs, Has, userIds] using owner }
  · exact { c with
      userKeyBundles := by
        rw [List.map_append]
        exact List.nodup_append.mpr ⟨c.userKeyBundles, List.nodup_singleton _, by
          intro id used other new same
          rw [List.map_singleton, List.mem_singleton] at new
          rw [same, new] at used
          exact absent used⟩
      references := by
        refine c.references_grow (fun k has => by cases k <;> exact has) ?_
        intro r inTable
        cases r <;> try exact Or.inl inTable
        case userKeyBundle r =>
          rcases List.mem_append.mp inTable with old | new
          · exact Or.inl old
          · right
            rw [List.mem_singleton.mp new]
            simpa [Row.needs, Has, userIds] using known }

theorem insertOneTimePrekeys {userId : UserId} {prekeys : List Bytes}
    (done : db.insertOneTimePrekeys userId prekeys = .ok after) : Constraints after := by
  obtain ⟨known, rfl⟩ := insertOneTimePrekeys_ok.mp done
  exact { c with
    oneTimePrekeys := c.oneTimePrekeys.append (numberPrekeys_ascending _ _ _) (by
      intro old stored new listed
      have below := c.nextOneTimePrekey old stored
      have above := (mem_numberPrekeys listed).2.1
      omega)
    nextOneTimePrekey := by
      intro row stored
      rcases List.mem_append.mp stored with old | new
      · have below := c.nextOneTimePrekey row old
        show row.id < db.sequences.oneTimePrekeys + prekeys.length
        omega
      · exact (mem_numberPrekeys new).2.2
    references := by
      refine c.references_grow (fun k has => by cases k <;> exact has) ?_
      intro row stored
      cases row <;> try exact Or.inl stored
      case oneTimePrekey row =>
        rcases List.mem_append.mp stored with old | new
        · exact Or.inl old
        · right
          rcases known with rfl | exists_
          · cases new
          · have owner := (mem_numberPrekeys new).1
            simpa [owner, Row.needs, Has, userIds] using exists_ }

theorem deleteOneTimePrekey (id : Int) : Constraints (db.deleteOneTimePrekey id) :=
  { c with
    oneTimePrekeys := c.oneTimePrekeys.filter _
    nextOneTimePrekey := fun row stored => c.nextOneTimePrekey row (List.mem_of_mem_filter stored)
    references := by
      refine c.references_shrink (fun k has => by cases k <;> exact has) ?_
      intro row stored
      cases row <;> first | exact stored | exact List.mem_of_mem_filter stored }

/-- A rolled-back transaction may have drawn ids: sequences never go back. -/
theorem advanceSequences {drawn : Sequences} (forward : db.sequences.Within drawn) :
    Constraints { db with sequences := drawn } :=
  { c with
    nextUser := fun row stored => lt_of_lt_of_le (c.nextUser row stored) forward.users
    nextGroup := fun row stored => lt_of_lt_of_le (c.nextGroup row stored) forward.groups
    nextGroupMessage := fun row stored =>
      lt_of_lt_of_le (c.nextGroupMessage row stored) forward.groupMessages
    nextMessage := fun row stored => lt_of_lt_of_le (c.nextMessage row stored) forward.messages
    nextOneTimePrekey := fun row stored =>
      lt_of_lt_of_le (c.nextOneTimePrekey row stored) forward.oneTimePrekeys
    references := by
      refine c.references_shrink (fun k has => by cases k <;> exact has) ?_
      intro row stored
      cases row <;> exact stored }

end Constraints

end SecureMsg.Store
