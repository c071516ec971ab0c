/-
# Repository.Frame — the blocklist stands apart

`block_refresh_token` and `is_refresh_token_blocked` are the only repository methods that
look at the table of revoked tokens.  Every other method does the same under any other
blocklist, and leaves the one there is: on `withBlocklist rows db` it does what it does on
`db`, up to that table.
-/
import SecureMsg.Repository.User
import SecureMsg.Repository.Message
import SecureMsg.Repository.KeyBundle

namespace SecureMsg.Repository

open SecureMsg.Theory SecureMsg.Store

set_option autoImplicit false

/-- The database with another blocklist. -/
def withBlocklist (rows : List RefreshTokenBlocklist) (db : Database) : Database :=
  { db with refreshTokenBlocklist := rows }

variable (rows : List RefreshTokenBlocklist) (db : Database)

/-! ## Step by step -/

section Steps

variable {α β : Type}

theorem bind_frame {x x' : Except Error α} {g : α → α} {k k' : α → Except Error β} {f : β → β}
    (first : x' = x.map g) (rest : ∀ a, x = .ok a → k' (g a) = (k a).map f) :
    (x' >>= k') = (x >>= k).map f := by
  subst first
  cases isOk : x with
  | ok a => exact rest a isOk
  | error e => rfl

theorem ite_frame {c c' : Prop} [Decidable c] [Decidable c'] {a a' b b' : α} {f : α → α}
    (same : c' ↔ c) (yes : c → a' = f a) (no : ¬ c → b' = f b) :
    (if c' then a' else b') = f (if c then a else b) := by
  by_cases holds : c
  · rw [if_pos holds, if_pos (same.mpr holds)]
    exact yes holds
  · rw [if_neg holds, if_neg fun other => holds (same.mp other)]
    exact no holds

end Steps

/-! ## Statements -/

theorem insertInto_map {ρ κ : Type} [DecidableEq κ] {put put' : List ρ → Database} {key : ρ → κ}
    {referenced : ρ → Prop} [DecidablePred referenced] {integers : ρ → List Int}
    {table added : List ρ} {f : Database → Database} (same : ∀ table, put' table = f (put table)) :
    insertInto put' key referenced integers table added =
      (insertInto put key referenced integers table added).map f := by
  unfold insertInto
  cases insertRows key referenced table added with
  | ok stored => exact congrArg Except.ok (same stored)
  | error violated => rfl

theorem insertGroup_frame (name : String) (creatorId : UserId) (epoch : Int) :
    (withBlocklist rows db).insertGroup name creatorId epoch =
      (db.insertGroup name creatorId epoch).map (Prod.map (withBlocklist rows) id) :=
  ite_frame Iff.rfl (fun _ => rfl) fun _ => ite_frame Iff.rfl (fun _ => rfl) fun _ => rfl

theorem insertGroupMembers_frame (added : List GroupMember) :
    (withBlocklist rows db).insertGroupMembers added =
      (db.insertGroupMembers added).map (withBlocklist rows) :=
  insertInto_map fun _ => rfl

theorem insertSenderKeyDistributions_frame (added : List SenderKeyDistribution) :
    (withBlocklist rows db).insertSenderKeyDistributions added =
      (db.insertSenderKeyDistributions added).map (withBlocklist rows) :=
  insertInto_map fun _ => rfl

theorem insertGroupMessageReceipts_frame (added : List GroupMessageReceipt) :
    (withBlocklist rows db).insertGroupMessageReceipts added =
      (db.insertGroupMessageReceipts added).map (withBlocklist rows) :=
  insertInto_map fun _ => rfl

theorem insertGroupMessage_frame (senderId : UserId) (groupId : GroupId) (epoch : Int)
    (ciphertext : Bytes) :
    (withBlocklist rows db).insertGroupMessage senderId groupId epoch ciphertext =
      (db.insertGroupMessage senderId groupId epoch ciphertext).map
        (Prod.map (withBlocklist rows) id) :=
  ite_frame Iff.rfl (fun _ => rfl) fun _ => rfl

/-! ## Groups -/

section Groups

variable {groupId : GroupId} {requesterId userId : UserId} {skdmCiphertexts : Ciphertexts}

theorem storeSkdmsUncommitted_frame :
    storeSkdmsUncommitted (withBlocklist rows db) groupId skdmCiphertexts =
      (storeSkdmsUncommitted db groupId skdmCiphertexts).map (withBlocklist rows) := by
  have same : (withBlocklist rows db).findGroup groupId = db.findGroup groupId := rfl
  unfold storeSkdmsUncommitted
  rw [same]
  cases db.findGroup groupId with
  | none => rfl
  | some row => exact insertSenderKeyDistributions_frame rows (db.updateGroup groupId bumpEpoch) _

theorem createGroup_frame {name : String} {creatorId : UserId} {initialMembers : Ciphertexts} :
    createGroup (withBlocklist rows db) name creatorId initialMembers =
      (createGroup db name creatorId initialMembers).map (Prod.map (withBlocklist rows) id) := by
  refine bind_frame (insertGroup_frame rows db name creatorId 0) fun opened _ => ?_
  refine bind_frame (insertGroupMembers_frame rows opened.1 _) fun joined _ => ?_
  refine ite_frame Iff.rfl (fun _ => ?_) fun _ => rfl
  exact bind_frame (storeSkdmsUncommitted_frame rows joined) fun stored _ => rfl

theorem addMember_frame {skdmCiphertext : Bytes} :
    addMember (withBlocklist rows db) groupId requesterId userId skdmCiphertext =
      (addMember db groupId requesterId userId skdmCiphertext).map (withBlocklist rows) := by
  refine ite_frame Iff.rfl (fun _ => ?_) fun _ => rfl
  have inserted : (withBlocklist rows db).insertGroupMemberOrIgnore ⟨groupId, userId⟩ =
      (db.insertGroupMemberOrIgnore ⟨groupId, userId⟩).map (withBlocklist rows) :=
    ite_frame Iff.rfl (fun _ => rfl) fun _ => insertGroupMembers_frame rows db _
  exact bind_frame inserted fun joined _ => storeSkdmsUncommitted_frame rows joined

theorem purgeAndRekey_frame :
    purgeAndRekey (withBlocklist rows db) groupId skdmCiphertexts =
      (purgeAndRekey db groupId skdmCiphertexts).map (withBlocklist rows) :=
  ite_frame Iff.rfl (fun _ => storeSkdmsUncommitted_frame rows (db.deleteSkdmsWhere fun row =>
    row.groupId = groupId)) fun _ => rfl

theorem removeMember_frame {session : Session} :
    removeMember session (withBlocklist rows db) groupId requesterId userId skdmCiphertexts =
      (removeMember session db groupId requesterId userId skdmCiphertexts).map
        (Prod.map (withBlocklist rows) id) := by
  have same : session.selectGroup (withBlocklist rows db) groupId = session.selectGroup db groupId :=
    rfl
  unfold removeMember
  rw [same]
  cases session.selectGroup db groupId with
  | none => rfl
  | some group =>
      refine ite_frame Iff.rfl (fun _ => rfl) fun _ => ?_
      refine ite_frame Iff.rfl (fun _ => rfl) fun _ => ?_
      refine ite_frame Iff.rfl (fun _ => rfl) fun _ => ?_
      refine ite_frame Iff.rfl (fun _ => ?_) fun _ => ?_
      · have members : ((withBlocklist rows db).deleteGroupMember groupId userId).membersOf groupId =
            (db.deleteGroupMember groupId userId).membersOf groupId := rfl
        rw [members]
        cases ((db.deleteGroupMember groupId userId).membersOf groupId).min? with
        | none => rfl
        | some newCreator =>
            exact bind_frame (purgeAndRekey_frame rows ((db.deleteGroupMember groupId
              userId).updateGroup groupId (setCreator newCreator))) fun rekeyed _ => rfl
      · exact bind_frame (purgeAndRekey_frame rows (db.deleteGroupMember groupId userId))
          fun rekeyed _ => rfl

theorem storeGroupMessage_frame {senderId : UserId} {epoch : Int} {ciphertext : Bytes} :
    storeGroupMessage (withBlocklist rows db) groupId senderId epoch ciphertext =
      (storeGroupMessage db groupId senderId epoch ciphertext).map
        (Prod.map (withBlocklist rows) id) := by
  refine bind_frame (insertGroupMessage_frame rows db senderId groupId epoch ciphertext) fun stored _ => ?_
  exact bind_frame (insertGroupMessageReceipts_frame rows stored.1 _) fun waiting _ => rfl

theorem revokeGroupMessage_frame (messageId : MessageId) (senderId : UserId) :
    revokeGroupMessage (withBlocklist rows db) messageId senderId =
      (revokeGroupMessage db messageId senderId).map (withBlocklist rows) id :=
  ite_frame Iff.rfl (fun _ => rfl) fun _ => rfl

theorem recordGroupReceipt_frame {messageId : MessageId} :
    recordGroupReceipt (withBlocklist rows db) messageId userId =
      (recordGroupReceipt db messageId userId).map (withBlocklist rows) :=
  ite_frame Iff.rfl (fun _ => rfl) fun _ => rfl

end Groups

/-! ## Accounts, messages and keys -/

theorem createUser_frame {username srpSalt : String} {srpVerifierEnc totpSecretEnc : Bytes} :
    createUser (withBlocklist rows db) username srpSalt srpVerifierEnc totpSecretEnc =
      (createUser db username srpSalt srpVerifierEnc totpSecretEnc).map
        (Prod.map (withBlocklist rows) id) := by
  have inserted : (withBlocklist rows db).insertUser username srpSalt srpVerifierEnc totpSecretEnc =
      (db.insertUser username srpSalt srpVerifierEnc totpSecretEnc).map
        (Prod.map (withBlocklist rows) id) :=
    ite_frame Iff.rfl (fun _ => rfl) fun _ => ite_frame Iff.rfl (fun _ => rfl) fun _ => rfl
  exact bind_frame inserted fun stored _ => rfl

theorem deleteUser_frame {userId : UserId} :
    deleteUser (withBlocklist rows db) userId =
      (deleteUser db userId).map (Prod.map (withBlocklist rows) id) := by
  refine ite_frame Iff.rfl (fun _ => rfl) fun _ => ?_
  dsimp only
  have sole : (if soleMemberIds (withBlocklist rows db) userId = [] then withBlocklist rows db
        else (withBlocklist rows db).deleteGroupsWhere fun row =>
          row.id ∈ soleMemberIds (withBlocklist rows db) userId) =
      withBlocklist rows (if soleMemberIds db userId = [] then db
        else db.deleteGroupsWhere fun row => row.id ∈ soleMemberIds db userId) :=
    ite_frame Iff.rfl (fun _ => rfl) fun _ => rfl
  rw [sole]
  generalize (if soleMemberIds db userId = [] then db
    else db.deleteGroupsWhere fun row => row.id ∈ soleMemberIds db userId) = settled
  have reassigned : ∀ ids, reassignGroups (withBlocklist rows settled) userId ids =
      (reassignGroups settled userId ids).map (withBlocklist rows) :=
    fun ids => ite_frame Iff.rfl (fun _ => rfl) fun _ => rfl
  refine bind_frame (ite_frame Iff.rfl (fun _ => rfl) fun _ => reassigned _) fun kept _ => rfl

theorem storeMessage_frame {senderId recipientId : UserId} {ciphertext ratchetHeaderEnc : Bytes} :
    storeMessage (withBlocklist rows db) senderId recipientId ciphertext ratchetHeaderEnc =
      (storeMessage db senderId recipientId ciphertext ratchetHeaderEnc).map
        (Prod.map (withBlocklist rows) id) := by
  refine ite_frame Iff.rfl (fun _ => ?_) fun _ => rfl
  have inserted : (withBlocklist rows db).insertMessage senderId recipientId ciphertext
      ratchetHeaderEnc = (db.insertMessage senderId recipientId ciphertext ratchetHeaderEnc).map
        (Prod.map (withBlocklist rows) id) :=
    ite_frame Iff.rfl (fun _ => rfl) fun _ => rfl
  exact bind_frame inserted fun stored _ => rfl

theorem storeKeyBundle_frame {bundle : UserKeyBundle} :
    storeKeyBundle (withBlocklist rows db) bundle =
      (storeKeyBundle db bundle).map (withBlocklist rows) :=
  ite_frame Iff.rfl (fun _ => rfl) fun _ => ite_frame Iff.rfl (fun _ => rfl) fun _ => rfl

theorem addOneTimePrekeys_frame {userId : UserId} {prekeys : List Bytes} :
    addOneTimePrekeys (withBlocklist rows db) userId prekeys =
      (addOneTimePrekeys db userId prekeys).map (withBlocklist rows) :=
  ite_frame Iff.rfl (fun _ => rfl) fun _ => rfl

theorem popOneTimePrekey_frame {userId : UserId} :
    popOneTimePrekey (withBlocklist rows db) userId =
      (popOneTimePrekey db userId).map (withBlocklist rows) id := by
  have same : prekeysOf (withBlocklist rows db) userId = prekeysOf db userId := rfl
  unfold popOneTimePrekey
  rw [same]
  cases (prekeysOf db userId).head? with
  | none => rfl
  | some row => rfl

end SecureMsg.Repository
