/-
# Repository.Personal — what a call can do to the tables of accounts

`Effect` says what a successful call does to the group tables.  This module says
it of the others: users, direct messages, key bundles, one-time prekeys and the
blocklist.  Each method writes at most one of them, apart from `delete_user`,
which takes the account's rows out of all but the blocklist, and the group
methods write none (`perform_personal`).
-/
import SecureMsg.Repository.Operation

namespace SecureMsg.Repository

open SecureMsg.Theory SecureMsg.Store

set_option autoImplicit false

/-- `after` has the tables of accounts of `db`. -/
structure PersonalUntouched (db after : Database) : Prop where
  users : after.users = db.users
  messages : after.messages = db.messages
  userKeyBundles : after.userKeyBundles = db.userKeyBundles
  oneTimePrekeys : after.oneTimePrekeys = db.oneTimePrekeys
  refreshTokenBlocklist : after.refreshTokenBlocklist = db.refreshTokenBlocklist
  sequences : db.sequences.Within after.sequences

/-- `after` has the tables of accounts of `db` without the account's rows. -/
structure PersonalDeleted (db : Database) (userId : UserId) (after : Database) : Prop where
  users : after.users = db.users.filter fun row => row.id ≠ userId
  messages : after.messages =
    db.messages.filter fun row => row.senderId ≠ userId ∧ row.recipientId ≠ userId
  userKeyBundles : after.userKeyBundles = db.userKeyBundles.filter fun row => row.userId ≠ userId
  oneTimePrekeys : after.oneTimePrekeys = db.oneTimePrekeys.filter fun row => row.userId ≠ userId
  refreshTokenBlocklist : after.refreshTokenBlocklist = db.refreshTokenBlocklist
  sequences : after.sequences = db.sequences

/-- The methods that write a table of accounts. -/
def Operation.OnPersonal : Operation → Prop
  | .createUser .. | .deleteUser .. | .blockRefreshToken .. | .storeMessage .. | .deleteMessage ..
  | .storeKeyBundle .. | .addOneTimePrekeys .. | .popOneTimePrekey .. => True
  | _ => False

/-- What a successful call did to the tables of accounts. -/
inductive PersonalEffect (db : Database) : Operation → Database → Prop where
  | userCreated (username srpSalt : String) (srpVerifierEnc totpSecretEnc : Bytes)
      (free : username ∉ db.users.map User.username) :
      PersonalEffect db (.createUser username srpSalt srpVerifierEnc totpSecretEnc) { db with
        users := db.users ++
          [⟨db.sequences.users, username, srpSalt, srpVerifierEnc, totpSecretEnc⟩]
        sequences := { db.sequences with users := db.sequences.users + 1 } }
  | accountUnknown (userId : UserId) (absent : userId ∉ db.userIds) :
      PersonalEffect db (.deleteUser userId) db
  | accountDeleted (userId : UserId) (after : Database) (exists_ : userId ∈ db.userIds)
      (gone : PersonalDeleted db userId after) : PersonalEffect db (.deleteUser userId) after
  | tokenBlocked (jtiHash : Bytes) (expiresAt : Int) :
      PersonalEffect db (.blockRefreshToken jtiHash expiresAt) { db with
        refreshTokenBlocklist := db.refreshTokenBlocklist ++ [⟨jtiHash, expiresAt⟩] }
  | messageStored (senderId recipientId : UserId) (ciphertext ratchetHeaderEnc : Bytes)
      (room : (inbox db recipientId).length < inboxMaxMessages)
      (senderKnown : senderId ∈ db.userIds) (recipientKnown : recipientId ∈ db.userIds) :
      PersonalEffect db (.storeMessage senderId recipientId ciphertext ratchetHeaderEnc) { db with
        messages := db.messages ++
          [⟨db.sequences.messages, senderId, recipientId, ciphertext, ratchetHeaderEnc⟩]
        sequences := { db.sequences with messages := db.sequences.messages + 1 } }
  | messageDeleted (messageId : MessageId) (owner : OwnerField) (userId : UserId) :
      PersonalEffect db (.deleteMessage messageId owner userId)
        (db.deleteMessagesWhere (ownedBy messageId owner userId))
  | bundleReplaced (bundle : UserKeyBundle)
      (published : bundle.userId ∈ db.userKeyBundles.map UserKeyBundle.userId) :
      PersonalEffect db (.storeKeyBundle bundle) { db with
        userKeyBundles := db.userKeyBundles.map fun old =>
          if old.userId = bundle.userId then bundle else old }
  | bundleStored (bundle : UserKeyBundle)
      (absent : bundle.userId ∉ db.userKeyBundles.map UserKeyBundle.userId)
      (known : bundle.userId ∈ db.userIds) :
      PersonalEffect db (.storeKeyBundle bundle) { db with
        userKeyBundles := db.userKeyBundles ++ [bundle] }
  | prekeysAdded (userId : UserId) (prekeys : List Bytes)
      (known : prekeys = [] ∨ userId ∈ db.userIds) :
      PersonalEffect db (.addOneTimePrekeys userId prekeys) { db with
        oneTimePrekeys :=
          db.oneTimePrekeys ++ Database.numberPrekeys userId db.sequences.oneTimePrekeys prekeys
        sequences :=
          { db.sequences with oneTimePrekeys := db.sequences.oneTimePrekeys + prekeys.length } }
  | prekeyPopped (userId : UserId) :
      PersonalEffect db (.popOneTimePrekey userId) (popOneTimePrekey db userId).1
  | elsewhere (op : Operation) (after : Database) (other : ¬ op.OnPersonal)
      (same : PersonalUntouched db after) : PersonalEffect db op after

variable {db after : Database}

theorem PersonalUntouched.refl (db : Database) : PersonalUntouched db db :=
  ⟨rfl, rfl, rfl, rfl, rfl, within_refl _⟩

theorem deleteUser_personal (c : Constraints db) {userId : UserId} {deleted : Bool}
    (done : deleteUser db userId = .ok (after, deleted)) :
    (userId ∉ db.userIds ∧ after = db) ∨
      (userId ∈ db.userIds ∧ PersonalDeleted db userId after) := by
  rcases deleteUser_cases c done with ⟨absent, rfl, -⟩ | ⟨exists_, rfl, -⟩
  · exact Or.inl ⟨absent, rfl⟩
  · have gone := groupsSettled_userGone exists_
    refine Or.inr ⟨exists_, ⟨?_, ?_, ?_, ?_, rfl, rfl⟩⟩
    · exact List.filter_congr fun row _ => by simp
    · exact List.filter_congr fun row _ => by simp [gone]
    · exact List.filter_congr fun row _ => by simp [gone]
    · exact List.filter_congr fun row _ => by simp [gone]

theorem perform_personal (c : Constraints db) {op : Operation}
    (done : perform db op = .ok after) : PersonalEffect db op after := by
  cases op with
  | createUser username srpSalt srpVerifierEnc totpSecretEnc =>
      obtain ⟨id', created⟩ := dropResult_ok done
      obtain ⟨⟨stored, row⟩, inserted, returned⟩ := bind_eq_ok.mp created
      cases returned
      obtain ⟨-, free, rfl, rfl⟩ := Database.insertUser_ok.mp inserted
      exact .userCreated username srpSalt srpVerifierEnc totpSecretEnc free
  | deleteUser userId =>
      obtain ⟨deleted, isDone⟩ := dropResult_ok done
      rcases deleteUser_personal c isDone with ⟨absent, rfl⟩ | ⟨exists_, gone⟩
      · exact .accountUnknown userId absent
      · exact .accountDeleted userId after exists_ gone
  | blockRefreshToken jtiHash expiresAt =>
      obtain ⟨rfl, -⟩ := Database.insertRefreshTokenBlocklist_ok.mp done
      exact .tokenBlocked jtiHash expiresAt
  | createGroup name creatorId initialMembers =>
      obtain ⟨group, created⟩ := dropResult_ok done
      obtain ⟨-, -, -, -, rfl⟩ := createGroup_ok c created
      exact .elsewhere _ _ id { PersonalUntouched.refl db with
        sequences := ⟨le_refl _, le_of_lt (Int.lt_succ _), le_refl _, le_refl _, le_refl _⟩ }
  | addMember groupId requesterId userId skdmCiphertext =>
      obtain ⟨row, -, -, -, rfl⟩ := addMember_ok done
      exact .elsewhere _ _ id { PersonalUntouched.refl db with }
  | removeMember groupId requesterId userId skdmCiphertexts =>
      obtain ⟨exit, removed⟩ := dropResult_ok done
      cases removeMember_ok removed with
      | groupNotFound => exact .elsewhere _ _ id (.refl _)
      | userNotInGroup => exact .elsewhere _ _ id (.refl _)
      | lastMemberLeft => exact .elsewhere _ _ id { PersonalUntouched.refl db with }
      | removed => exact .elsewhere _ _ id { PersonalUntouched.refl db with }
  | storeSkdms groupId skdmCiphertexts =>
      obtain ⟨row, -, -, rfl⟩ := storeSkdmsUncommitted_ok done
      exact .elsewhere _ _ id { PersonalUntouched.refl db with }
  | popSkdmsForUser userId groupId =>
      cases done
      exact .elsewhere _ _ id { PersonalUntouched.refl db with }
  | storeGroupMessage groupId senderId epoch ciphertext =>
      obtain ⟨msg, stored⟩ := dropResult_ok done
      obtain ⟨-, -, -, -, rfl⟩ := storeGroupMessage_ok stored
      exact .elsewhere _ _ id { PersonalUntouched.refl db with
        sequences := ⟨le_refl _, le_refl _, le_of_lt (Int.lt_succ _), le_refl _, le_refl _⟩ }
  | revokeGroupMessage messageId senderId =>
      cases done
      rw [revokeGroupMessage_fst]
      exact .elsewhere _ _ id { PersonalUntouched.refl db with }
  | recordGroupReceipt messageId userId =>
      obtain ⟨-, rfl⟩ := recordGroupReceipt_ok done
      exact .elsewhere _ _ id { PersonalUntouched.refl db with }
  | storeMessage senderId recipientId ciphertext ratchetHeaderEnc =>
      obtain ⟨id', stored⟩ := dropResult_ok done
      obtain ⟨room, row, inserted, -⟩ := storeMessage_ok stored
      obtain ⟨known, rfl, rfl⟩ := Database.insertMessage_ok.mp inserted
      exact .messageStored senderId recipientId ciphertext ratchetHeaderEnc room known.1 known.2
  | deleteMessage messageId owner userId =>
      cases done
      exact .messageDeleted messageId owner userId
  | storeKeyBundle bundle =>
      rcases Database.upsertUserKeyBundle_ok.mp done with ⟨published, rfl⟩ | ⟨absent, known, rfl⟩
      · exact .bundleReplaced bundle published
      · exact .bundleStored bundle absent known
  | addOneTimePrekeys userId prekeys =>
      obtain ⟨known, rfl⟩ := Database.insertOneTimePrekeys_ok.mp done
      exact .prekeysAdded userId prekeys known
  | popOneTimePrekey userId =>
      cases done
      exact .prekeyPopped userId
  | rolledBack drawn =>
      cases done
      exact .elsewhere _ _ id { PersonalUntouched.refl db with sequences := within_advance _ _ }

theorem PersonalDeleted.userIds {userId : UserId} (gone : PersonalDeleted db userId after)
    {id : UserId} : id ∈ after.userIds ↔ id ∈ db.userIds ∧ id ≠ userId := by
  simp only [Database.userIds, gone.users, List.mem_map, List.mem_filter, decide_eq_true_eq]
  constructor
  · rintro ⟨row, ⟨stored, other⟩, rfl⟩
    exact ⟨⟨row, stored, rfl⟩, other⟩
  · rintro ⟨⟨row, stored, rfl⟩, other⟩
    exact ⟨row, ⟨stored, other⟩, rfl⟩

/-! ## Accounts come and go -/

/-- What a call can do to the users: take rows out, or put one in under a new id and
a username nobody has. -/
inductive UsersChange (db after : Database) : Prop where
  | kept (rows : ∀ row ∈ after.users, row ∈ db.users)
      (drawn : db.sequences.users ≤ after.sequences.users)
  | created (row : User) (users : after.users = db.users ++ [row])
      (isNew : row.id = db.sequences.users) (free : row.username ∉ db.users.map User.username)
      (drawn : db.sequences.users ≤ after.sequences.users)

theorem UsersChange.refl (db : Database) : UsersChange db db := .kept (fun _ => id) (le_refl _)

theorem UsersChange.drawn (change : UsersChange db after) :
    db.sequences.users ≤ after.sequences.users := by
  cases change with
  | kept rows drawn => exact drawn
  | created row users isNew free drawn => exact drawn

theorem perform_users (c : Constraints db) {op : Operation} (done : perform db op = .ok after) :
    UsersChange db after := by
  cases perform_personal c done with
  | userCreated username srpSalt srpVerifierEnc totpSecretEnc free =>
      exact .created _ rfl rfl free (le_of_lt (Int.lt_succ _))
  | accountUnknown => exact .refl db
  | accountDeleted userId _ _ gone =>
      refine .kept ?_ (le_of_eq (congrArg Sequences.users gone.sequences.symm))
      rw [gone.users]
      exact fun row => List.mem_of_mem_filter
  | tokenBlocked => exact .kept (fun _ => id) (le_refl _)
  | messageStored => exact .kept (fun _ => id) (le_refl _)
  | messageDeleted => exact .kept (fun _ => id) (le_refl _)
  | bundleReplaced => exact .kept (fun _ => id) (le_refl _)
  | bundleStored => exact .kept (fun _ => id) (le_refl _)
  | prekeysAdded => exact .kept (fun _ => id) (le_refl _)
  | prekeyPopped userId =>
      obtain ⟨rows, popped⟩ := popOneTimePrekey_fst db userId
      rw [popped]
      exact .kept (fun _ => id) (le_refl _)
  | elsewhere _ _ _ same =>
      refine .kept ?_ same.sequences.users
      rw [same.users]
      exact fun _ => id

/-- The id of an account there was and is no more. -/
def Departed (db : Database) (userId : UserId) : Prop :=
  userId ∉ db.userIds ∧ userId < db.sequences.users

/-- **An id is not handed out again**: who is gone stays gone. -/
theorem UsersChange.departed (change : UsersChange db after) {userId : UserId}
    (gone : Departed db userId) : Departed after userId := by
  obtain ⟨absent, before⟩ := gone
  cases change with
  | kept rows drawn =>
      refine ⟨?_, lt_of_lt_of_le before drawn⟩
      intro known
      obtain ⟨row, stored, same⟩ := List.mem_map.mp known
      exact absent (List.mem_map.mpr ⟨row, rows row stored, same⟩)
  | created row users isNew free drawn =>
      refine ⟨?_, lt_of_lt_of_le before drawn⟩
      rw [Database.userIds, users, List.map_append, List.mem_append]
      rintro (known | last)
      · exact absent known
      · rw [List.map_singleton, List.mem_singleton, isNew] at last
        exact absurd last (ne_of_lt before)

theorem departed_perform (c : Constraints db) {op : Operation} (done : perform db op = .ok after)
    {userId : UserId} (gone : Departed db userId) : Departed after userId :=
  (perform_users c done).departed gone

end SecureMsg.Repository
