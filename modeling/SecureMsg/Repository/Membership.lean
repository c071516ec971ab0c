/-
# Repository.Membership — which calls take a member out of a group, which let one in

`performIn_isMember` says of every method, for every user and group, whether the
user is a member afterwards: those are out whom the call removed (`removes`), by
name, with the group or with an account, and those are in whom it let in (`joins`).

Only the integrity of the schema is assumed.  A creator need not be a member
here, so deleting an account can take a group along through `creator_id`.
-/
import SecureMsg.Repository.Operation
import SecureMsg.Repository.Ownership

namespace SecureMsg.Repository

open SecureMsg.Theory SecureMsg.Store

set_option autoImplicit false

/-- The call in a session that has loaded groups before; only a removal reads it. -/
def performIn (session : Session) (db : Database) : Operation → Except Error Database
  | .removeMember groupId requesterId userId skdmCiphertexts => do
      let (db, _) ← removeMember session db groupId requesterId userId skdmCiphertexts
      return db
  | op => perform db op

theorem performIn_other {session : Session} {db : Database} {op : Operation}
    (other : ∀ g r u K, op ≠ .removeMember g r u K) : performIn session db op = perform db op := by
  cases op with
  | removeMember g r u K => exact absurd rfl (other g r u K)
  | _ => rfl

def commitIn (session : Session) (db : Database) (op : Operation) : Database :=
  match performIn session db op with
  | .ok after => after
  | .error _ => db

/-- The call takes `userId` out of the group, if `userId` is in: it removes the user,
dissolves the group, deletes the account, or deletes the account of a creator who
is not in the group. -/
def removes (session : Session) (db : Database) (groupId : GroupId) (userId : UserId) :
    Operation → Bool
  | .removeMember g requesterId target skdmCiphertexts =>
      match removeMember session db g requesterId target skdmCiphertexts with
      | .ok (_, .removed) => g = groupId && target = userId
      | .ok (_, .lastMemberLeft) | .ok (_, .creatorLeftEmpty) => g = groupId
      | _ => false
  | .deleteUser target =>
      target = userId || db.groups.any fun row =>
        row.id = groupId && row.creatorId = target && !isMember db groupId target
  | _ => false

/-- The call lets `userId` into the group. -/
def joins (db : Database) (groupId : GroupId) (userId : UserId) : Operation → Bool
  | .createGroup name creatorId initialMembers =>
      match createGroup db name creatorId initialMembers with
      | .ok (_, group) => group.id = groupId && userId ∈ creatorId :: initialMembers.keys
      | .error _ => false
  | .addMember g requesterId target skdmCiphertext =>
      match addMember db g requesterId target skdmCiphertext with
      | .ok _ => g = groupId && target = userId
      | .error _ => false
  | _ => false

variable {session : Session} {db after : Database} {groupId : GroupId} {userId : UserId}

/-! ## Deleting an account -/

/-- The groups that go with an account through `creator_id`. -/
theorem deleteUser_groupGone {target : UserId} (others : ¬ OnlyMember db groupId target) :
    (groupsSettled db target).groupGone (fun row => row.creatorId = target) groupId = true ↔
      ∃ row ∈ db.groups, row.id = groupId ∧ row.creatorId = target ∧
        ¬ db.IsMember groupId target := by
  rw [Database.groupGone_iff]
  constructor
  · rintro ⟨row, stored, creator, rfl⟩
    obtain ⟨old, inTable, stays, rfl⟩ := mem_groupsSettled.mp stored
    obtain ⟨wasCreator, outside⟩ := (withoutUser_isCreator stays).mp (of_decide_eq_true creator)
    exact ⟨old, inTable, (withoutUser_id old).symm, wasCreator, by simpa using outside⟩
  · rintro ⟨old, inTable, rfl, creator, outside⟩
    refine ⟨withoutUser db target old, mem_groupsSettled.mpr ⟨old, inTable, others, rfl⟩, ?_,
      withoutUser_id old⟩
    exact decide_eq_true ((withoutUser_isCreator others).mpr ⟨creator, outside⟩)

theorem deleteUser_isMember (c : Constraints db) {target : UserId}
    (exists_ : target ∈ db.userIds) :
    ((groupsSettled db target).deleteUsersWhere fun row => row.id = target).IsMember groupId userId ↔
      db.IsMember groupId userId ∧ userId ≠ target ∧
        ¬ ∃ row ∈ db.groups, row.id = groupId ∧ row.creatorId = target ∧
          ¬ db.IsMember groupId target := by
  have gone : ∀ id, (groupsSettled db target).userGone (fun row => row.id = target) id =
      decide (id = target) := groupsSettled_userGone exists_
  have settled : (groupsSettled db target).IsMember groupId userId ↔ db.IsMember groupId userId ∧
      db.groupGone (fun row => decide (OnlyMember db row.id target)) groupId = false := by
    simp [Database.IsMember, groupsSettled, Database.deleteGroupsWhere]
  have listed : ((groupsSettled db target).deleteUsersWhere
      fun row => row.id = target).IsMember groupId userId ↔
        (groupsSettled db target).IsMember groupId userId ∧
        (groupsSettled db target).groupGone (fun row => row.creatorId = target) groupId = false ∧
        userId ≠ target := by
    simp [Database.IsMember, Database.deleteUsersWhere, gone]
  rw [listed, settled]
  constructor
  · rintro ⟨⟨member, stays⟩, kept, other⟩
    rw [soleGroup_stays c (c.member_exists member).1] at stays
    rw [← deleteUser_groupGone stays, kept]
    exact ⟨member, other, by simp⟩
  · rintro ⟨member, other, kept⟩
    have stays : ¬ OnlyMember db groupId target := fun only =>
      other ((onlyMember_iff.mp only).2 userId member)
    rw [← deleteUser_groupGone stays, Bool.not_eq_true] at kept
    exact ⟨⟨member, (soleGroup_stays c (c.member_exists member).1).mpr stays⟩, kept, other⟩

/-! ## Every call -/

theorem removeMember_isMember (c : Constraints db) {g : GroupId} {requesterId target : UserId}
    {skdmCiphertexts : Ciphertexts} {exit : RemoveExit}
    (done : removeMember session db g requesterId target skdmCiphertexts = .ok (after, exit)) :
    after.IsMember groupId userId ↔ db.IsMember groupId userId ∧
      removes session db groupId userId (.removeMember g requesterId target skdmCiphertexts) =
        false := by
  simp only [removes, done]
  cases removeMember_ok done with
  | groupNotFound => simp
  | userNotInGroup => simp
  | lastMemberLeft group selected authorised member few =>
      obtain ⟨row, stored, rfl⟩ := c.member_group member
      simp only [dissolved_isMember stored, decide_eq_false_iff_not]
      exact and_congr_right fun _ => not_congr eq_comm
  | removed =>
      rw [departure_isMember, Bool.and_eq_false_iff, decide_eq_false_iff_not,
        decide_eq_false_iff_not, not_and_or]
      exact and_congr_right fun _ => or_congr (not_congr eq_comm) (not_congr eq_comm)

theorem deleteUser_members (c : Constraints db) {target : UserId} {deleted : Bool}
    (done : deleteUser db target = .ok (after, deleted)) :
    after.IsMember groupId userId ↔
      db.IsMember groupId userId ∧ removes session db groupId userId (.deleteUser target) = false := by
  have kept_iff : removes session db groupId userId (.deleteUser target) = false ↔
      userId ≠ target ∧ ¬ ∃ row ∈ db.groups, row.id = groupId ∧ row.creatorId = target ∧
        ¬ db.IsMember groupId target := by
    simp only [removes, isMember, Bool.or_eq_false_iff, decide_eq_false_iff_not, List.any_eq_false,
      Bool.and_eq_true, decide_eq_true_eq, Bool.not_eq_true', not_exists, not_and, not_not]
    exact and_congr (not_congr eq_comm) ⟨fun all row stored => by simpa using all row stored,
      fun all row stored => by simpa using all row stored⟩
  rw [kept_iff]
  rcases deleteUser_cases c done with ⟨absent, rfl, -⟩ | ⟨exists_, rfl, -⟩
  · refine (and_iff_left_of_imp fun member => ⟨?_, ?_⟩).symm
    · rintro rfl
      exact absent (c.member_exists member).2
    · rintro ⟨row, stored, -, rfl, -⟩
      exact absent (c.creator_exists stored)
  · exact deleteUser_isMember c exists_

theorem addMember_isMember {g : GroupId} {requesterId target : UserId} {skdmCiphertext : Bytes}
    (done : addMember db g requesterId target skdmCiphertext = .ok after) :
    after.IsMember groupId userId ↔ db.IsMember groupId userId ∨
      joins db groupId userId (.addMember g requesterId target skdmCiphertext) = true := by
  simp only [joins, done, Bool.and_eq_true, decide_eq_true_eq]
  obtain ⟨row, -, -, -, rfl⟩ := addMember_ok done
  refine mem_groupMembers_added.trans (or_congr_right ?_)
  rw [GroupMember.mk.injEq]
  exact and_congr eq_comm eq_comm

theorem createGroup_isMember (c : Constraints db) {name : String} {creatorId : UserId}
    {initialMembers : Ciphertexts} {group : Group}
    (done : createGroup db name creatorId initialMembers = .ok (after, group)) :
    after.IsMember groupId userId ↔ db.IsMember groupId userId ∨
      joins db groupId userId (.createGroup name creatorId initialMembers) = true := by
  simp only [joins, done, Bool.and_eq_true, decide_eq_true_eq]
  obtain ⟨-, -, -, -, rfl⟩ := createGroup_ok c done
  unfold Database.IsMember
  rw [List.mem_append, ← List.map_cons (f := fun uid => (⟨group.id, uid⟩ : GroupMember)),
    List.mem_map]
  refine or_congr_right ?_
  constructor
  · rintro ⟨uid, listed, same⟩
    cases same
    exact ⟨rfl, listed⟩
  · rintro ⟨rfl, listed⟩
    exact ⟨userId, listed, rfl⟩

/-- A call that neither removes nor lets in. -/
theorem untouched_isMember {op : Operation} (same : after.groupMembers = db.groupMembers)
    (quiet : removes session db groupId userId op = false)
    (nobody : joins db groupId userId op = false) :
    after.IsMember groupId userId ↔
      (db.IsMember groupId userId ∧ removes session db groupId userId op = false) ∨
        joins db groupId userId op = true := by
  simp [Database.IsMember, same, quiet, nobody]

/-- **Who is a member after a call.** -/
theorem performIn_isMember (c : Constraints db) {op : Operation}
    (done : performIn session db op = .ok after) :
    after.IsMember groupId userId ↔
      (db.IsMember groupId userId ∧ removes session db groupId userId op = false) ∨
        joins db groupId userId op = true := by
  cases op with
  | removeMember g requesterId target skdmCiphertexts =>
      obtain ⟨exit, removed⟩ := dropResult_ok done
      rw [removeMember_isMember c removed]
      simp [joins]
  | deleteUser target =>
      obtain ⟨deleted, isDone⟩ := dropResult_ok done
      have left : after.IsMember groupId userId ↔ db.IsMember groupId userId ∧
          removes session db groupId userId (.deleteUser target) = false :=
        deleteUser_members c isDone
      rw [left]
      simp [joins]
  | addMember g requesterId target skdmCiphertext =>
      rw [addMember_isMember done]
      simp [removes]
  | createGroup name creatorId initialMembers =>
      obtain ⟨group, created⟩ := dropResult_ok done
      rw [createGroup_isMember c created]
      simp [removes]
  | createUser username srpSalt srpVerifierEnc totpSecretEnc =>
      obtain ⟨id', created⟩ := dropResult_ok done
      obtain ⟨⟨stored, row⟩, inserted, returned⟩ := bind_eq_ok.mp created
      cases returned
      obtain ⟨-, -, -, rfl⟩ := Database.insertUser_ok.mp inserted
      exact untouched_isMember rfl rfl rfl
  | blockRefreshToken jtiHash expiresAt =>
      obtain ⟨rfl, -⟩ := Database.insertRefreshTokenBlocklist_ok.mp done
      exact untouched_isMember rfl rfl rfl
  | storeSkdms g skdmCiphertexts =>
      obtain ⟨row, -, -, rfl⟩ := storeSkdmsUncommitted_ok done
      exact untouched_isMember rfl rfl rfl
  | popSkdmsForUser target g =>
      cases done
      exact untouched_isMember rfl rfl rfl
  | storeGroupMessage g senderId epoch ciphertext =>
      obtain ⟨msg, stored⟩ := dropResult_ok done
      obtain ⟨-, -, -, -, rfl⟩ := storeGroupMessage_ok stored
      exact untouched_isMember rfl rfl rfl
  | revokeGroupMessage messageId senderId =>
      cases done
      rw [revokeGroupMessage_fst]
      exact untouched_isMember rfl rfl rfl
  | recordGroupReceipt messageId target =>
      obtain ⟨-, rfl⟩ := recordGroupReceipt_ok done
      exact untouched_isMember rfl rfl rfl
  | storeMessage senderId recipientId ciphertext ratchetHeaderEnc =>
      obtain ⟨id', stored⟩ := dropResult_ok done
      obtain ⟨-, row, inserted, -⟩ := storeMessage_ok stored
      obtain ⟨-, -, rfl⟩ := Database.insertMessage_ok.mp inserted
      exact untouched_isMember rfl rfl rfl
  | deleteMessage messageId owner target =>
      cases done
      exact untouched_isMember rfl rfl rfl
  | storeKeyBundle bundle =>
      rcases Database.upsertUserKeyBundle_ok.mp done with ⟨-, rfl⟩ | ⟨-, -, rfl⟩
      · exact untouched_isMember rfl rfl rfl
      · exact untouched_isMember rfl rfl rfl
  | addOneTimePrekeys target prekeys =>
      obtain ⟨-, rfl⟩ := Database.insertOneTimePrekeys_ok.mp done
      exact untouched_isMember rfl rfl rfl
  | popOneTimePrekey target =>
      cases done
      refine untouched_isMember ?_ rfl rfl
      obtain ⟨rows, popped⟩ := popOneTimePrekey_fst db target
      rw [popped]
  | rolledBack drawn =>
      cases done
      exact untouched_isMember rfl rfl rfl

/-- A call that raises neither removes nor lets in. -/
theorem performIn_error (c : Constraints db) {op : Operation} {e : Error}
    (failed : performIn session db op = .error e) :
    removes session db groupId userId op = false ∧ joins db groupId userId op = false := by
  cases op with
  | removeMember g requesterId target skdmCiphertexts =>
      cases removed : removeMember session db g requesterId target skdmCiphertexts with
      | error raised => simp [removes, joins, removed]
      | ok result => simp [performIn, removed, bind, Except.bind, pure, Except.pure] at failed
  | deleteUser target =>
      have succeeds : ∃ result, deleteUser db target = .ok result := by
        by_cases exists_ : target ∈ db.userIds
        · exact ⟨_, deleteUser_eq c exists_⟩
        · exact ⟨_, if_pos exists_⟩
      obtain ⟨result, done⟩ := succeeds
      simp [performIn, perform, done, bind, Except.bind, pure, Except.pure] at failed
  | addMember g requesterId target skdmCiphertext =>
      have refused : addMember db g requesterId target skdmCiphertext = .error e := failed
      simp [removes, joins, refused]
  | createGroup name creatorId initialMembers =>
      cases created : createGroup db name creatorId initialMembers with
      | error raised => simp [removes, joins, created]
      | ok result => simp [performIn, perform, created, bind, Except.bind, pure, Except.pure] at failed
  | _ => exact ⟨rfl, rfl⟩

theorem commitIn_isMember (c : Constraints db) (op : Operation) :
    (commitIn session db op).IsMember groupId userId ↔
      (db.IsMember groupId userId ∧ removes session db groupId userId op = false) ∨
        joins db groupId userId op = true := by
  unfold commitIn
  cases done : performIn session db op with
  | ok after => exact performIn_isMember c done
  | error e =>
      have same : removes session db groupId userId op = false ∧
          joins db groupId userId op = false := performIn_error c done
      simp [same.1, same.2]

theorem commitIn_constraints (c : Constraints db) (op : Operation) :
    Constraints (commitIn session db op) := by
  unfold commitIn
  cases done : performIn session db op with
  | error e => exact c
  | ok after =>
      cases op with
      | removeMember g requesterId target skdmCiphertexts =>
          obtain ⟨exit, removed⟩ := dropResult_ok done
          exact removeMember_constraints c removed
      | _ =>
          rw [performIn_other (by simp)] at done
          exact perform_constraints c done

/-- A session that has loaded nothing is the one the service opens. -/
theorem commitIn_fresh (db : Database) (op : Operation) : commitIn .fresh db op = commit db op := by
  cases op <;> rfl

end SecureMsg.Repository
