/-
# Groups.RemoveMember — the contract of `remove_member`

`RemoveMemberContract` is the method's specification when it runs alone in a
fresh session, one field per exit and one for the frame.  The seven exits are
two no-ops, the refusal, the dissolution, the removal with and without supplied
keys, and one that is never taken: after the dissolve check at least two members
remain, so there is always an heir for a leaving creator.
-/
import SecureMsg.Repository.Isolation

namespace SecureMsg.Groups

open SecureMsg.Theory SecureMsg.Store SecureMsg.Repository

set_option autoImplicit false

/-- Everyone may leave; only the creator may remove somebody else. -/
def MayRemove (row : Group) (requesterId userId : UserId) : Prop :=
  requesterId = userId ∨ row.creatorId = requesterId

/-- Nothing of the group is left: no row, no membership, no pending key, no
message, and no receipt of a message it had. -/
structure Dissolved (db : Database) (g : GroupId) (after : Database) : Prop where
  group : g ∉ after.groupIds
  members : ∀ row ∈ after.groupMembers, row.groupId ≠ g
  skdms : ∀ row ∈ after.senderKeyDistributions, row.groupId ≠ g
  messages : ∀ row ∈ after.groupMessages, row.groupId ≠ g
  receipts : ∀ receipt ∈ after.groupMessageReceipts, ∀ msg ∈ db.groupMessages, msg.groupId = g →
    receipt.messageId ≠ msg.id

/-- The group goes on without the member. -/
structure GoesOn (db : Database) (row : Group) (u : UserId) (skdmCiphertexts : Ciphertexts)
    (after : Database) : Prop where
  members : after.membersOf row.id = (db.membersOf row.id).filter fun uid => uid ≠ u
  group : ∃ updated, after.findGroup row.id = some updated ∧ updated.name = row.name ∧
    updated.epoch = row.epoch + 1 ∧
    (row.creatorId ≠ u → updated.creatorId = row.creatorId) ∧
    (row.creatorId = u → after.IsMember row.id updated.creatorId ∧
      ∀ uid, after.IsMember row.id uid → updated.creatorId ≤ uid)
  skdms : (after.senderKeyDistributions.filter fun p => p.groupId = row.id) =
    skdmCiphertexts.entries.map fun entry => ⟨row.id, entry.1, entry.2, row.epoch + 1⟩
  messages : after.groupMessages = db.groupMessages
  receipts : after.groupMessageReceipts = db.groupMessageReceipts

structure RemoveMemberContract (db : Database) (g : GroupId) (r u : UserId)
    (skdmCiphertexts : Ciphertexts) : Prop where
  groupMissing : g ∉ db.groupIds →
    removeMember .fresh db g r u skdmCiphertexts = .ok (db, .groupNotFound)
  notMember : ∀ row ∈ db.groups, row.id = g → MayRemove row r u → ¬ db.IsMember g u →
    removeMember .fresh db g r u skdmCiphertexts = .ok (db, .userNotInGroup)
  refused : ∀ row ∈ db.groups, row.id = g → ¬ MayRemove row r u →
    removeMember .fresh db g r u skdmCiphertexts =
        .error (.permissionError "only the group creator can remove other members") ∧
      commit db (.removeMember g r u skdmCiphertexts) = db
  dissolved : ∀ row ∈ db.groups, row.id = g → MayRemove row r u → db.IsMember g u →
    ((db.membersOf g).filter fun uid => uid ≠ u).length ≤ 1 →
    ∃ after, removeMember .fresh db g r u skdmCiphertexts = .ok (after, .lastMemberLeft) ∧
      Dissolved db g after
  removed : ∀ row ∈ db.groups, row.id = g → MayRemove row r u → db.IsMember g u →
    1 < ((db.membersOf g).filter fun uid => uid ≠ u).length →
    ∃ after, removeMember .fresh db g r u skdmCiphertexts = .ok (after, .removed) ∧
      GoesOn db row u skdmCiphertexts after
  otherGroups : ∀ h, h ≠ g →
    rowsOf (commit db (.removeMember g r u skdmCiphertexts)) h = rowsOf db h
  neverEmpty : ∀ after,
    removeMember .fresh db g r u skdmCiphertexts ≠ .ok (after, .creatorLeftEmpty)

variable {db : Database} {g : GroupId} {r u : UserId} {skdmCiphertexts : Ciphertexts}

theorem dissolved_of_delete (c : Constraints db) {row : Group} (stored : row ∈ db.groups) :
    Dissolved db row.id
      ((db.deleteGroupMember row.id u).deleteGroupsWhere fun other => other.id = row.id) := by
  have left := c.deleteGroupMember row.id u
  have gone : (db.deleteGroupMember row.id u).groupGone (fun other => other.id = row.id) row.id =
      true := Database.groupGone_iff.mpr ⟨row, stored, decide_eq_true rfl, rfl⟩
  constructor
  · intro listed
    obtain ⟨other, kept, same⟩ := List.mem_map.mp listed
    have stays := (List.mem_filter.mp kept).2
    simp [same] at stays
  · intro member kept inGroup
    have stays := (List.mem_filter.mp kept).2
    rw [inGroup, gone] at stays
    cases stays
  · intro pending kept inGroup
    have stays := (List.mem_filter.mp kept).2
    rw [inGroup, gone] at stays
    cases stays
  · intro msg kept inGroup
    have stays := (List.mem_filter.mp kept).2
    dsimp only at stays
    rw [inGroup, gone] at stays
    cases stays
  · intro receipt kept msg inTable inGroup named
    have stays := (List.mem_filter.mp kept).2
    have whole : (db.deleteGroupMember row.id u).groupMessageGone (fun m =>
        (db.deleteGroupMember row.id u).groupGone (fun o => o.id = row.id) m.groupId) msg.id = true :=
      (left.groupMessageGone_eq inTable).trans (inGroup ▸ gone)
    rw [named, whole] at stays
    cases stays

theorem goesOn_of_departure (c : Constraints db) {row : Group} (stored : row ∈ db.groups)
    {transfer : Option UserId}
    (many : 1 < (remaining db row.id u).length)
    (transferred : transfer =
      if row.creatorId = u then (remaining db row.id u).min? else none) :
    GoesOn db row u skdmCiphertexts
      (departure db row.id u transfer row.epoch skdmCiphertexts) := by
  constructor
  case members => exact membersOf_deleteGroupMember
  case messages => rfl
  case receipts => rfl
  case skdms =>
    show ((db.senderKeyDistributions.filter fun p => !decide (p.groupId = row.id)) ++
      skdmRows row.id (row.epoch + 1) skdmCiphertexts).filter _ = _
    have others : (db.senderKeyDistributions.filter fun p => !decide (p.groupId = row.id)).filter
        (fun p => p.groupId = row.id) = [] := by
      rw [List.filter_filter, List.filter_eq_nil_iff]
      intro p _
      by_cases inGroup : p.groupId = row.id
      · simp [inGroup]
      · simp [inGroup]
    have supplied : (skdmRows row.id (row.epoch + 1) skdmCiphertexts).filter
        (fun p => p.groupId = row.id) = skdmRows row.id (row.epoch + 1) skdmCiphertexts :=
      List.filter_eq_self.mpr fun p listed => decide_eq_true (mem_skdmRows listed).1
    rw [List.filter_append, others, supplied]
    rfl
  case group =>
    have found := c.findGroup_eq_some.mpr stored
    refine ⟨departed transfer row, ?_, rfl, rfl, ?_, ?_⟩
    · show (db.updateGroup row.id (departed transfer)).findGroup row.id = _
      rw [findGroup_updateGroup (departed_id transfer), found]
      rfl
    · intro stays
      rw [transferred, if_neg stays]
      rfl
    · intro leaving
      rw [if_pos leaving] at transferred
      cases least : (remaining db row.id u).min? with
      | none =>
          rw [List.min?_eq_none_iff] at least
          rw [least] at many
          cases many
      | some uid =>
          rw [least] at transferred
          subst transferred
          obtain ⟨uidMember, different⟩ := newCreator_some least
          refine ⟨departure_isMember.mpr ⟨uidMember, fun leaver => different leaver.2⟩, ?_⟩
          intro other otherMember
          obtain ⟨before, notLeaver⟩ := departure_isMember.mp otherMember
          exact newCreator_least least other before fun same => notLeaver ⟨rfl, same⟩

theorem removeMember_of_missing (missing : g ∉ db.groupIds) :
    removeMember .fresh db g r u skdmCiphertexts = .ok (db, .groupNotFound) := by
  have notFound : Session.fresh.selectGroup db g = none :=
    Session.selectGroup_eq_none.mpr (Database.findGroup_none.mpr missing)
  rw [removeMember, notFound]

/-- Everything after the lookup, for a stored row. -/
theorem selectGroup_stored (c : Constraints db) {row : Group} (stored : row ∈ db.groups) :
    Session.fresh.selectGroup db row.id = some row := by
  rw [Session.selectGroup_fresh]
  exact c.findGroup_eq_some.mpr stored

theorem mayRemove_iff {row : Group} :
    ¬ (¬ r = u ∧ row.creatorId ≠ r) ↔ MayRemove row r u := by
  unfold MayRemove
  by_cases self : r = u
  · simp [self]
  · simp [self]

/-- The call never ends in an exception once it is permitted and the supplied
recipients exist. -/
theorem removeMember_contract_of_sound (sound : Sound db)
    (known : ∀ uid ∈ skdmCiphertexts.keys, uid ∈ db.userIds) :
    RemoveMemberContract db g r u skdmCiphertexts := by
  have c := sound.constraints
  constructor
  case groupMissing => exact removeMember_of_missing
  case notMember =>
    rintro row stored rfl allowed absent
    rw [removeMember, selectGroup_stored c stored]
    dsimp only
    rw [if_neg (mayRemove_iff.mpr allowed), if_pos absent]
  case refused =>
    rintro row stored rfl refused
    have raises : removeMember .fresh db row.id r u skdmCiphertexts =
        .error (.permissionError "only the group creator can remove other members") := by
      rw [removeMember, selectGroup_stored c stored]
      dsimp only
      rw [if_pos (not_not.mp (mt mayRemove_iff.mp refused))]
    refine ⟨raises, ?_⟩
    have fails : perform db (.removeMember row.id r u skdmCiphertexts) =
        .error (.permissionError "only the group creator can remove other members") := by
      rw [perform, raises]
      rfl
    exact commit_error fails
  case dissolved =>
    rintro row stored rfl allowed member few
    have few : (remaining db row.id u).length ≤ 1 := few
    refine ⟨_, ?_, dissolved_of_delete (u := u) c stored⟩
    rw [removeMember, selectGroup_stored c stored]
    dsimp only
    rw [if_neg (mayRemove_iff.mpr allowed), if_neg (not_not.mpr member),
      membersOf_deleteGroupMember, if_pos few]
  case removed =>
    rintro row stored rfl allowed member many
    have selected := selectGroup_stored c stored
    obtain ⟨after, goes⟩ := removeMember_succeeds c selected allowed member many known
    refine ⟨after, goes, ?_⟩
    cases removeMember_ok goes with
    | removed object row' selected' found authorised _ _ _ transfer transferred =>
        rw [selected] at selected'
        rw [c.findGroup_eq_some.mpr stored] at found
        cases selected'
        cases found
        exact goesOn_of_departure c stored many transferred
  case otherGroups =>
    intro h other
    refine commit_keeps (P := fun left => rowsOf left h = rowsOf db h) rfl ?_
    intro after done
    obtain ⟨exit, removed⟩ := dropResult_ok done
    cases removeMember_ok removed with
    | groupNotFound => rfl
    | userNotInGroup => rfl
    | lastMemberLeft => exact rowsOf_dissolved c other
    | removed => exact rowsOf_departure other
  case neverEmpty =>
    intro after isEmpty
    cases removeMember_ok isEmpty

/-- **`remove_member` meets its contract** in every database the service reaches,
for all ids and every map from existing users. -/
theorem removeMember_contract (ops : List Operation) (g : GroupId) (r u : UserId)
    (skdmCiphertexts : Ciphertexts)
    (known : ∀ uid ∈ skdmCiphertexts.keys, uid ∈ (service.run ops).userIds) :
    RemoveMemberContract (service.run ops) g r u skdmCiphertexts :=
  removeMember_contract_of_sound (reachable ops) known

/-- Three users; the first creates a group and adds the other two. -/
def trio : List Operation :=
  [.createUser "ada" "5a" [1] [2], .createUser "bob" "5b" [3] [4], .createUser "cyd" "5c" [5] [6],
    .createGroup "team" 1 Dict.empty, .addMember 1 1 2 [7], .addMember 1 1 3 [8]]

/-- The creator leaves a group of three and re-keys the other two. -/
theorem removeMember_contract_trio :
    RemoveMemberContract (service.run trio) 1 1 1 ⟨[(2, [9]), (3, [10])], by decide⟩ :=
  removeMember_contract trio 1 1 1 ⟨[(2, [9]), (3, [10])], by decide⟩ (by decide)

end SecureMsg.Groups
