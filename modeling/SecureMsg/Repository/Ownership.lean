/-
# Repository.Ownership — a group's creator is one of its members

`CreatorsAreMembers` is kept by creating a group, adding a member and deleting
an account.  `remove_member` keeps it *exactly* when the `Group` object it reads
is not stale in one particular way (`StaleCreator`): the leaver is the stored
creator, but not the creator of the object
(`removeMember_creators`).  With a fresh session that cannot happen.
-/
import SecureMsg.Repository.User

namespace SecureMsg.Repository

open SecureMsg.Theory SecureMsg.Store

set_option autoImplicit false

variable {db after : Database} {groupId : GroupId} {requesterId userId : UserId}
  {skdmCiphertexts : Ciphertexts}

/-- More members and rewritten rows that keep their creator. -/
theorem CreatorsAreMembers.grow (creators : CreatorsAreMembers db)
    (members : ∀ row ∈ db.groupMembers, row ∈ after.groupMembers)
    (rows : ∀ row ∈ after.groups, (∃ old ∈ db.groups, row.id = old.id ∧
      row.creatorId = old.creatorId) ∨ after.IsMember row.id row.creatorId) :
    CreatorsAreMembers after := by
  intro row stored
  rcases rows row stored with ⟨old, inTable, sameId, sameCreator⟩ | member
  · have member := creators old inTable
    unfold Database.IsMember
    rw [sameId, sameCreator]
    exact members _ member
  · exact member

theorem updateGroup_sameCreator {f : Group → Group} (keepsId : ∀ row, (f row).id = row.id)
    (keepsCreator : ∀ row, (f row).creatorId = row.creatorId) {row : Group}
    (stored : row ∈ (db.updateGroup groupId f).groups) :
    ∃ old ∈ db.groups, row.id = old.id ∧ row.creatorId = old.creatorId := by
  obtain ⟨old, inTable, rfl⟩ := Database.mem_updateGroup.mp stored
  refine ⟨old, inTable, ?_⟩
  by_cases hit : old.id = groupId
  · rw [if_pos hit]
    exact ⟨keepsId old, keepsCreator old⟩
  · rw [if_neg hit]
    exact ⟨rfl, rfl⟩

theorem createGroup_creators (c : Constraints db) (creators : CreatorsAreMembers db)
    {name : String} {creatorId : UserId} {initialMembers : Ciphertexts} {row : Group}
    (done : createGroup db name creatorId initialMembers = .ok (after, row)) :
    CreatorsAreMembers after := by
  obtain ⟨-, -, -, isRow, rfl⟩ := createGroup_ok c done
  refine creators.grow (fun _ stored => List.mem_append_left _ stored) ?_
  intro other stored
  rcases List.mem_append.mp stored with old | new
  · exact Or.inl ⟨other, old, rfl, rfl⟩
  · right
    rw [List.mem_singleton.mp new]
    have creatorRow : (⟨row.id, row.creatorId⟩ : GroupMember) = ⟨row.id, creatorId⟩ := by rw [isRow]
    show (⟨row.id, row.creatorId⟩ : GroupMember) ∈ db.groupMembers ++ _
    rw [creatorRow]
    exact List.mem_append_right _ List.mem_cons_self

theorem addMember_creators (creators : CreatorsAreMembers db) {skdmCiphertext : Bytes}
    (done : addMember db groupId requesterId userId skdmCiphertext = .ok after) :
    CreatorsAreMembers after := by
  obtain ⟨row, -, -, -, rfl⟩ := addMember_ok done
  refine creators.grow ?_ ?_
  · intro member stored
    dsimp only
    by_cases already : db.IsMember groupId userId
    · rw [if_pos already]
      exact stored
    · rw [if_neg already]
      exact List.mem_append_left _ stored
  · intro other stored
    exact Or.inl (updateGroup_sameCreator bumpEpoch_id bumpEpoch_creatorId stored)

theorem storeSkdms_creators (creators : CreatorsAreMembers db)
    (done : storeSkdms db groupId skdmCiphertexts = .ok after) : CreatorsAreMembers after := by
  obtain ⟨row, -, -, rfl⟩ := storeSkdmsUncommitted_ok done
  refine creators.grow (fun _ stored => stored) ?_
  intro other stored
  exact Or.inl (updateGroup_sameCreator bumpEpoch_id bumpEpoch_creatorId stored)

theorem deleteUser_creators (c : Constraints db) (creators : CreatorsAreMembers db)
    {deleted : Bool} (done : deleteUser db userId = .ok (after, deleted)) :
    CreatorsAreMembers after := by
  rcases deleteUser_ok c creators done with ⟨-, rfl, -⟩ | ⟨-, -, gone⟩
  · exact creators
  · intro row stored
    obtain ⟨old, inTable, stays, rfl⟩ := (gone.groups row).mp stored
    have creatorMember := creators old inTable
    have othersStay : ∀ uid, db.IsMember old.id uid → uid ≠ userId → after.IsMember old.id uid :=
      fun uid member different => (gone.groupMembers ⟨old.id, uid⟩).mpr ⟨member, different⟩
    rw [withoutUser_id]
    unfold withoutUser
    by_cases member : db.IsMember old.id userId
    · rw [if_pos member]
      by_cases creator : old.creatorId = userId
      · cases least : newCreator db userId old.id with
        | none => exact absurd ⟨member, newCreator_none.mp least⟩ stays
        | some uid =>
            obtain ⟨uidMember, different⟩ := newCreator_some least
            simpa [handedOver, departed, creator, least] using othersStay uid uidMember different
      · simpa [handedOver, departed, creator] using othersStay _ creatorMember creator
    · rw [if_neg member]
      have different : old.creatorId ≠ userId := fun same => member (same ▸ creatorMember)
      exact othersStay _ creatorMember different

/-! ## Removal under a possibly stale object -/

/-- A removal that goes through while the session's object still names an earlier
creator, although the leaver is the creator by now. -/
def StaleCreator (session : Session) (db : Database) (groupId : GroupId)
    (requesterId userId : UserId) (skdmCiphertexts : Ciphertexts) : Prop :=
  ∃ object stored, session.selectGroup db groupId = some object ∧
    db.findGroup groupId = some stored ∧
    stored.creatorId = userId ∧ object.creatorId ≠ userId ∧
    (requesterId = userId ∨ object.creatorId = requesterId) ∧
    1 < (remaining db groupId userId).length ∧
    ∀ uid ∈ skdmCiphertexts.keys, uid ∈ db.userIds

theorem departure_isMember {transfer : Option UserId} {epoch : Int} {g : GroupId} {uid : UserId} :
    (departure db groupId userId transfer epoch skdmCiphertexts).IsMember g uid ↔
      db.IsMember g uid ∧ ¬ (g = groupId ∧ uid = userId) := by
  unfold Database.IsMember departure Database.deleteGroupMember
  rw [List.mem_filter, decide_eq_true_eq, Ne, GroupMember.mk.injEq]

theorem mem_departure_groups {transfer : Option UserId} {epoch : Int} {row : Group} :
    row ∈ (departure db groupId userId transfer epoch skdmCiphertexts).groups ↔
      ∃ old ∈ db.groups, (if old.id = groupId then departed transfer old else old) = row :=
  Database.mem_updateGroup

/-- A removal that keeps two members keeps the creators members unless the leaver
is the stored creator and nobody was put in their place. -/
theorem departure_creators (c : Constraints db) (creators : CreatorsAreMembers db)
    {stored : Group} {transfer : Option UserId} (found : db.findGroup groupId = some stored)
    (heir : ∀ uid, transfer = some uid → uid ∈ remaining db groupId userId) :
    CreatorsAreMembers (departure db groupId userId transfer stored.epoch skdmCiphertexts) ↔
      ¬ (stored.creatorId = userId ∧ transfer = none) := by
  obtain ⟨inTable, sameId⟩ := Database.findGroup_some found
  constructor
  · rintro keeps ⟨isCreator, none_⟩
    subst none_
    have row : departed none stored ∈
        (departure db groupId userId none stored.epoch skdmCiphertexts).groups :=
      mem_departure_groups.mpr ⟨stored, inTable, if_pos sameId⟩
    have member := keeps _ row
    rw [departure_isMember] at member
    exact member.2 ⟨sameId, isCreator⟩
  · intro notStranded row listed
    obtain ⟨old, oldStored, rfl⟩ := mem_departure_groups.mp listed
    rw [departure_isMember]
    have creatorMember := creators old oldStored
    by_cases hit : old.id = groupId
    · have same : old = stored := c.groups.unique oldStored inTable (hit.trans sameId.symm)
      subst same
      rw [if_pos hit]
      cases transfer with
      | none =>
          refine ⟨creatorMember, ?_⟩
          rintro ⟨-, isCreator⟩
          exact notStranded ⟨isCreator, rfl⟩
      | some uid =>
          obtain ⟨member, different⟩ := mem_remaining.mp (heir uid rfl)
          rw [← hit] at member
          exact ⟨member, fun leaver => different leaver.2⟩
    · rw [if_neg hit]
      exact ⟨creatorMember, fun leaver => hit leaver.1⟩

theorem transfer_remaining {object : Group} {transfer : Option UserId}
    (transferred : transfer =
      if object.creatorId = userId then (remaining db groupId userId).min? else none) :
    ∀ uid, transfer = some uid → uid ∈ remaining db groupId userId := by
  intro uid isTransfer
  rw [isTransfer] at transferred
  by_cases leaving : object.creatorId = userId
  · rw [if_pos leaving] at transferred
    exact List.min?_mem transferred.symm
  · rw [if_neg leaving] at transferred
    cases transferred

/-- The members a dissolution leaves are those of the other groups. -/
theorem dissolved_isMember {row : Group} (stored : row ∈ db.groups)
    {uid : UserId} {h : GroupId} :
    ((db.deleteGroupMember row.id userId).deleteGroupsWhere fun r => r.id = row.id).IsMember h uid ↔
      db.IsMember h uid ∧ h ≠ row.id := by
  have gone : ∀ g, (db.deleteGroupMember row.id userId).groupGone (fun r => decide (r.id = row.id)) g =
      decide (g = row.id) := by
    intro g
    rw [Bool.eq_iff_iff, Database.groupGone_iff, decide_eq_true_eq]
    constructor
    · rintro ⟨other, -, chosen, rfl⟩
      exact of_decide_eq_true chosen
    · rintro rfl
      exact ⟨row, stored, decide_eq_true rfl, rfl⟩
  unfold Database.IsMember
  show _ ∈ (db.groupMembers.filter _).filter _ ↔ _
  rw [List.mem_filter, List.mem_filter, gone]
  by_cases same : h = row.id
  · simp [same]
  · simp [same]

/-- A dissolved group takes its row with it. -/
theorem dissolve_creators (creators : CreatorsAreMembers db) {row : Group}
    (stored : row ∈ db.groups) :
    CreatorsAreMembers
      ((db.deleteGroupMember row.id userId).deleteGroupsWhere fun other => other.id = row.id) := by
  intro kept listed
  obtain ⟨inTable, stays⟩ := List.mem_filter.mp listed
  have other : kept.id ≠ row.id := by simpa using stays
  exact (dissolved_isMember stored).mpr ⟨creators kept inTable, other⟩

/-- **Exactly a stale creator breaks ownership**, whatever the session holds. -/
theorem removeMember_creators (c : Constraints db) (creators : CreatorsAreMembers db)
    {session : Session} {exit : RemoveExit}
    (done : removeMember session db groupId requesterId userId skdmCiphertexts =
      .ok (after, exit)) :
    CreatorsAreMembers after ↔
      ¬ StaleCreator session db groupId requesterId userId skdmCiphertexts := by
  cases removeMember_ok done with
  | groupNotFound absent =>
      refine iff_of_true creators ?_
      rintro ⟨object, stored, -, found, -⟩
      rw [absent] at found
      cases found
  | userNotInGroup object selected authorised absent =>
      refine iff_of_true creators ?_
      rintro ⟨object', stored, -, found, rfl, -⟩
      obtain ⟨inTable, rfl⟩ := Database.findGroup_some found
      exact absent (creators stored inTable)
  | lastMemberLeft object selected authorised member few =>
      obtain ⟨stored, found, -⟩ := selectGroup_some selected
      obtain ⟨inTable, rfl⟩ := Database.findGroup_some found
      refine iff_of_true (dissolve_creators creators inTable) ?_
      rintro ⟨object', stored, -, -, -, -, -, many, -⟩
      omega
  | removed object stored selected found authorised member many known transfer transferred =>
      rw [departure_creators c creators found (transfer_remaining transferred)]
      refine not_congr ?_
      have enough : (remaining db groupId userId).min? ≠ none := by
        rw [Ne, List.min?_eq_none_iff]
        intro empty
        rw [empty] at many
        cases many
      constructor
      · rintro ⟨isCreator, none_⟩
        refine ⟨object, stored, selected, found, isCreator, ?_, authorised, many, known⟩
        intro leaving
        rw [transferred, if_pos leaving] at none_
        exact enough none_
      · rintro ⟨object', stored', selected', found', isCreator, notCreator, -⟩
        rw [selected] at selected'
        rw [found] at found'
        cases selected'
        cases found'
        rw [transferred, if_neg notCreator]
        exact ⟨isCreator, rfl⟩

/-- A fresh session reads the stored row, so it is never stale. -/
theorem not_staleCreator_fresh :
    ¬ StaleCreator Session.fresh db groupId requesterId userId skdmCiphertexts := by
  rintro ⟨object, stored, selected, found, isCreator, notCreator, -⟩
  rw [Session.selectGroup_fresh, found] at selected
  cases selected
  exact notCreator isCreator

end SecureMsg.Repository
