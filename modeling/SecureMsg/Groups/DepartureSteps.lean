/-
# Groups.DepartureSteps — a departure on a database that stays as it is

Row locks keep the others off what a departure has read, so most of what there is
to say about one can be said of a database that does not change under it.
`Deleting` and `Removing` are what holds at each statement of `delete_user` and of
`remove_member`; `departing_next` says what the next statement can be.  A
departure that ends has answered, and left, what its method does (`Answers`), and
holds the row of every user it promotes.
-/
import SecureMsg.Groups.Departures
import SecureMsg.Repository.Operation
import Mathlib.Data.List.Find

namespace SecureMsg.Groups

open SecureMsg.Theory SecureMsg.Store SecureMsg.Repository

set_option autoImplicit false

namespace Departures

/-! ## A deletion on a database that stays as it is -/

variable {db : Database} {userId : UserId}

/-- The rows a deletion goes by: every group of the user, in id order, told right
whether the user is its one member. -/
structure RowsExact (db : Database) (userId : UserId) (rows : List (GroupId × Nat)) : Prop where
  ascending : Ascending Prod.fst rows
  groups : ∀ g, g ∈ rows.map Prod.fst ↔ db.IsMember g userId
  counts : ∀ row ∈ rows, row.2 ≤ 1 ↔ OnlyMember db row.1 userId

theorem rowsExact_memberCounts (c : Constraints db) (userId : UserId) :
    RowsExact db userId (memberCounts db userId) where
  ascending := by
    have sorted : Ascending Group.id (groupsOf db userId) := by
      rw [groupsOf, (c.groups.filter _).orderBy_eq]
      exact c.groups.filter _
    exact List.pairwise_map.mpr sorted
  groups := by
    intro g
    simp only [memberCounts, List.map_map, List.mem_map, mem_groupsOf, Function.comp_apply]
    constructor
    · rintro ⟨row, ⟨-, member⟩, rfl⟩
      exact member
    · intro member
      obtain ⟨row, stored, rfl⟩ := c.member_group member
      exact ⟨row, ⟨stored, member⟩, rfl⟩
  counts := by
    intro row listed
    obtain ⟨group, isGroup, rfl⟩ := List.mem_map.mp listed
    exact few_members_iff c (mem_groupsOf.mp isGroup).2

namespace RowsExact

variable {rows : List (GroupId × Nat)} (exact_ : RowsExact db userId rows)

include exact_

theorem mem_soleOf {g : GroupId} : g ∈ soleOf rows ↔ OnlyMember db g userId := by
  simp only [soleOf, List.mem_map, List.mem_filter, decide_eq_true_eq]
  constructor
  · rintro ⟨row, ⟨listed, few⟩, rfl⟩
    exact (exact_.counts row listed).mp few
  · intro only
    obtain ⟨row, listed, rfl⟩ := List.mem_map.mp ((exact_.groups g).mpr only.1)
    exact ⟨row, ⟨listed, (exact_.counts row listed).mpr only⟩, rfl⟩

theorem mem_multiOf {g : GroupId} :
    g ∈ multiOf rows ↔ db.IsMember g userId ∧ ¬ OnlyMember db g userId := by
  simp only [multiOf, List.mem_map, List.mem_filter, decide_eq_true_eq]
  constructor
  · rintro ⟨row, ⟨listed, many⟩, rfl⟩
    refine ⟨(exact_.groups _).mp (List.mem_map_of_mem listed), fun only => ?_⟩
    have few := (exact_.counts row listed).mpr only
    omega
  · rintro ⟨member, stays⟩
    obtain ⟨row, listed, rfl⟩ := List.mem_map.mp ((exact_.groups g).mpr member)
    have many := mt (exact_.counts row listed).mp stays
    exact ⟨row, ⟨listed, by omega⟩, rfl⟩

end RowsExact

/-- `userId`'s deletion makes `uid` the creator of a group. -/
def PromotesByDeletion (db : Database) (userId uid : UserId) : Prop :=
  ∃ row ∈ db.groups, row.creatorId = userId ∧ newCreator db userId row.id = some uid

theorem transferOf_eq_some (c : Constraints db) {g : GroupId} {uid : UserId} :
    transferOf db userId g = some uid ↔
      ∃ row ∈ db.groups, row.id = g ∧ row.creatorId = userId ∧ newCreator db userId g = some uid := by
  unfold transferOf
  rw [Option.bind_eq_some_iff]
  constructor
  · rintro ⟨row, found, least⟩
    obtain ⟨stored, rfl⟩ := Database.findGroup_some found
    by_cases creator : row.creatorId = userId
    · rw [if_pos creator] at least
      exact ⟨row, stored, rfl, creator, least⟩
    · rw [if_neg creator] at least
      cases least
  · rintro ⟨row, stored, rfl, creator, least⟩
    exact ⟨row, c.findGroup_eq_some.mpr stored, by rw [if_pos creator, least]⟩

/-- The creators the bulk update checks are those it promotes. -/
theorem RowsExact.mem_newCreators {rows : List (GroupId × Nat)} (exact_ : RowsExact db userId rows)
    (c : Constraints db) (creators : CreatorsAreMembers db) {uid : UserId} :
    uid ∈ (multiOf rows).filterMap (transferOf db userId) ↔ PromotesByDeletion db userId uid := by
  simp only [List.mem_filterMap, exact_.mem_multiOf, transferOf_eq_some c]
  constructor
  · rintro ⟨g, -, row, stored, rfl, creator, least⟩
    exact ⟨row, stored, creator, least⟩
  · rintro ⟨row, stored, creator, least⟩
    have member : db.IsMember row.id userId := creator ▸ creators row stored
    refine ⟨row.id, ⟨member, fun only => ?_⟩, row, stored, rfl, creator, least⟩
    rw [newCreator_none.mpr only.2] at least
    cases least

/-! ### Its writes -/

def lockWrites (userId : UserId) (rows : List (GroupId × Nat)) : List Write :=
  .lock (.user userId) :: rows.map fun row => .lock (.group row.1)

def soleWrites (rows : List (GroupId × Nat)) : List Write :=
  if soleOf rows = [] then [] else [.deleteGroups (soleOf rows)]

def multiWrites (db : Database) (userId : UserId) (rows : List (GroupId × Nat)) : List Write :=
  if multiOf rows = [] then [] else [.updateGroups (transfers db userId (multiOf rows))]

def keyShares (creatorIds : List UserId) : List Write :=
  creatorIds.map fun uid => .lock (.userKeyShare uid)

def settlingWrites (db : Database) (userId : UserId) (rows : List (GroupId × Nat)) : List Write :=
  lockWrites userId rows ++ soleWrites rows ++ multiWrites db userId rows ++
    keyShares ((multiOf rows).filterMap (transferOf db userId))

/-- What a deletion writes to its groups depends on the creators it finds. -/
theorem multiWrites_congr {other : Database} {rows : List (GroupId × Nat)}
    (same : ∀ g ∈ multiOf rows, transferOf other userId g = transferOf db userId g) :
    multiWrites other userId rows = multiWrites db userId rows := by
  unfold multiWrites transfers
  rw [List.map_congr_left fun g listed => congrArg (Prod.mk g) (same g listed)]

theorem settlingWrites_congr {other : Database} {rows : List (GroupId × Nat)}
    (same : ∀ g ∈ multiOf rows, transferOf other userId g = transferOf db userId g) :
    settlingWrites other userId rows = settlingWrites db userId rows := by
  unfold settlingWrites
  rw [multiWrites_congr same, List.filterMap_congr same]

theorem view_lock (lock : Lock) (own : List Write) :
    departureProgram.view db (.lock lock :: own) = departureProgram.view db own := rfl

theorem view_lockWrites (rows : List (GroupId × Nat)) :
    departureProgram.view db (lockWrites userId rows) = db := by
  unfold lockWrites
  rw [view_lock]
  induction rows with
  | nil => rfl
  | cons row rows ih => exact ih

theorem view_keyShares (creatorIds : List UserId) :
    departureProgram.view db (keyShares creatorIds) = db := by
  unfold keyShares
  induction creatorIds with
  | nil => rfl
  | cons uid rest ih => exact ih

section Views

variable {rows : List (GroupId × Nat)} (exact_ : RowsExact db userId rows)

include exact_

theorem view_soleWrites (c : Constraints db) :
    departureProgram.view db (soleWrites rows) =
      db.deleteGroupsWhere fun row => decide (OnlyMember db row.id userId) := by
  have picked : ∀ g, g ∈ soleOf rows ↔ g ∈ db.groupIds ∧ OnlyMember db g userId := by
    intro g
    rw [exact_.mem_soleOf]
    exact (and_iff_right_of_imp fun only => (c.member_exists only.1).1).symm
  rw [← soleGroups_deleted picked]
  unfold soleWrites
  by_cases none_ : soleOf rows = []
  · rw [if_pos none_, if_pos none_]
    rfl
  · rw [if_neg none_, if_neg none_]
    rfl

/-- The deletion of the sole-member groups leaves the transfers of the others. -/
theorem transferOf_settled {g : GroupId} (listed : g ∈ multiOf rows) :
    transferOf (db.deleteGroupsWhere fun row => decide (OnlyMember db row.id userId)) userId g =
      transferOf db userId g := by
  have kept := groupGone_onlyMember (exact_.mem_multiOf.mp listed).2
  have found : (db.deleteGroupsWhere fun row => decide (OnlyMember db row.id userId)).findGroup g =
      db.findGroup g := by
    unfold Database.findGroup Database.deleteGroupsWhere
    rw [List.find?_filter]
    refine List.find?_congr fun row stored => ?_
    by_cases same : row.id = g
    · simp [same, (exact_.mem_multiOf.mp listed).2]
    · simp [same]
  unfold transferOf newCreator remaining
  rw [found, membersOf_deleteGroupsWhere kept]

end Views

theorem lookup_transfers (groupIds : List GroupId) (g : GroupId) :
    (transfers db userId groupIds).lookup g =
      if g ∈ groupIds then some (transferOf db userId g) else none := by
  unfold transfers
  induction groupIds with
  | nil => rfl
  | cons id rest ih =>
      by_cases same : g = id
      · subst same
        simp
      · rw [List.map_cons, List.lookup_cons, ih, beq_eq_false_iff_ne.mpr same]
        simp [same]

/-- What the bulk update wrote down is what it did. -/
theorem reassignGroups_write (c : Constraints db) {groupIds : List GroupId} {after : Database}
    (done : reassignGroups db userId groupIds = .ok after) :
    writeDeparture db (.updateGroups (transfers db userId groupIds)) = after := by
  unfold reassignGroups at done
  split at done
  · cases done
  · cases done
    refine congrArg (fun groups => { db with groups := groups }) (List.map_congr_left ?_)
    intro row stored
    unfold handOver
    rw [lookup_transfers]
    by_cases listed : row.id ∈ groupIds
    · simp only [listed, if_true, transferOf, c.findGroup_eq_some.mpr stored, Option.bind_some]
    · simp only [listed, if_false]

/-! ### Its statements -/

/-- A deletion past its first statement: what it holds and what it knows. -/
inductive Going (db : Database) (userId : UserId) : DeletePoint → List Write → Prop where
  | readGroups : Going db userId .readGroups [.lock (.user userId)]
  | lockGroups (locked pending : List (GroupId × Nat))
      (exact_ : RowsExact db userId (locked ++ pending)) :
      Going db userId (.lockGroups locked pending) (lockWrites userId locked)
  | deleteGroups (rows : List (GroupId × Nat)) (exact_ : RowsExact db userId rows) :
      Going db userId (.deleteGroups rows) (lockWrites userId rows)
  | updateGroups (rows : List (GroupId × Nat)) (exact_ : RowsExact db userId rows) :
      Going db userId (.updateGroups (multiOf rows)) (lockWrites userId rows ++ soleWrites rows)
  | checkCreators (rows : List (GroupId × Nat)) (exact_ : RowsExact db userId rows)
      (checked rest : List UserId)
      (all : (multiOf rows).filterMap (transferOf db userId) = checked ++ rest) :
      Going db userId (.checkCreators rest)
        (lockWrites userId rows ++ soleWrites rows ++ multiWrites db userId rows ++
          keyShares checked)
  | deleteUser (rows : List (GroupId × Nat)) (exact_ : RowsExact db userId rows) :
      Going db userId .deleteUser (settlingWrites db userId rows)
  | commit (rows : List (GroupId × Nat)) (exact_ : RowsExact db userId rows) :
      Going db userId .commit (settlingWrites db userId rows ++ [.deleteUser userId])

/-- A deletion at one of its statements. -/
inductive Deleting (db : Database) (userId : UserId) : DeletePoint → List Write → Prop where
  | start : Deleting db userId .start []
  | going (at_ : DeletePoint) (own : List Write) (known : userId ∈ db.userIds)
      (going : Going db userId at_ own) : Deleting db userId at_ own

/-- The lock a statement may have to wait for. -/
def DeletePoint.wants (userId : UserId) : DeletePoint → Option Lock
  | .start => some (.user userId)
  | .lockGroups _ (row :: _) => some (.group row.1)
  | .checkCreators (creatorId :: _) => some (.userKeyShare creatorId)
  | _ => none

/-- What the next statement of a deletion can be. -/
inductive DeleteNext (db : Database) (userId : UserId) (at_ : DeletePoint) (held : List Write) :
    Next → Prop where
  | waits (lock : Lock) (wanted : at_.wants userId = some lock)
      (isBlocked : blocked lock held = true) : DeleteNext db userId at_ held .wait
  | goesOn (next : DeletePoint) (own : List Write) (deleting : Deleting db userId next own) :
      DeleteNext db userId at_ held (.proceed id (.deleteUser userId next) own)
  | commits (last : at_ = .commit) : DeleteNext db userId at_ held (.commit (.returned true))
  | unknown (first : at_ = .start) (absent : userId ∉ db.userIds) :
      DeleteNext db userId at_ held (.rollback (.returned false))

theorem multi_picked (c : Constraints db) {rows : List (GroupId × Nat)}
    (exact_ : RowsExact db userId rows) (g : GroupId) :
    g ∈ multiOf rows ↔ g ∈ db.groupIds ∧ db.IsMember g userId ∧ ¬ OnlyMember db g userId := by
  rw [exact_.mem_multiOf]
  exact (and_iff_right_of_imp fun multi => (c.member_exists multi.1).1).symm

theorem view_soleDeleted (c : Constraints db) {rows : List (GroupId × Nat)}
    (exact_ : RowsExact db userId rows) :
    departureProgram.view db (lockWrites userId rows ++ soleWrites rows) =
      db.deleteGroupsWhere fun row => decide (OnlyMember db row.id userId) := by
  rw [Program.view_append, view_lockWrites, view_soleWrites exact_ c]

theorem view_handedOver (c : Constraints db) {rows : List (GroupId × Nat)}
    (exact_ : RowsExact db userId rows) :
    departureProgram.view db
      (lockWrites userId rows ++ soleWrites rows ++ multiWrites db userId rows) =
      groupsSettled db userId := by
  rw [Program.view_append, view_soleDeleted c exact_]
  have settled := groups_handedOver (multi_picked c exact_)
  unfold multiWrites
  by_cases none_ : multiOf rows = []
  · rw [if_pos none_] at settled ⊢
    exact Except.ok.inj settled
  · rw [if_neg none_] at settled ⊢
    have deleted := c.deleteGroupsWhere fun row => decide (OnlyMember db row.id userId)
    have same : transfers (db.deleteGroupsWhere fun row => decide (OnlyMember db row.id userId))
        userId (multiOf rows) = transfers db userId (multiOf rows) :=
      List.map_congr_left fun g listed => by rw [transferOf_settled exact_ listed]
    rw [← same]
    exact reassignGroups_write deleted settled

theorem view_settlingWrites (c : Constraints db) {rows : List (GroupId × Nat)}
    (exact_ : RowsExact db userId rows) :
    departureProgram.view db (settlingWrites db userId rows) = groupsSettled db userId := by
  rw [settlingWrites, Program.view_append, view_handedOver c exact_, view_keyShares]

theorem PromotesByDeletion.known (c : Constraints db) {uid : UserId}
    (promotes : PromotesByDeletion db userId uid) : uid ∈ db.userIds := by
  obtain ⟨row, -, -, least⟩ := promotes
  exact (c.member_exists (newCreator_some least).1).2

theorem deleting_next (c : Constraints db) (creators : CreatorsAreMembers db) {at_ : DeletePoint}
    {own : List Write} (deleting : Deleting db userId at_ own) (held : List Write) :
    DeleteNext db userId at_ held
      (nextDelete userId at_ own (departureProgram.view db own) held) := by
  cases deleting with
  | start =>
      rw [Program.view_nil]
      simp only [nextDelete]
      by_cases known : userId ∈ db.userIds
      · rw [if_neg (not_not.mpr known)]
        split
        · rename_i isBlocked
          exact .waits _ rfl isBlocked
        · exact .goesOn _ _ (.going _ _ known .readGroups)
      · rw [if_pos known]
        exact .unknown rfl known
  | going _ _ known going =>
      cases going with
      | readGroups =>
          have here : departureProgram.view db [.lock (.user userId)] = db := rfl
          have exact_ := rowsExact_memberCounts c userId
          simp only [nextDelete, here]
          exact .goesOn _ _ (.going _ _ known (.lockGroups [] _ exact_))
      | lockGroups locked pending exact_ =>
          rw [view_lockWrites]
          cases pending with
          | nil =>
              rw [List.append_nil] at exact_
              exact .goesOn _ _ (.going _ _ known (.deleteGroups _ exact_))
          | cons row pending =>
              have listed : row.1 ∈ (locked ++ row :: pending).map Prod.fst := by simp
              have stored := (c.member_exists ((exact_.groups row.1).mp listed)).1
              simp only [nextDelete, stored, not_true_eq_false, if_false]
              split
              · rename_i isBlocked
                exact .waits _ rfl isBlocked
              · rw [List.append_cons] at exact_
                have next := Going.lockGroups (locked ++ [row]) pending exact_
                rw [lockWrites, List.map_append, List.map_singleton] at next
                exact .goesOn _ _ (.going _ _ known next)
      | deleteGroups rows exact_ =>
          exact .goesOn _ _ (.going _ _ known (.updateGroups rows exact_))
      | updateGroups rows exact_ =>
          rw [view_soleDeleted c exact_]
          simp only [nextDelete]
          have settled := groups_handedOver (multi_picked c exact_)
          by_cases none_ : multiOf rows = []
          · have next := Going.deleteUser rows exact_
            rw [settlingWrites, multiWrites, if_pos none_, none_] at next
            rw [if_pos none_]
            have goesOn : DeleteNext db userId (.updateGroups (multiOf rows)) held _ :=
              .goesOn _ _ (.going _ _ known next)
            simpa [keyShares, none_] using goesOn
          · rw [if_neg none_] at settled ⊢
            rw [settled]
            have same : ∀ g ∈ multiOf rows, transferOf (db.deleteGroupsWhere fun row =>
                decide (OnlyMember db row.id userId)) userId g = transferOf db userId g :=
              fun g listed => transferOf_settled exact_ listed
            have next := Going.checkCreators rows exact_ [] _ rfl
            rw [multiWrites, if_neg none_, keyShares, List.map_nil, List.append_nil] at next
            rw [List.filterMap_congr same, transfers,
              List.map_congr_left fun g listed => congrArg (Prod.mk g) (same g listed)]
            exact .goesOn _ _ (.going _ _ known next)
      | checkCreators rows exact_ checked rest all =>
          rw [Program.view_append, view_handedOver c exact_, view_keyShares]
          cases rest with
          | nil =>
              rw [List.append_nil] at all
              have next := Going.deleteUser rows exact_
              rw [settlingWrites, all] at next
              exact .goesOn _ _ (.going _ _ known next)
          | cons creatorId rest =>
              have isNew : creatorId ∈ (multiOf rows).filterMap (transferOf db userId) := by
                rw [all]
                simp
              have stored : creatorId ∈ (groupsSettled db userId).userIds :=
                ((exact_.mem_newCreators c creators).mp isNew).known c
              simp only [nextDelete, stored, not_true_eq_false, if_false]
              split
              · rename_i isBlocked
                exact .waits _ rfl isBlocked
              · have next := Going.checkCreators rows exact_ (checked ++ [creatorId]) rest
                  (by rw [all, List.append_assoc, List.singleton_append])
                rw [keyShares, List.map_append, ← List.append_assoc] at next
                exact .goesOn _ _ (.going _ _ known next)
      | deleteUser rows exact_ => exact .goesOn _ _ (.going _ _ known (.commit rows exact_))
      | commit rows exact_ => exact .commits rfl

/-- **A deletion that commits on the database it started on has done what the method
does.** -/
theorem deleting_commit (c : Constraints db) {own : List Write}
    (deleting : Deleting db userId .commit own) :
    deleteUser db userId = .ok (departureProgram.view db own, true) := by
  cases deleting with
  | going _ _ known going =>
      cases going with
      | commit rows exact_ =>
          rw [Program.view_append, view_settlingWrites c exact_, deleteUser_eq c known]
          rfl

/-! ### What it holds -/

section Held

variable {rows : List (GroupId × Nat)} {lock : Lock}

@[simp] theorem mem_lockWrites : .lock lock ∈ lockWrites userId rows ↔
    lock = .user userId ∨ ∃ g ∈ rows.map Prod.fst, lock = .group g := by
  simp [lockWrites, eq_comm]

@[simp] theorem not_mem_soleWrites : .lock lock ∉ soleWrites rows := by
  unfold soleWrites
  by_cases none_ : soleOf rows = [] <;> simp [none_]

@[simp] theorem not_mem_multiWrites : .lock lock ∉ multiWrites db userId rows := by
  unfold multiWrites
  by_cases none_ : multiOf rows = [] <;> simp [none_]

@[simp] theorem mem_keyShares {creatorIds : List UserId} : .lock lock ∈ keyShares creatorIds ↔
    ∃ uid ∈ creatorIds, lock = .userKeyShare uid := by
  simp [keyShares, eq_comm]

variable {own : List Write} {at_ : DeletePoint}

/-- A deletion past its first statement holds its user's row, and no other user's. -/
theorem Going.holds_user (going : Going db userId at_ own) {uid : UserId} :
    .lock (.user uid) ∈ own ↔ uid = userId := by
  cases going <;> simp [settlingWrites]

/-- The `SELECT` that locks the groups has ended. -/
def DeletePoint.hasLocked : DeletePoint → Bool
  | .start | .readGroups | .lockGroups _ _ => false
  | _ => true

/-- Past its second statement a deletion holds the row of each of its user's groups. -/
theorem Going.holds_groups (going : Going db userId at_ own) (past : at_.hasLocked = true)
    {g : GroupId} (member : db.IsMember g userId) : .lock (.group g) ∈ own := by
  cases going with
  | readGroups => cases past
  | lockGroups locked pending exact_ => cases past
  | deleteGroups rows exact_ => simpa using (exact_.groups g).mpr member
  | updateGroups rows exact_ => simpa using (exact_.groups g).mpr member
  | checkCreators rows exact_ checked rest all => simpa using (exact_.groups g).mpr member
  | deleteUser rows exact_ => simpa [settlingWrites] using (exact_.groups g).mpr member
  | commit rows exact_ => simpa [settlingWrites] using (exact_.groups g).mpr member

end Held

/-! ## A removal on a database that stays as it is -/

namespace Removal

/-- The call, in a session of its own. -/
def perform (removal : Removal) (db : Database) : Except Error (Database × RemoveExit) :=
  removeMember removal.session db removal.groupId removal.requesterId removal.userId
    removal.skdmCiphertexts

/-- The removal finds the group and may go ahead. -/
structure Leaves (removal : Removal) (db : Database) (group : Group) : Prop where
  selected : removal.session.selectGroup db removal.groupId = some group
  authorised : removal.requesterId = removal.userId ∨ group.creatorId = removal.requesterId
  member : db.IsMember removal.groupId removal.userId

/-- The removal makes `uid` the creator in place of another. -/
structure Promotes (removal : Removal) (db : Database) (uid : UserId) : Prop where
  leaves : ∃ group, removal.Leaves db group ∧ group.creatorId = removal.userId
  many : 1 < (remaining db removal.groupId removal.userId).length
  least : newCreator db removal.userId removal.groupId = some uid
  changes : (db.findGroup removal.groupId).map Group.creatorId ≠ some uid

/-- The writes up to the deleted membership. -/
def memberWrites (removal : Removal) : List Write :=
  [.lock (.group removal.groupId), .deleteGroupMember removal.groupId removal.userId]

theorem not_refused {removal : Removal} {db : Database} {group : Group}
    (leaves : removal.Leaves db group) :
    ¬ (removal.requesterId ≠ removal.userId ∧ group.creatorId ≠ removal.requesterId) := by
  rintro ⟨other, notCreator⟩
  rcases leaves.authorised with self | creator
  · exact other self
  · exact notCreator creator

/-- The group row is selected once, whatever the session remembers. -/
theorem Leaves.unique {removal : Removal} {db : Database} {group group' : Group}
    (leaves : removal.Leaves db group)
    (selected : removal.session.selectGroup db removal.groupId = some group') : group' = group :=
  Option.some.inj (selected.symm.trans leaves.selected)

/-- `remove_member` past its checks. -/
theorem perform_leaves {removal : Removal} {db : Database} {group : Group}
    (leaves : removal.Leaves db group) :
    removal.perform db =
      let db := db.deleteGroupMember removal.groupId removal.userId
      if (db.membersOf removal.groupId).length ≤ 1 then
        .ok (db.deleteGroupsWhere fun row => row.id = removal.groupId, .lastMemberLeft)
      else if group.creatorId = removal.userId then
        match (db.membersOf removal.groupId).min? with
        | none => .ok (db.deleteGroupsWhere fun row => row.id = removal.groupId, .creatorLeftEmpty)
        | some newCreator => do
            let db ← purgeAndRekey (db.updateGroup removal.groupId (setCreator newCreator))
              removal.groupId removal.skdmCiphertexts
            return (db, .removed)
      else do
        let db ← purgeAndRekey db removal.groupId removal.skdmCiphertexts
        return (db, .removed) := by
  unfold perform removeMember
  rw [leaves.selected]
  exact (if_neg (not_refused leaves)).trans ((if_neg (not_not.mpr leaves.member)).trans rfl)

end Removal

/-- What holds of a removal from its first write on: it has the group's row, no user's,
and the rows of the creators it has made. -/
structure HoldsGroup (db : Database) (removal : Removal) (own : List Write) : Prop where
  group : .lock (.group removal.groupId) ∈ own
  only : ∀ lock, .lock lock ∈ own →
    lock = .group removal.groupId ∨ ∃ uid, lock = .userKeyShare uid

inductive Removing (db : Database) (removal : Removal) : RemovePoint → List Write → Prop where
  | start : Removing db removal .start []
  | deleteMember (group : Group)
      (selected : removal.session.selectGroup db removal.groupId = some group) :
      Removing db removal (.deleteMember group) [.lock (.group removal.groupId)]
  | deleteIfLast (group : Group) (leaves : removal.Leaves db group) :
      Removing db removal (.deleteIfLast group) removal.memberWrites
  | selectCreator (group : Group) (leaves : removal.Leaves db group)
      (many : 1 < (remaining db removal.groupId removal.userId).length)
      (creator : group.creatorId = removal.userId) :
      Removing db removal (.selectCreator group) removal.memberWrites
  | updateCreator (group : Group) (leaves : removal.Leaves db group)
      (many : 1 < (remaining db removal.groupId removal.userId).length)
      (creator : group.creatorId = removal.userId) (uid : UserId)
      (least : newCreator db removal.userId removal.groupId = some uid) :
      Removing db removal (.updateCreator uid) removal.memberWrites
  | rekey (own : List Write) (holds : HoldsGroup db removal own)
      (shares : ∀ uid, removal.Promotes db uid → .lock (.userKeyShare uid) ∈ own)
      (rest : removal.perform db = do
        let after ← purgeAndRekey (departureProgram.view db own) removal.groupId
          removal.skdmCiphertexts
        return (after, .removed)) : Removing db removal .rekey own
  | commit (exit : RemoveExit) (own : List Write) (holds : HoldsGroup db removal own)
      (shares : ∀ uid, removal.Promotes db uid → .lock (.userKeyShare uid) ∈ own)
      (did : removal.perform db = .ok (departureProgram.view db own, exit)) :
      Removing db removal (.commit exit) own

def RemovePoint.wants (removal : Removal) : RemovePoint → Option Lock
  | .start => some (.group removal.groupId)
  | .updateCreator creatorId => some (.userKeyShare creatorId)
  | _ => none

/-- What the next statement of a removal can be. -/
inductive RemoveNext (db : Database) (removal : Removal) (at_ : RemovePoint)
    (own held : List Write) : Next → Prop where
  | waits (lock : Lock) (wanted : at_.wants removal = some lock)
      (isBlocked : blocked lock held = true)
      (promotes : ∀ uid, lock = .userKeyShare uid → removal.Promotes db uid) :
      RemoveNext db removal at_ own held .wait
  | goesOn (next : RemovePoint) (own' : List Write) (removing : Removing db removal next own') :
      RemoveNext db removal at_ own held (.proceed id (.removeMember removal next) own')
  | commits (exit : RemoveExit) (last : at_ = .commit exit) :
      RemoveNext db removal at_ own held (.commit (.removed exit))
  | returns (exit : RemoveExit) (nobody : ∀ uid, ¬ removal.Promotes db uid)
      (did : removal.perform db = .ok (db, exit)) :
      RemoveNext db removal at_ own held (.rollback (.removed exit))
  | raises (e : Error)
      (shares : ∀ uid, removal.Promotes db uid → .lock (.userKeyShare uid) ∈ own)
      (did : removal.perform db = .error e) :
      RemoveNext db removal at_ own held (.rollback (.raised e))

/-- What the end of `remove_member` wrote down is what it did. -/
theorem purgeAndRekey_write {view after : Database} {groupId : GroupId}
    {skdmCiphertexts : Ciphertexts} (done : purgeAndRekey view groupId skdmCiphertexts = .ok after) :
    departureProgram.view view (rekeyWrites view groupId skdmCiphertexts) = after := by
  cases found : view.findGroup groupId with
  | some row =>
      obtain ⟨-, rfl⟩ := purgeAndRekey_ok found done
      simp only [rekeyWrites, found]
      rfl
  | none =>
      simp only [rekeyWrites, found]
      unfold purgeAndRekey at done
      by_cases some_ : skdmCiphertexts.nonempty
      · have unfound : (view.deleteSkdmsWhere fun row => row.groupId = groupId).findGroup groupId =
            none := found
        simp only [some_, if_true, storeSkdmsUncommitted, unfound] at done
        cases done
      · simp only [some_] at done
        cases done
        exact congrArg (fun table => { Database.updateGroup
          (view.deleteSkdmsWhere fun row => decide (row.groupId = groupId)) groupId
            Repository.bumpEpoch with senderKeyDistributions := table }) (List.append_nil _)

theorem HoldsGroup.append {removal : Removal} {own : List Write}
    (holds : HoldsGroup db removal own) {added : List Write}
    (only : ∀ lock, .lock lock ∈ added → ∃ uid, lock = .userKeyShare uid) :
    HoldsGroup db removal (own ++ added) where
  group := List.mem_append_left _ holds.group
  only := by
    intro lock held
    rcases List.mem_append.mp held with before | new
    · exact holds.only lock before
    · exact Or.inr (only lock new)

theorem holdsGroup_memberWrites (removal : Removal) :
    HoldsGroup db removal removal.memberWrites where
  group := List.mem_cons_self
  only := by
    intro lock held
    simp only [Removal.memberWrites, List.mem_cons, Write.lock.injEq, reduceCtorEq,
      List.not_mem_nil, or_false] at held
    exact Or.inl held

section Removing

variable {removal : Removal}

theorem removing_deleteIfLast {group : Group} (leaves : removal.Leaves db group)
    (held : List Write) :
    RemoveNext db removal (.deleteIfLast group) removal.memberWrites held
      (nextRemove removal (.deleteIfLast group) removal.memberWrites
        (departureProgram.view db removal.memberWrites) held) := by
  have here : departureProgram.view db removal.memberWrites =
      db.deleteGroupMember removal.groupId removal.userId := rfl
  have performs := Removal.perform_leaves leaves
  dsimp only at performs
  rw [membersOf_deleteGroupMember] at performs
  simp only [nextRemove, here, membersOf_deleteGroupMember]
  by_cases few : (remaining db removal.groupId removal.userId).length ≤ 1
  · rw [if_pos few] at performs ⊢
    refine .goesOn _ _ (.commit _ _ ((holdsGroup_memberWrites removal).append ?_) ?_ ?_)
    · simp
    · intro uid promotes
      have many := promotes.many
      omega
    · rw [performs, Program.view_append, here]
      simp [departureProgram, Program.view, writeDeparture]
  · have many : 1 < (remaining db removal.groupId removal.userId).length := by omega
    rw [if_neg few] at performs ⊢
    by_cases creator : group.creatorId = removal.userId
    · rw [if_pos creator]
      exact .goesOn _ _ (.selectCreator group leaves many creator)
    · rw [if_neg creator] at performs ⊢
      refine .goesOn _ _ (.rekey _ (holdsGroup_memberWrites removal) ?_ performs)
      intro uid promotes
      obtain ⟨group', leaves', isCreator⟩ := promotes.leaves
      exact absurd (leaves.unique leaves'.selected ▸ isCreator) creator

theorem removing_updateCreator (c : Constraints db) {group : Group}
    (leaves : removal.Leaves db group)
    (many : 1 < (remaining db removal.groupId removal.userId).length)
    (creator : group.creatorId = removal.userId) {uid : UserId}
    (least : newCreator db removal.userId removal.groupId = some uid) (held : List Write) :
    RemoveNext db removal (.updateCreator uid) removal.memberWrites held
      (nextRemove removal (.updateCreator uid) removal.memberWrites
        (departureProgram.view db removal.memberWrites) held) := by
  have here : departureProgram.view db removal.memberWrites =
      db.deleteGroupMember removal.groupId removal.userId := rfl
  have found : (db.deleteGroupMember removal.groupId removal.userId).findGroup removal.groupId =
      db.findGroup removal.groupId := rfl
  have performs := Removal.perform_leaves leaves
  dsimp only at performs
  have enough : ¬ (remaining db removal.groupId removal.userId).length ≤ 1 := by omega
  have isLeast : (remaining db removal.groupId removal.userId).min? = some uid := least
  rw [membersOf_deleteGroupMember, if_neg enough, if_pos creator, isLeast] at performs
  have known : uid ∈ db.userIds := (c.member_exists (newCreator_some least).1).2
  have known' : uid ∈ (db.deleteGroupMember removal.groupId removal.userId).userIds := known
  simp only [nextRemove, here, found]
  by_cases same : (db.findGroup removal.groupId).map Group.creatorId = some uid
  · rw [if_pos same]
    refine .goesOn _ _ (.rekey _ ((holdsGroup_memberWrites removal).append (by simp)) ?_ performs)
    intro other promotes
    rw [promotes.least] at least
    cases least
    exact absurd same promotes.changes
  · rw [if_neg same]
    by_cases isBlocked : blocked (.userKeyShare uid) held = true
    · rw [if_pos isBlocked]
      refine .waits _ rfl isBlocked fun other isLock => ?_
      cases isLock
      exact ⟨⟨group, leaves, creator⟩, many, least, same⟩
    · rw [if_neg isBlocked, if_neg (not_not.mpr known')]
      refine .goesOn _ _ (.rekey _ ((holdsGroup_memberWrites removal).append ?_) ?_ performs)
      · simp
      · intro other promotes
        rw [promotes.least] at least
        cases least
        simp

theorem removing_next (c : Constraints db) {at_ : RemovePoint} {own : List Write}
    (removing : Removing db removal at_ own) (held : List Write) :
    RemoveNext db removal at_ own held
      (nextRemove removal at_ own (departureProgram.view db own) held) := by
  cases removing with
  | start =>
      rw [Program.view_nil]
      simp only [nextRemove]
      cases selected : removal.session.selectGroup db removal.groupId with
      | none =>
          refine .returns _ (fun uid promotes => ?_) ?_
          · obtain ⟨group, leaves, -⟩ := promotes.leaves
            have found := leaves.selected
            rw [selected] at found
            cases found
          · rw [Removal.perform, removeMember, selected]
      | some group =>
          dsimp only
          split
          · rename_i isBlocked
            exact .waits _ rfl isBlocked fun uid isLock => by cases isLock
          · exact .goesOn _ _ (.deleteMember group selected)
  | deleteMember group selected =>
      have here : departureProgram.view db [.lock (.group removal.groupId)] = db := rfl
      simp only [nextRemove, here]
      by_cases refused : removal.requesterId ≠ removal.userId ∧
          group.creatorId ≠ removal.requesterId
      · rw [if_pos refused]
        refine .raises _ (fun uid promotes => ?_) ?_
        · obtain ⟨group', leaves, -⟩ := promotes.leaves
          have same := leaves.unique selected
          exact absurd (same ▸ refused) (Removal.not_refused leaves)
        · rw [Removal.perform, removeMember, selected]
          exact if_pos refused
      · rw [if_neg refused]
        by_cases member : db.IsMember removal.groupId removal.userId
        · rw [if_neg (not_not.mpr member)]
          have authorised : removal.requesterId = removal.userId ∨
              group.creatorId = removal.requesterId := by
            by_cases self : removal.requesterId = removal.userId
            · exact Or.inl self
            · exact Or.inr (not_not.mp fun other => refused ⟨self, other⟩)
          exact .goesOn _ _ (.deleteIfLast group ⟨selected, authorised, member⟩)
        · rw [if_pos member]
          refine .returns _ (fun uid promotes => ?_) ?_
          · obtain ⟨group', leaves, -⟩ := promotes.leaves
            exact member leaves.member
          · rw [Removal.perform, removeMember, selected]
            dsimp only
            rw [if_neg refused, if_pos member]
  | deleteIfLast group leaves => exact removing_deleteIfLast leaves held
  | selectCreator group leaves many creator =>
      have here : departureProgram.view db removal.memberWrites =
          db.deleteGroupMember removal.groupId removal.userId := rfl
      simp only [nextRemove, here, membersOf_deleteGroupMember]
      cases least : (remaining db removal.groupId removal.userId).min? with
      | none =>
          rw [List.min?_eq_none_iff] at least
          rw [least] at many
          cases many
      | some uid => exact .goesOn _ _ (.updateCreator group leaves many creator uid least)
  | updateCreator group leaves many creator uid least =>
      exact removing_updateCreator c leaves many creator least held
  | rekey _ holds shares rest =>
      simp only [nextRemove]
      cases rekeyed : purgeAndRekey (departureProgram.view db own) removal.groupId
          removal.skdmCiphertexts with
      | error e =>
          rw [rekeyed] at rest
          exact .raises e shares rest
      | ok after =>
          rw [rekeyed] at rest
          refine .goesOn _ _ (.commit _ _ (holds.append ?_) ?_ ?_)
          · simp [rekeyWrites]
          · exact fun uid promotes => List.mem_append_left _ (shares uid promotes)
          · rw [rest, Program.view_append, purgeAndRekey_write rekeyed]
            rfl
  | commit exit _ holds shares did => exact .commits exit rfl

end Removing

/-! ## Either departure -/

/-- The departure makes `uid` the creator of a group in place of another. -/
def Promotes (db : Database) : Call → UserId → Prop
  | .deleteUser userId, uid => PromotesByDeletion db userId uid
  | .removeMember removal, uid => removal.Promotes db uid

/-- The method answers so on `db` and leaves `after`. -/
def Answers (db : Database) : Call → Answer → Database → Prop
  | .deleteUser userId, .returned deleted, after => deleteUser db userId = .ok (after, deleted)
  | .removeMember removal, .removed exit, after => removal.perform db = .ok (after, exit)
  | .removeMember removal, .raised e, after => removal.perform db = .error e ∧ after = db
  | _, _, _ => False

def Point.wants : Point → Option Lock
  | .deleteUser userId at_ => at_.wants userId
  | .removeMember removal at_ => at_.wants removal

inductive Departing (db : Database) : Call → Point → List Write → Prop where
  | deleteUser (userId : UserId) (at_ : DeletePoint) (own : List Write)
      (deleting : Deleting db userId at_ own) :
      Departing db (.deleteUser userId) (.deleteUser userId at_) own
  | removeMember (removal : Removal) (at_ : RemovePoint) (own : List Write)
      (removing : Removing db removal at_ own) :
      Departing db (.removeMember removal) (.removeMember removal at_) own

/-- What a departure that ends holds: the rows of the users it promotes, and for a
deletion those of its user's groups. -/
structure HoldsAtEnd (db : Database) (call : Call) (own : List Write) : Prop where
  shares : ∀ uid, Promotes db call uid → .lock (.userKeyShare uid) ∈ own
  groups : ∀ userId g, call = .deleteUser userId → db.IsMember g userId → .lock (.group g) ∈ own

/-- What the next statement of a departure can be. -/
inductive DepartureNext (db : Database) (call : Call) (point : Point) (own held : List Write) :
    Next → Prop where
  | waits (lock : Lock) (wanted : point.wants = some lock) (isBlocked : blocked lock held = true)
      (promotes : ∀ uid, lock = .userKeyShare uid → Promotes db call uid) :
      DepartureNext db call point own held .wait
  | goesOn (next : Point) (own' : List Write) (departing : Departing db call next own') :
      DepartureNext db call point own held (.proceed id next own')
  | commits (answer : Answer) (did : Answers db call answer (departureProgram.view db own))
      (holds : HoldsAtEnd db call own) : DepartureNext db call point own held (.commit answer)
  | rollsBack (answer : Answer) (did : Answers db call answer db)
      (holds : HoldsAtEnd db call own) :
      DepartureNext db call point own held (.rollback answer)

section Departing

variable {call : Call} {point : Point} {own : List Write}

theorem deleting_holdsAtEnd (c : Constraints db) (creators : CreatorsAreMembers db)
    (deleting : Deleting db userId .commit own) : HoldsAtEnd db (.deleteUser userId) own := by
  cases deleting with
  | going _ _ known going =>
      constructor
      · intro uid promotes
        cases going with
        | commit rows exact_ =>
            have listed := (exact_.mem_newCreators c creators).mpr promotes
            refine List.mem_append_left _ (List.mem_append_right _ ?_)
            exact mem_keyShares.mpr ⟨uid, listed, rfl⟩
      · intro _ g isCall member
        cases isCall
        exact going.holds_groups rfl member

/-- A deletion checks only users it promotes. -/
theorem deleting_promotes (c : Constraints db) (creators : CreatorsAreMembers db)
    {at_ : DeletePoint} (deleting : Deleting db userId at_ own) {uid : UserId}
    (wanted : at_.wants userId = some (.userKeyShare uid)) : PromotesByDeletion db userId uid := by
  cases deleting with
  | start => cases wanted
  | going _ _ known going =>
      cases going with
      | checkCreators rows exact_ checked rest all =>
          cases rest with
          | nil => cases wanted
          | cons creatorId rest =>
              cases wanted
              refine (exact_.mem_newCreators c creators).mp ?_
              rw [all]
              simp
      | lockGroups locked pending exact_ => cases pending <;> cases wanted
      | _ => cases wanted

theorem departing_next (sound : Sound db) (departing : Departing db call point own)
    (held : List Write) :
    DepartureNext db call point own held
      (departureProgram.next point own (departureProgram.view db own) held) := by
  have c := sound.constraints
  have creators := sound.creators
  cases departing with
  | deleteUser userId at_ _ deleting =>
      have next := deleting_next c creators deleting held
      change DepartureNext _ _ _ _ _ (nextDelete userId at_ own _ held)
      generalize nextDelete userId at_ own (departureProgram.view db own) held = action at next
      cases next with
      | waits lock wanted isBlocked =>
          refine .waits lock wanted isBlocked fun uid isLock => ?_
          subst isLock
          exact deleting_promotes c creators deleting wanted
      | goesOn next own' deleting' => exact .goesOn _ _ (.deleteUser _ _ _ deleting')
      | commits last =>
          subst last
          exact .commits _ (deleting_commit c deleting) (deleting_holdsAtEnd c creators deleting)
      | unknown first absent =>
          refine .rollsBack _ (if_pos absent) ⟨?_, ?_⟩
          · rintro uid ⟨row, stored, creator, -⟩
            exact absurd (creator ▸ c.creator_exists stored) absent
          · intro _ g isCall member
            cases isCall
            exact absurd (c.member_exists member).2 absent
  | removeMember removal at_ _ removing =>
      have next := removing_next c removing held
      change DepartureNext _ _ _ _ _ (nextRemove removal at_ own _ held)
      generalize nextRemove removal at_ own (departureProgram.view db own) held = action at next
      cases next with
      | waits lock wanted isBlocked promotes => exact .waits lock wanted isBlocked promotes
      | goesOn next own' removing' => exact .goesOn _ _ (.removeMember _ _ _ removing')
      | commits exit last =>
          subst last
          cases removing with
          | commit _ _ holds shares did =>
              exact .commits _ did ⟨shares, fun _ _ isCall => by cases isCall⟩
      | returns exit nobody did =>
          exact .rollsBack _ did
            ⟨fun uid promotes => absurd promotes (nobody uid), fun _ _ isCall => by cases isCall⟩
      | raises e shares did =>
          exact .rollsBack _ ⟨did, rfl⟩ ⟨shares, fun _ _ isCall => by cases isCall⟩

end Departing

/-! ## What a departure holds -/

section Held

variable {call : Call} {point : Point} {own : List Write}

theorem Departing.holds_user (departing : Departing db call point own) {uid : UserId}
    (held : .lock (.user uid) ∈ own) : call = .deleteUser uid := by
  cases departing with
  | deleteUser userId at_ _ deleting =>
      cases deleting with
      | start => cases held
      | going _ _ known going => rw [going.holds_user.mp held]
  | removeMember removal at_ _ removing =>
      cases removing with
      | start => cases held
      | deleteMember group selected => simp at held
      | rekey _ holds shares rest =>
          rcases holds.only _ held with isGroup | ⟨other, isShare⟩
          · cases isGroup
          · cases isShare
      | commit exit _ holds shares did =>
          rcases holds.only _ held with isGroup | ⟨other, isShare⟩
          · cases isGroup
          · cases isShare
      | _ => simp [Removal.memberWrites] at held

/-- A departure that wants a user's row is that user's deletion, and holds nothing yet. -/
theorem Departing.wants_user (departing : Departing db call point own) {uid : UserId}
    (wanted : point.wants = some (.user uid)) : call = .deleteUser uid ∧ own = [] := by
  cases departing with
  | deleteUser userId at_ _ deleting =>
      cases deleting with
      | start =>
          cases wanted
          exact ⟨rfl, rfl⟩
      | going _ _ known going =>
          cases going with
          | lockGroups locked pending exact_ => cases pending <;> cases wanted
          | checkCreators rows exact_ checked rest all => cases rest <;> cases wanted
          | _ => cases wanted
  | removeMember removal at_ _ removing => cases removing <;> cases wanted

/-- A departure that wants a group's row holds none, or none of a later group. -/
theorem Departing.wants_group (departing : Departing db call point own) {g : GroupId}
    (wanted : point.wants = some (.group g)) {other : GroupId}
    (held : .lock (.group other) ∈ own) : other < g := by
  cases departing with
  | deleteUser userId at_ _ deleting =>
      cases deleting with
      | start => cases held
      | going _ _ known going =>
          cases going with
          | lockGroups locked pending exact_ =>
              cases pending with
              | nil => cases wanted
              | cons row pending =>
                  cases wanted
                  have sorted := List.pairwise_append.mp exact_.ascending
                  obtain ⟨g', listed, isGroup⟩ : ∃ g' ∈ locked.map Prod.fst,
                      Lock.group other = .group g' := by simpa using held
                  cases isGroup
                  obtain ⟨earlier, inLocked, rfl⟩ := List.mem_map.mp listed
                  exact sorted.2.2 earlier inLocked row List.mem_cons_self
          | checkCreators rows exact_ checked rest all => cases rest <;> cases wanted
          | _ => cases wanted
  | removeMember removal at_ _ removing =>
      cases removing with
      | start => cases held
      | _ => cases wanted

/-- A departure that checks a new creator holds the row of a group they are in. -/
theorem Departing.wants_share (sound : Sound db) (departing : Departing db call point own)
    {uid : UserId} (wanted : point.wants = some (.userKeyShare uid)) :
    ∃ g, .lock (.group g) ∈ own ∧ db.IsMember g uid := by
  cases departing with
  | deleteUser userId at_ _ deleting =>
      obtain ⟨row, stored, creator, least⟩ :=
        deleting_promotes sound.constraints sound.creators deleting wanted
      refine ⟨row.id, ?_, (newCreator_some least).1⟩
      have member : db.IsMember row.id userId := creator ▸ sound.creators row stored
      cases deleting with
      | start => cases wanted
      | going _ _ known going =>
          cases at_ with
          | checkCreators newCreators => exact going.holds_groups rfl member
          | lockGroups locked pending => cases pending <;> cases wanted
          | _ => cases wanted
  | removeMember removal at_ _ removing =>
      cases removing with
      | updateCreator group leaves many creator uid least =>
          cases wanted
          exact ⟨removal.groupId, List.mem_cons_self, (newCreator_some least).1⟩
      | _ => cases wanted

end Held

end Departures

end SecureMsg.Groups
