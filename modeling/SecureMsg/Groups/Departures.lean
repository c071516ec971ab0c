/-
# Groups.Departures — `remove_member` and `delete_user`, statement by statement

Each of the two methods is one transaction that takes row locks as it goes and
keeps them until it ends:

* `delete_user` locks its `users` row, then the `groups` rows it is a member of,
  in id order;
* `remove_member` locks the `groups` row;
* either, where it makes another user the creator of a group, takes the lock of
  the foreign-key check on that user's row, which a `FOR UPDATE` excludes.

A statement that waits for a `groups` row reads the row again when it gets it;
the member counts beside it are those of the snapshot the statement began with,
and every later statement starts from a new snapshot.

`departures_compatible`: no two open departures ever hold conflicting locks.
-/
import SecureMsg.Theory.Locks
import SecureMsg.Repository.User
import Mathlib.Data.Prod.Lex

namespace SecureMsg.Groups

open SecureMsg.Theory SecureMsg.Store SecureMsg.Repository

set_option autoImplicit false

namespace Departures

/-! ## Row locks -/

inductive Lock where
  /-- `FOR UPDATE` on a `users` row. -/
  | user (id : UserId)
  /-- `FOR KEY SHARE` on a `users` row: the check of `groups.creator_id`. -/
  | userKeyShare (id : UserId)
  /-- `FOR UPDATE` on a `groups` row. -/
  | group (id : GroupId)
  deriving DecidableEq, Repr

def Lock.conflicts : Lock → Lock → Bool
  | .user a, .user b => a = b
  | .user a, .userKeyShare b => a = b
  | .userKeyShare a, .user b => a = b
  | .group a, .group b => a = b
  | _, _ => false

inductive Write where
  | lock (lock : Lock)
  | deleteGroups (groupIds : List GroupId)
  /-- The rows of the bulk `UPDATE groups`, with the new creator where it is another. -/
  | updateGroups (transfers : List (GroupId × Option UserId))
  | deleteUser (userId : UserId)
  | deleteGroupMember (groupId : GroupId) (userId : UserId)
  | setCreator (groupId : GroupId) (creatorId : UserId)
  | deleteSkdms (groupId : GroupId)
  | bumpEpoch (groupId : GroupId)
  | insertSkdms (rows : List SenderKeyDistribution)
  deriving DecidableEq, Repr

def handOver (transfers : List (GroupId × Option UserId)) (row : Group) : Group :=
  match transfers.lookup row.id with
  | some transfer => departed transfer row
  | none => row

def writeDeparture (db : Database) : Write → Database
  | .lock _ => db
  | .deleteGroups groupIds => db.deleteGroupsWhere fun row => row.id ∈ groupIds
  | .updateGroups transfers => { db with groups := db.groups.map (handOver transfers) }
  | .deleteUser userId => db.deleteUsersWhere fun row => row.id = userId
  | .deleteGroupMember groupId userId => db.deleteGroupMember groupId userId
  | .setCreator groupId creatorId => db.updateGroup groupId (setCreator creatorId)
  | .deleteSkdms groupId => db.deleteSkdmsWhere fun row => row.groupId = groupId
  | .bumpEpoch groupId => db.updateGroup groupId Repository.bumpEpoch
  | .insertSkdms rows =>
      { db with senderKeyDistributions := db.senderKeyDistributions ++ rows }

/-- Another session's write holds the row. -/
def blocked (lock : Lock) (held : List Write) : Bool :=
  held.any fun
    | .lock other => lock.conflicts other
    | _ => false

/-! ## The statements -/

inductive DeletePoint where
  /-- Before `SELECT ... FROM users ... FOR UPDATE`. -/
  | start
  /-- Before the `SELECT` of the groups and their member counts. -/
  | readGroups
  /-- In that `SELECT`: its rows so far, and those of its snapshot still to be locked. -/
  | lockGroups (locked pending : List (GroupId × Nat))
  | deleteGroups (rows : List (GroupId × Nat))
  | updateGroups (multiMemberIds : List GroupId)
  /-- In that `UPDATE`: the new creators whose rows are still to be checked. -/
  | checkCreators (newCreators : List UserId)
  | deleteUser
  | commit
  deriving DecidableEq, Repr

/-- The arguments of `remove_member` and the session it runs in. -/
structure Removal where
  session : Repository.Session
  groupId : GroupId
  requesterId : UserId
  userId : UserId
  skdmCiphertexts : Ciphertexts
  deriving DecidableEq

inductive RemovePoint where
  /-- Before `SELECT ... FROM groups ... FOR UPDATE`. -/
  | start
  | deleteMember (group : Group)
  | deleteIfLast (group : Group)
  | selectCreator (group : Group)
  | updateCreator (newCreator : UserId)
  /-- Before the purge of the pending sender keys. -/
  | rekey
  | commit (exit : RemoveExit)
  deriving DecidableEq, Repr

inductive Call where
  | deleteUser (userId : UserId)
  | removeMember (removal : Removal)
  deriving DecidableEq

inductive Point where
  | deleteUser (userId : UserId) (point : DeletePoint)
  | removeMember (removal : Removal) (point : RemovePoint)
  deriving DecidableEq

/-- What the method returned or raised. -/
inductive Answer where
  | returned (deleted : Bool)
  | removed (exit : RemoveExit)
  | raised (e : Error)
  deriving DecidableEq, Repr

abbrev Next := Action Database Point Write Answer

/-- `sole_member_ids`, of rows read before. -/
def soleOf (rows : List (GroupId × Nat)) : List GroupId :=
  (rows.filter fun r => r.2 ≤ 1).map Prod.fst

/-- `multi_member_ids`, of rows read before. -/
def multiOf (rows : List (GroupId × Nat)) : List GroupId :=
  (rows.filter fun r => 1 < r.2).map Prod.fst

/-- The new creator of a group the user leaves, where the user was its creator. -/
def transferOf (db : Database) (userId : UserId) (groupId : GroupId) : Option UserId :=
  (db.findGroup groupId).bind fun row =>
    if row.creatorId = userId then newCreator db userId groupId else none

def transfers (db : Database) (userId : UserId) (groupIds : List GroupId) :
    List (GroupId × Option UserId) :=
  groupIds.map fun groupId => (groupId, transferOf db userId groupId)

def nextDelete (userId : UserId) (point : DeletePoint) (own : List Write) (view : Database)
    (held : List Write) : Next :=
  match point with
  | .start =>
      if userId ∉ view.userIds then .rollback (.returned false)
      else if blocked (.user userId) held then .wait
      else .proceed id (.deleteUser userId .readGroups) (own ++ [.lock (.user userId)])
  | .readGroups =>
      .proceed id (.deleteUser userId (.lockGroups [] (memberCounts view userId))) own
  | .lockGroups locked (row :: pending) =>
      -- a row deleted while the statement waited for it is no row of its result
      if row.1 ∉ view.groupIds then .proceed id (.deleteUser userId (.lockGroups locked pending)) own
      else if blocked (.group row.1) held then .wait
      else .proceed id (.deleteUser userId (.lockGroups (locked ++ [row]) pending))
        (own ++ [.lock (.group row.1)])
  | .lockGroups locked [] => .proceed id (.deleteUser userId (.deleteGroups locked)) own
  | .deleteGroups rows =>
      .proceed id (.deleteUser userId (.updateGroups (multiOf rows)))
        (own ++ if soleOf rows = [] then [] else [.deleteGroups (soleOf rows)])
  | .updateGroups groupIds =>
      if groupIds = [] then .proceed id (.deleteUser userId .deleteUser) own
      else match reassignGroups view userId groupIds with
        | .error e => .rollback (.raised e)
        | .ok _ =>
            .proceed id
              (.deleteUser userId (.checkCreators (groupIds.filterMap (transferOf view userId))))
              (own ++ [.updateGroups (transfers view userId groupIds)])
  | .checkCreators (creatorId :: rest) =>
      if blocked (.userKeyShare creatorId) held then .wait
      else if creatorId ∉ view.userIds then .rollback (.raised (.integrityError .foreignKey))
      else .proceed id (.deleteUser userId (.checkCreators rest))
        (own ++ [.lock (.userKeyShare creatorId)])
  | .checkCreators [] => .proceed id (.deleteUser userId .deleteUser) own
  | .deleteUser => .proceed id (.deleteUser userId .commit) (own ++ [.deleteUser userId])
  | .commit => .commit (.returned true)

/-- The rows `remove_member` purges and stores at its end. -/
def rekeyWrites (view : Database) (groupId : GroupId) (skdmCiphertexts : Ciphertexts) :
    List Write :=
  [.deleteSkdms groupId, .bumpEpoch groupId,
    .insertSkdms ((view.findGroup groupId).elim [] fun row =>
      skdmRows groupId (row.epoch + 1) skdmCiphertexts)]

def nextRemove (removal : Removal) (point : RemovePoint) (own : List Write) (view : Database)
    (held : List Write) : Next :=
  match point with
  | .start =>
      match removal.session.selectGroup view removal.groupId with
      | none => .rollback (.removed .groupNotFound)
      | some group =>
          if blocked (.group removal.groupId) held then .wait
          else .proceed id (.removeMember removal (.deleteMember group))
            (own ++ [.lock (.group removal.groupId)])
  | .deleteMember group =>
      if removal.requesterId ≠ removal.userId ∧ group.creatorId ≠ removal.requesterId then
        .rollback (.raised (.permissionError "only the group creator can remove other members"))
      else if ¬ view.IsMember removal.groupId removal.userId then
        .rollback (.removed .userNotInGroup)
      else .proceed id (.removeMember removal (.deleteIfLast group))
        (own ++ [.deleteGroupMember removal.groupId removal.userId])
  | .deleteIfLast group =>
      if (view.membersOf removal.groupId).length ≤ 1 then
        .proceed id (.removeMember removal (.commit .lastMemberLeft))
          (own ++ [.deleteGroups [removal.groupId]])
      else if group.creatorId = removal.userId then
        .proceed id (.removeMember removal (.selectCreator group)) own
      else .proceed id (.removeMember removal .rekey) own
  | .selectCreator _ =>
      match (view.membersOf removal.groupId).min? with
      | none => .proceed id (.removeMember removal (.commit .creatorLeftEmpty))
          (own ++ [.deleteGroups [removal.groupId]])
      | some creatorId => .proceed id (.removeMember removal (.updateCreator creatorId)) own
  | .updateCreator creatorId =>
      -- a `creator_id` that stays as it is is not checked
      if (view.findGroup removal.groupId).map Group.creatorId = some creatorId then
        .proceed id (.removeMember removal .rekey) (own ++ [.setCreator removal.groupId creatorId])
      else if blocked (.userKeyShare creatorId) held then .wait
      else if creatorId ∉ view.userIds then .rollback (.raised (.integrityError .foreignKey))
      else .proceed id (.removeMember removal .rekey)
        (own ++ [.lock (.userKeyShare creatorId), .setCreator removal.groupId creatorId])
  | .rekey =>
      match purgeAndRekey view removal.groupId removal.skdmCiphertexts with
      | .error e => .rollback (.raised e)
      | .ok _ => .proceed id (.removeMember removal (.commit .removed))
          (own ++ rekeyWrites view removal.groupId removal.skdmCiphertexts)
  | .commit exit => .commit (.removed exit)

def nextDeparture : Point → List Write → Database → List Write → Next
  | .deleteUser userId point => nextDelete userId point
  | .removeMember removal point => nextRemove removal point

def departureProgram : Program Database Point Write Answer := ⟨writeDeparture, nextDeparture⟩

abbrev DepartureWorld := World Database Point Write Answer

def firstPoint : Call → Point
  | .deleteUser userId => .deleteUser userId .start
  | .removeMember removal => .removeMember removal .start

/-- One session for each call, none of which has started. -/
def opened (db : Database) (calls : List Call) : DepartureWorld :=
  ⟨db, calls.map fun call => .running (firstPoint call) []⟩

def departures (db : Database) (calls : List Call) : System DepartureWorld Nat :=
  departureProgram.system (opened db calls)

/-! ## Locks and progress -/

/-- Two held writes that two sessions cannot both hold. -/
def Clash : Write → Write → Prop
  | .lock a, .lock b => a.conflicts b = true
  | _, _ => False

theorem conflicts_symm (a b : Lock) : a.conflicts b = b.conflicts a := by
  cases a <;> cases b <;> simp [Lock.conflicts, eq_comm]

theorem clash_iff {a b : Write} :
    Clash a b ↔ ∃ l k, a = .lock l ∧ b = .lock k ∧ l.conflicts k = true := by
  cases a <;> cases b <;> simp [Clash]

theorem blocked_iff {lock : Lock} {held : List Write} :
    blocked lock held = true ↔ ∃ other, .lock other ∈ held ∧ lock.conflicts other = true := by
  unfold blocked
  rw [List.any_eq_true]
  constructor
  · rintro ⟨wr, isHeld, clash⟩
    cases wr with
    | lock other => exact ⟨other, isHeld, clash⟩
    | _ => cases clash
  · rintro ⟨other, isHeld, clash⟩
    exact ⟨.lock other, isHeld, clash⟩

/-- The statements left to a departure, the longer ones with what is left of them. -/
def rank : Point → Nat ×ₗ Nat
  | .deleteUser _ .start => toLex (7, 0)
  | .deleteUser _ .readGroups => toLex (6, 0)
  | .deleteUser _ (.lockGroups _ pending) => toLex (5, pending.length)
  | .deleteUser _ (.deleteGroups _) => toLex (4, 0)
  | .deleteUser _ (.updateGroups _) => toLex (3, 0)
  | .deleteUser _ (.checkCreators newCreators) => toLex (2, newCreators.length)
  | .deleteUser _ .deleteUser => toLex (1, 0)
  | .deleteUser _ .commit => toLex (0, 0)
  | .removeMember _ .start => toLex (6, 0)
  | .removeMember _ (.deleteMember _) => toLex (5, 0)
  | .removeMember _ (.deleteIfLast _) => toLex (4, 0)
  | .removeMember _ (.selectCreator _) => toLex (3, 0)
  | .removeMember _ (.updateCreator _) => toLex (2, 0)
  | .removeMember _ .rekey => toLex (1, 0)
  | .removeMember _ (.commit _) => toLex (0, 0)

/-- What a statement that goes on does: it draws nothing, is followed by a later one,
and any lock it takes is free. -/
structure GoesOn (point : Point) (own held : List Write) (draw : Database → Database)
    (point' : Point) (own' : List Write) : Prop where
  draws : draw = id
  later : rank point' < rank point
  takes : ∃ added, own' = own ++ added ∧ ∀ lock, .lock lock ∈ added → blocked lock held = false

section GoesOn

variable {point : Point} {own held own' : List Write} {view : Database}
  {draw : Database → Database} {point' : Point}

theorem GoesOn.adds {added : List Write}
    (free : ∀ lock, .lock lock ∈ added → blocked lock held = false)
    (later : rank point' < rank point) : GoesOn point own held id point' (own ++ added) :=
  ⟨rfl, later, added, rfl, free⟩

theorem GoesOn.stays (later : rank point' < rank point) : GoesOn point own held id point' own :=
  ⟨rfl, later, [], (List.append_nil own).symm, by simp⟩

theorem nextDelete_goesOn {userId : UserId} {at_ : DeletePoint}
    (did : nextDelete userId at_ own view held = .proceed draw point' own') :
    GoesOn (.deleteUser userId at_) own held draw point' own' := by
  cases at_ with
  | start =>
      simp only [nextDelete] at did
      split at did
      · cases did
      · split at did
        · cases did
        · cases did
          rename_i free
          exact .adds (by simpa using free) (by simp [rank, Prod.Lex.toLex_lt_toLex])
  | readGroups =>
      cases did
      exact .stays (by simp [rank, Prod.Lex.toLex_lt_toLex])
  | lockGroups locked pending =>
      cases pending with
      | nil =>
          cases did
          exact .stays (by simp [rank, Prod.Lex.toLex_lt_toLex])
      | cons row pending =>
          simp only [nextDelete] at did
          split at did
          · cases did
            exact .stays (by simp [rank, Prod.Lex.toLex_lt_toLex])
          · split at did
            · cases did
            · cases did
              rename_i free
              exact .adds (by simpa using free) (by simp [rank, Prod.Lex.toLex_lt_toLex])
  | deleteGroups rows =>
      cases did
      refine .adds (fun lock added => ?_) (by simp [rank, Prod.Lex.toLex_lt_toLex])
      by_cases none_ : soleOf rows = [] <;> simp [none_] at added
  | updateGroups groupIds =>
      simp only [nextDelete] at did
      split at did
      · cases did
        exact .stays (by simp [rank, Prod.Lex.toLex_lt_toLex])
      · split at did
        · cases did
        · cases did
          exact .adds (by simp) (by simp [rank, Prod.Lex.toLex_lt_toLex])
  | checkCreators newCreators =>
      cases newCreators with
      | nil =>
          cases did
          exact .stays (by simp [rank, Prod.Lex.toLex_lt_toLex])
      | cons creatorId rest =>
          simp only [nextDelete] at did
          split at did
          · cases did
          · rename_i free
            split at did
            · cases did
            · cases did
              exact .adds (by simpa using free) (by simp [rank, Prod.Lex.toLex_lt_toLex])
  | deleteUser =>
      cases did
      exact .adds (by simp) (by simp [rank, Prod.Lex.toLex_lt_toLex])
  | commit => cases did

theorem nextRemove_goesOn {removal : Removal} {at_ : RemovePoint}
    (did : nextRemove removal at_ own view held = .proceed draw point' own') :
    GoesOn (.removeMember removal at_) own held draw point' own' := by
  cases at_ with
  | start =>
      simp only [nextRemove] at did
      split at did
      · cases did
      · split at did
        · cases did
        · cases did
          rename_i free
          exact .adds (by simpa using free) (by simp [rank, Prod.Lex.toLex_lt_toLex])
  | deleteMember group =>
      simp only [nextRemove] at did
      split at did
      · cases did
      · split at did
        · cases did
        · cases did
          exact .adds (by simp) (by simp [rank, Prod.Lex.toLex_lt_toLex])
  | deleteIfLast group =>
      simp only [nextRemove] at did
      split at did
      · cases did
        exact .adds (by simp) (by simp [rank, Prod.Lex.toLex_lt_toLex])
      · split at did
        · cases did
          exact .stays (by simp [rank, Prod.Lex.toLex_lt_toLex])
        · cases did
          exact .stays (by simp [rank, Prod.Lex.toLex_lt_toLex])
  | selectCreator group =>
      simp only [nextRemove] at did
      split at did
      · cases did
        exact .adds (by simp) (by simp [rank, Prod.Lex.toLex_lt_toLex])
      · cases did
        exact .stays (by simp [rank, Prod.Lex.toLex_lt_toLex])
  | updateCreator creatorId =>
      simp only [nextRemove] at did
      split at did
      · cases did
        exact .adds (by simp) (by simp [rank, Prod.Lex.toLex_lt_toLex])
      · split at did
        · cases did
        · rename_i free
          split at did
          · cases did
          · cases did
            exact .adds (by simpa using free) (by simp [rank, Prod.Lex.toLex_lt_toLex])
  | rekey =>
      simp only [nextRemove] at did
      split at did
      · cases did
      · cases did
        exact .adds (by simp [rekeyWrites]) (by simp [rank, Prod.Lex.toLex_lt_toLex])
  | commit exit => cases did

theorem nextDeparture_goesOn
    (did : departureProgram.next point own view held = .proceed draw point' own') :
    GoesOn point own held draw point' own' := by
  cases point with
  | deleteUser userId at_ => exact nextDelete_goesOn did
  | removeMember removal at_ => exact nextRemove_goesOn did

end GoesOn

theorem departure_locking : departureProgram.Locking Clash where
  symm := by
    intro a b clash
    obtain ⟨l, k, rfl, rfl, conflict⟩ := clash_iff.mp clash
    exact clash_iff.mpr ⟨k, l, rfl, rfl, conflicts_symm k l ▸ conflict⟩
  respects := by
    intro point own view held draw point' own' did wr holds
    obtain ⟨added, rfl, free⟩ := (nextDeparture_goesOn did).takes
    rcases List.mem_append.mp holds with before | new
    · exact Or.inl before
    · refine Or.inr fun other isHeld clash => ?_
      obtain ⟨l, k, rfl, rfl, conflict⟩ := clash_iff.mp clash
      have clear := free l new
      rw [← Bool.not_eq_true, blocked_iff] at clear
      exact clear ⟨k, isHeld, conflict⟩

theorem opened_fresh {db : Database} {calls : List Call} (n : Nat) (point : Point)
    (own : List Write) (at_ : (opened db calls).sessions[n]? = some (.running point own)) :
    own = [] := by
  simp only [opened, List.getElem?_map, Option.map_eq_some_iff] at at_
  obtain ⟨call, -, isNew⟩ := at_
  cases isNew
  rfl

theorem departures_compatible (db : Database) (calls : List Call) (schedule : List Nat) :
    Program.Compatible Clash ((departures db calls).run schedule).sessions :=
  Program.compatible departure_locking opened_fresh schedule

end Departures

end SecureMsg.Groups
