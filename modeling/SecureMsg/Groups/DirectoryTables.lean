/-
# Groups.DirectoryTables — the tables are a directory

`directory` reads the accounts and rooms of a `Directory` off the tables.  Every
call of the service does to the tables what `Directory.step` does to the
directory (`directory_commit`), so a run of the service is a run of the ledger and
the query methods answer as the directory would (`service_refines_directory`).

What the ledger knows of whole runs is then known of the tables: an epoch of a
group names one creator and one set of members (`epoch_names_members`).
-/
import SecureMsg.Groups.Directory
import SecureMsg.Groups.RemoveMember
import SecureMsg.Groups.BulkCreation

namespace SecureMsg.Groups

open SecureMsg.Theory SecureMsg.Store SecureMsg.Repository

set_option autoImplicit false

/-! ## Reading a directory off the tables -/

/-- A group row with its memberships. -/
def roomOf (db : Database) (row : Group) : Option Room :=
  if creator_mem : row.creatorId ∈ (db.membersOf row.id).toFinset then
    some ⟨row.name, row.creatorId, (db.membersOf row.id).toFinset, row.epoch, creator_mem⟩
  else none

def directory (db : Database) : Directory where
  accounts u := (getUserById db u).map User.username
  rooms g := (db.findGroup g).bind (roomOf db)
  nextAccount := db.sequences.users
  nextRoom := db.sequences.groups

/-- The row and the memberships say what the room says. -/
structure Shows (db : Database) (row : Group) (room : Room) : Prop where
  name : row.name = room.name
  creator : row.creatorId = room.creator
  epoch : row.epoch = room.epoch
  members : ∀ u, db.IsMember row.id u ↔ u ∈ room.members

variable {db after : Database}

theorem roomOf_eq_some {row : Group} {room : Room} : roomOf db row = some room ↔ Shows db row room := by
  unfold roomOf
  constructor
  · intro shown
    split at shown
    · cases shown
      exact ⟨rfl, rfl, rfl, fun u => by simp⟩
    · cases shown
  · intro shows_
    have members : (db.membersOf row.id).toFinset = room.members := by
      ext u
      rw [List.mem_toFinset, Database.mem_membersOf, shows_.members]
    have creator_mem : row.creatorId ∈ (db.membersOf row.id).toFinset := by
      rw [members, shows_.creator]
      exact room.creator_mem
    rw [dif_pos creator_mem]
    exact congrArg some (Room.ext' shows_.name shows_.creator members shows_.epoch)

theorem rooms_eq_some {g : GroupId} {room : Room} :
    (directory db).rooms g = some room ↔ ∃ row, db.findGroup g = some row ∧ Shows db row room := by
  simp only [directory, Option.bind_eq_some_iff, roomOf_eq_some]

/-- Every stored group is a room: its creator is a member. -/
theorem room_stored (creators : CreatorsAreMembers db) {g : GroupId} {row : Group}
    (found : db.findGroup g = some row) :
    ∃ room, Shows db row room ∧ (directory db).rooms g = some room := by
  have member := creators row (Database.findGroup_some found).1
  have creator_mem : row.creatorId ∈ (db.membersOf row.id).toFinset := by
    rw [List.mem_toFinset, Database.mem_membersOf]
    exact member
  have shown : roomOf db row = some ⟨_, _, _, _, creator_mem⟩ := dif_pos creator_mem
  exact ⟨_, roomOf_eq_some.mp shown, rooms_eq_some.mpr ⟨row, found, roomOf_eq_some.mp shown⟩⟩

theorem rooms_eq_none (creators : CreatorsAreMembers db) {g : GroupId} :
    (directory db).rooms g = none ↔ db.findGroup g = none := by
  constructor
  · intro closed
    cases found : db.findGroup g with
    | none => rfl
    | some row =>
        obtain ⟨room, -, isRoom⟩ := room_stored creators found
        rw [closed] at isRoom
        cases isRoom
  · intro absent
    simp [directory, absent]

theorem no_room (creators : CreatorsAreMembers db) {g : GroupId} {row : Group}
    (closed : (directory db).rooms g = none) : db.findGroup g ≠ some row := by
  rw [(rooms_eq_none creators).mp closed]
  exact (Option.some_ne_none row).symm

/-- A room whose row was updated in place. -/
theorem rooms_updated {g : GroupId} {row : Group} {room : Room} {f : Group → Group}
    (found : db.findGroup g = some row) (keeps : ∀ r, (f r).id = r.id)
    (groups : after.groups = (db.updateGroup g f).groups) (s : Shows after (f row) room) :
    (directory after).rooms g = some room := by
  refine rooms_eq_some.mpr ⟨f row, ?_, s⟩
  unfold Database.findGroup
  rw [groups]
  exact (findGroup_updateGroup keeps).trans (found ▸ rfl)

/-- A room depends on its row and its memberships only. -/
theorem rooms_congr {g : GroupId} (sameRow : after.findGroup g = db.findGroup g)
    (sameMembers : ∀ u, after.IsMember g u ↔ db.IsMember g u) :
    (directory after).rooms g = (directory db).rooms g := by
  refine Option.ext fun room => ?_
  rw [rooms_eq_some, rooms_eq_some, sameRow]
  refine exists_congr fun row => and_congr_right fun found => ?_
  obtain ⟨-, rfl⟩ := Database.findGroup_some found
  constructor
  · intro s
    exact ⟨s.name, s.creator, s.epoch, fun u => (sameMembers u).symm.trans (s.members u)⟩
  · intro s
    exact ⟨s.name, s.creator, s.epoch, fun u => (sameMembers u).trans (s.members u)⟩

theorem knows_iff {u : UserId} : (directory db).Knows u ↔ u ∈ db.userIds := by
  unfold Directory.Knows directory
  constructor
  · intro known
    cases found : getUserById db u with
    | none => simp [found] at known
    | some user => exact (getUserById_some found).2
  · intro listed
    obtain ⟨user, found, -⟩ := getUserById_known listed
    simp [found]

theorem getUserById_eq_some (c : Constraints db) {u : UserId} {user : User} :
    getUserById db u = some user ↔ user ∈ db.users ∧ user.id = u := by
  constructor
  · intro found
    exact ⟨List.mem_of_find?_eq_some found, (getUserById_some found).1⟩
  · rintro ⟨stored, rfl⟩
    obtain ⟨other, found, same⟩ := getUserById_known (List.mem_map_of_mem (f := User.id) stored)
    rw [found, c.users.unique (List.mem_of_find?_eq_some found) stored same]

/-- Somebody has the name. -/
theorem named_iff (c : Constraints db) {username : String} :
    (∃ u, (directory db).accounts u = some username) ↔ username ∈ db.users.map User.username := by
  simp only [directory, Option.map_eq_some_iff, getUserById_eq_some c, List.mem_map]
  constructor
  · rintro ⟨u, user, ⟨stored, -⟩, named⟩
    exact ⟨user, stored, named⟩
  · rintro ⟨user, stored, named⟩
    exact ⟨user.id, user, ⟨stored, rfl⟩, named⟩

/-! ## The members left -/

section Left

variable {row : Group} {room : Room} {u : UserId}

theorem remaining_toFinset (s : Shows db row room) :
    (remaining db row.id u).toFinset = room.members.erase u := by
  ext v
  rw [List.mem_toFinset, mem_remaining, s.members, Finset.mem_erase, and_comm]

theorem remaining_length (c : Constraints db) (s : Shows db row room) :
    (remaining db row.id u).length = (room.members.erase u).card := by
  have once : (remaining db row.id u).Nodup :=
    (Database.membersOf_nodup c.groupMembers row.id).filter _
  rw [← remaining_toFinset s, List.toFinset_card_of_nodup once]

theorem remaining_nonempty (s : Shows db row room) :
    (room.members.erase u).Nonempty ↔ remaining db row.id u ≠ [] := by
  rw [← remaining_toFinset s, List.toFinset_nonempty_iff]

/-- The heir is the least member left. -/
theorem remaining_min (s : Shows db row room) (others : (room.members.erase u).Nonempty) :
    (remaining db row.id u).min? = some ((room.members.erase u).min' others) := by
  rw [List.min?_eq_some_iff]
  constructor
  · rw [← List.mem_toFinset, remaining_toFinset s]
    exact Finset.min'_mem _ _
  · intro v left
    rw [← List.mem_toFinset, remaining_toFinset s] at left
    exact Finset.min'_le _ v left

/-- The row handed on shows the room without the member. -/
theorem shows_without (s : Shows db row room) (others : (room.members.erase u).Nonempty)
    {transfer : Option UserId}
    (transferred : transfer = if row.creatorId = u then (remaining db row.id u).min? else none)
    (left : ∀ v, after.IsMember row.id v ↔ db.IsMember row.id v ∧ v ≠ u) :
    Shows after (departed transfer row) (room.without u others) where
  name := s.name
  creator := by
    show transfer.getD row.creatorId = if room.creator = u then _ else _
    rw [transferred, ← s.creator]
    by_cases leaves : row.creatorId = u
    · rw [if_pos leaves, if_pos leaves, remaining_min s others]
      rfl
    · rw [if_neg leaves, if_neg leaves]
      rfl
  epoch := congrArg (· + 1) s.epoch
  members v := by
    show after.IsMember row.id v ↔ v ∈ room.members.erase u
    rw [left, s.members, Finset.mem_erase, and_comm]

end Left

/-! ## One call -/

theorem findGroup_rows (db : Database) (h : GroupId) :
    db.findGroup h = (rowsOf db h).group.head? := List.head?_filter.symm

theorem isMember_rows {h : GroupId} {u : UserId} :
    db.IsMember h u ↔ ⟨h, u⟩ ∈ (rowsOf db h).members := by
  simp [rowsOf, Database.IsMember]

/-- A call that spares the group spares its room. -/
theorem rooms_of_rows {h : GroupId} (same : rowsOf after h = rowsOf db h) :
    (directory after).rooms h = (directory db).rooms h := by
  refine rooms_congr ?_ fun u => ?_
  · rw [findGroup_rows, findGroup_rows, same]
  · rw [isMember_rows, isMember_rows, same]

section Calls

variable (sound : Sound db)

include sound

/-- A call about one group changes at most that room. -/
theorem rooms_update {op : Operation} {g : GroupId} {new : Option Room}
    (done : perform db op = .ok after) (spares : ∀ h, h ≠ g → Spares db h op)
    (here : (directory after).rooms g = new) :
    (directory after).rooms = Function.update (directory db).rooms g new := by
  funext h
  by_cases same : h = g
  · rw [same, Function.update_self, here]
  · rw [Function.update_of_ne same]
    exact rooms_of_rows (rowsOf_effect sound.constraints (sound.effect done) (spares h same))

theorem directory_setRoom {op : Operation} {g : GroupId} {new : Option Room}
    (done : perform db op = .ok after) (spares : ∀ h, h ≠ g → Spares db h op)
    (users : after.users = db.users) (sequences : after.sequences = db.sequences)
    (here : (directory after).rooms g = new) : directory after = (directory db).setRoom g new := by
  refine Directory.ext ?_ (rooms_update sound done spares here) ?_ ?_
  · simp only [directory, Directory.setRoom, getUserById, users]
  · exact congrArg Sequences.users sequences
  · exact congrArg Sequences.groups sequences

omit sound in
/-- A call that, when it returns, leaves the directory as it was. -/
theorem directory_same {op : Operation}
    (kept : ∀ after, perform db op = .ok after → directory after = directory db) :
    directory (commit db op) = directory db :=
  commit_keeps (P := fun left => directory left = directory db) rfl kept

theorem directory_addMember (g : GroupId) (r u : UserId) (skdmCiphertext : Bytes) :
    directory (commit db (.addMember g r u skdmCiphertext)) =
      (directory db).step (.addMember g r u skdmCiphertext) := by
  simp only [Directory.step]
  cases isRoom : (directory db).rooms g with
  | none =>
      refine directory_same fun after done => ?_
      obtain ⟨row, found, -⟩ := addMember_ok done
      exact absurd found (no_room sound.creators isRoom)
  | some room =>
      obtain ⟨row, found, s⟩ := rooms_eq_some.mp isRoom
      dsimp only
      by_cases allowed : room.creator = r ∧ (directory db).Knows u
      · rw [if_pos allowed]
        have isCreator := s.creator.trans allowed.1
        have known := knows_iff.mp allowed.2
        obtain ⟨after, added⟩ := addMember_succeeds sound skdmCiphertext found isCreator known
        have done : perform db (.addMember g r u skdmCiphertext) = .ok after := added
        rw [commit_ok done]
        obtain ⟨row', found', -, -, rfl⟩ := addMember_ok added
        cases found.symm.trans found'
        refine directory_setRoom sound done (fun h other => other) rfl rfl ?_
        obtain ⟨-, rfl⟩ := Database.findGroup_some found
        refine rooms_updated found bumpEpoch_id rfl
          ⟨s.name, s.creator, congrArg (· + 1) s.epoch, fun v => ?_⟩
        refine mem_groupMembers_added.trans ?_
        show db.IsMember row.id v ∨ _ ↔ v ∈ insert u room.members
        rw [s.members, Finset.mem_insert, GroupMember.mk.injEq, or_comm]
        exact or_congr_left (and_iff_right rfl)
      · rw [if_neg allowed]
        refine directory_same fun after done => ?_
        obtain ⟨row', found', isCreator, known, -⟩ := addMember_ok done
        cases found.symm.trans found'
        exact absurd ⟨s.creator.symm.trans isCreator, knows_iff.mpr known⟩ allowed

theorem directory_storeSkdms (g : GroupId) (skdmCiphertexts : Ciphertexts) :
    directory (commit db (.storeSkdms g skdmCiphertexts)) =
      (directory db).step (.storeSkdms g skdmCiphertexts) := by
  simp only [Directory.step, knows_iff]
  cases isRoom : (directory db).rooms g with
  | none =>
      refine directory_same fun after done => ?_
      obtain ⟨row, found, -⟩ := storeSkdmsUncommitted_ok done
      exact absurd found (no_room sound.creators isRoom)
  | some room =>
      obtain ⟨row, found, s⟩ := rooms_eq_some.mp isRoom
      dsimp only
      by_cases known : ∀ uid ∈ skdmCiphertexts.keys, uid ∈ db.userIds
      · rw [if_pos known]
        obtain ⟨stored, rfl⟩ := Database.findGroup_some found
        have done : perform db (.storeSkdms row.id skdmCiphertexts) = _ :=
          storeSkdms_succeeds sound stored known
        rw [commit_ok done]
        refine directory_setRoom sound done (fun h other => other) rfl rfl ?_
        exact rooms_updated found bumpEpoch_id rfl
          ⟨s.name, s.creator, congrArg (· + 1) s.epoch, s.members⟩
      · rw [if_neg known]
        refine directory_same fun after done => ?_
        obtain ⟨-, -, known', -⟩ := storeSkdmsUncommitted_ok done
        exact absurd known' known

theorem directory_removeMember (g : GroupId) (r u : UserId) (skdmCiphertexts : Ciphertexts) :
    directory (commit db (.removeMember g r u skdmCiphertexts)) =
      (directory db).step (.removeMember g r u skdmCiphertexts) := by
  have c := sound.constraints
  simp only [Directory.step, knows_iff]
  cases isRoom : (directory db).rooms g with
  | none =>
      refine directory_same fun after done => ?_
      have missing := Database.findGroup_none.mp ((rooms_eq_none sound.creators).mp isRoom)
      obtain ⟨exit, removed⟩ := dropResult_ok done
      rw [removeMember_of_missing missing] at removed
      cases removed
      rfl
  | some room =>
      obtain ⟨row, found, s⟩ := rooms_eq_some.mp isRoom
      obtain ⟨stored, rfl⟩ := Database.findGroup_some found
      have selected := selectGroup_stored c stored
      have left := remaining_length (u := u) c s
      simp only [← s.creator, ← s.members]
      cases called : removeMember .fresh db row.id r u skdmCiphertexts with
      | error e =>
          have failed : perform db (.removeMember row.id r u skdmCiphertexts) = .error e := by
            rw [perform, called]
            rfl
          rw [commit_error failed, if_neg]
          rintro ⟨authorised, member, known⟩
          obtain ⟨group, selected', why⟩ := removeMember_error called
          cases selected.symm.trans selected'
          rcases why with ⟨other, notCreator, -⟩ | ⟨-, -, many, -⟩
          · exact authorised.elim other notCreator
          · obtain ⟨others, departs⟩ := Room.depart_many (left ▸ many)
            rw [departs] at known
            obtain ⟨after, goes⟩ := removeMember_succeeds c selected authorised member many
              (known (Option.some_ne_none _))
            rw [called] at goes
            cases goes
      | ok result =>
          obtain ⟨after, exit⟩ := result
          have done : perform db (.removeMember row.id r u skdmCiphertexts) = .ok after := by
            rw [perform, called]
            rfl
          rw [commit_ok done]
          cases removeMember_ok called with
          | groupNotFound absent =>
              rw [found] at absent
              cases absent
          | userNotInGroup group _ _ absent => rw [if_neg fun allowed => absent allowed.2.1]
          | lastMemberLeft group selected' authorised member few =>
              cases selected.symm.trans selected'
              have closes : room.depart u = none := Room.depart_few (left ▸ few)
              rw [if_pos ⟨authorised, member, fun opens => absurd closes opens⟩, closes]
              refine directory_setRoom sound done (fun h other => other) rfl rfl ?_
              have gone := (dissolved_of_delete (u := u) c stored).group
              simp only [directory, Database.findGroup_none.mpr gone, Option.bind_none]
          | removed group row' selected' found' authorised member many known transfer transferred =>
              cases selected.symm.trans selected'
              cases found.symm.trans found'
              obtain ⟨others, departs⟩ := Room.depart_many (left ▸ many)
              rw [if_pos ⟨authorised, member, fun _ => known⟩, departs]
              refine directory_setRoom sound done (fun h other => other) rfl rfl ?_
              refine rooms_updated found (departed_id transfer) rfl
                (shows_without s others transferred fun v => ?_)
              rw [departure_isMember]
              exact and_congr_right fun _ => not_congr (and_iff_right rfl)

theorem directory_createGroup (name : String) (creatorId : UserId) (initialMembers : Ciphertexts) :
    directory (commit db (.createGroup name creatorId initialMembers)) =
      (directory db).step (.createGroup name creatorId initialMembers) := by
  have c := sound.constraints
  simp only [Directory.step, knows_iff]
  cases called : createGroup db name creatorId initialMembers with
  | error e =>
      have failed : perform db (.createGroup name creatorId initialMembers) = .error e := by
        rw [perform, called]
        rfl
      rw [commit_error failed, if_neg]
      rintro ⟨sendable, creatorKnown, known, outside⟩
      obtain ⟨result, created⟩ := createGroup_succeeds c sendable creatorKnown known outside
      rw [called] at created
      cases created
  | ok result =>
      obtain ⟨after, group⟩ := result
      have done : perform db (.createGroup name creatorId initialMembers) = .ok after := by
        rw [perform, called]
        rfl
      obtain ⟨sendable, creatorKnown, known, -, -⟩ := createGroup_ok c called
      rw [commit_ok done, if_pos ⟨sendable, creatorKnown, known, createGroup_outside called⟩]
      obtain ⟨isRow, isGrown⟩ := createGroup_grown c called
      have isNew : group.id = db.sequences.groups := congrArg Group.id isRow
      have here : (directory after).rooms db.sequences.groups =
          some (.found name creatorId initialMembers.keys.toFinset) := by
        rw [isGrown, ← isNew]
        refine rooms_eq_some.mpr ⟨group, grown_findGroup c isNew,
          congrArg Group.name isRow, congrArg Group.creatorId isRow, ?_, fun v => ?_⟩
        · rw [isRow]
          simp only [Room.found, List.toFinset_nonempty_iff, Dict.nonempty_iff_keys]
        · rw [grown_isMember c isNew]
          simp [Room.found]
      refine Directory.ext ?_ (rooms_update sound done (fun h other => other) here) ?_ ?_
      · rw [isGrown]
        rfl
      · rw [isGrown]
        rfl
      · rw [isGrown]
        rfl

theorem directory_createUser (username srpSalt : String) (srpVerifierEnc totpSecretEnc : Bytes) :
    directory (commit db (.createUser username srpSalt srpVerifierEnc totpSecretEnc)) =
      (directory db).step (.createUser username srpSalt srpVerifierEnc totpSecretEnc) := by
  have c := sound.constraints
  simp only [Directory.step, named_iff c]
  by_cases refused : ¬ (Sendable username ∧ Sendable srpSalt) ∨
      username ∈ db.users.map User.username
  · rw [if_pos refused]
    refine directory_same fun after done => ?_
    obtain ⟨id, created⟩ := dropResult_ok done
    obtain ⟨⟨stored, row⟩, inserted, -⟩ := bind_eq_ok.mp created
    obtain ⟨sendable, free, -⟩ := Database.insertUser_ok.mp inserted
    rcases refused with nul | taken
    · exact absurd sendable nul
    · exact absurd taken free
  · obtain ⟨sendable, taken⟩ := not_or.mp refused
    rw [if_neg refused]
    let row : User := ⟨db.sequences.users, username, srpSalt, srpVerifierEnc, totpSecretEnc⟩
    have inserted : db.insertUser username srpSalt srpVerifierEnc totpSecretEnc = .ok ({ db with
        users := db.users ++ [row]
        sequences := { db.sequences with users := db.sequences.users + 1 } }, row) :=
      Database.insertUser_ok.mpr ⟨not_not.mp sendable, taken, rfl, rfl⟩
    have done : perform db (.createUser username srpSalt srpVerifierEnc totpSecretEnc) = .ok { db with
        users := db.users ++ [row]
        sequences := { db.sequences with users := db.sequences.users + 1 } } := by
      rw [perform, createUser, inserted]
      rfl
    rw [commit_ok done]
    refine Directory.ext ?_ rfl rfl rfl
    funext v
    show ((db.users ++ [row]).find? _).map User.username =
      Function.update (directory db).accounts db.sequences.users (some username) v
    rw [List.find?_append]
    by_cases isNew : v = db.sequences.users
    · have absent : db.users.find? (fun user => user.id = v) = none := by
        rw [List.find?_eq_none]
        intro user stored same
        have older := c.nextUser user stored
        exact absurd ((of_decide_eq_true same).trans isNew) (ne_of_lt older)
      rw [absent, isNew]
      simp [row]
    · have other : ¬ row.id = v := Ne.symm isNew
      rw [Function.update_of_ne isNew]
      simp [other, directory, getUserById]

section AccountGone

variable {u : UserId} (gone : AccountDeleted db u after) (left : Constraints after)

include gone left

theorem accounts_deleted :
    (directory after).accounts = Function.update (directory db).accounts u none := by
  funext v
  refine Option.ext fun name => ?_
  by_cases same : v = u
  · subst same
    have absent : ∀ user, getUserById after v ≠ some user := by
      intro user found
      obtain ⟨stored, isUser⟩ := (getUserById_eq_some left).mp found
      exact ((gone.users user).mp stored).2 isUser
    simp [directory, absent]
  · rw [Function.update_of_ne same]
    simp only [directory, Option.map_eq_some_iff, getUserById_eq_some left,
      getUserById_eq_some sound.constraints, gone.users]
    refine exists_congr fun user => and_congr_left fun _ => ?_
    constructor
    · rintro ⟨⟨stored, -⟩, isUser⟩
      exact ⟨stored, isUser⟩
    · rintro ⟨stored, rfl⟩
      exact ⟨⟨stored, same⟩, rfl⟩

omit sound left in
theorem rooms_deleted_none {g : GroupId} (closed : ∀ row ∈ db.groups, row.id = g → OnlyMember db g u) :
    (directory after).rooms g = none := by
  have absent : after.findGroup g = none := by
    rw [Database.findGroup_none]
    intro listed
    obtain ⟨new, newStored, same⟩ := List.mem_map.mp listed
    obtain ⟨old, oldStored, stays, rfl⟩ := (gone.groups new).mp newStored
    rw [withoutUser_id] at same
    exact stays (same ▸ closed old oldStored same)
  simp only [directory, absent, Option.bind_none]

/-- The account's rooms go on without it, or close with it. -/
theorem rooms_deleted (g : GroupId) :
    (directory after).rooms g = ((directory db).rooms g).bind fun room => room.forget u := by
  have members : ∀ v, after.IsMember g v ↔ db.IsMember g v ∧ v ≠ u :=
    fun v => gone.groupMembers ⟨g, v⟩
  cases found : db.findGroup g with
  | none =>
      rw [(rooms_eq_none sound.creators).mpr found, Option.bind_none]
      refine rooms_deleted_none gone fun row stored same => ?_
      exact absurd (same ▸ List.mem_map_of_mem stored) (Database.findGroup_none.mp found)
  | some row =>
      obtain ⟨room, s, isRoom⟩ := room_stored sound.creators found
      obtain ⟨stored, rfl⟩ := Database.findGroup_some found
      rw [isRoom, Option.bind_some]
      by_cases only : OnlyMember db row.id u
      · have alone : ¬ (room.members.erase u).Nonempty := by
          rw [remaining_nonempty s]
          exact not_not.mpr only.2
        rw [Room.forget_alone ((s.members u).mp only.1) alone]
        exact rooms_deleted_none gone fun _ _ _ => only
      · have foundAfter : after.findGroup row.id = some (withoutUser db u row) := by
          have byId := left.findGroup_eq_some.mpr ((gone.groups _).mpr ⟨row, stored, only, rfl⟩)
          rwa [withoutUser_id] at byId
        by_cases member : db.IsMember row.id u
        · have others : (room.members.erase u).Nonempty :=
            (remaining_nonempty s).mpr fun none_ => only ⟨member, none_⟩
          rw [withoutUser, if_pos member] at foundAfter
          rw [Room.forget_member ((s.members u).mp member) others]
          exact rooms_eq_some.mpr ⟨_, foundAfter, shows_without s others rfl members⟩
        · rw [withoutUser, if_neg member] at foundAfter
          rw [Room.forget_other (mt (s.members u).mpr member)]
          refine rooms_eq_some.mpr ⟨row, foundAfter, s.name, s.creator, s.epoch, fun v => ?_⟩
          rw [members, ← s.members]
          refine and_iff_left_of_imp ?_
          rintro isMember rfl
          exact member isMember

end AccountGone

theorem directory_deleteUser (u : UserId) :
    directory (commit db (.deleteUser u)) = (directory db).step (.deleteUser u) := by
  have c := sound.constraints
  simp only [Directory.step, knows_iff]
  by_cases exists_ : u ∈ db.userIds
  · have done := perform_deleteUser c exists_
    have gone := deleteUser_deleted c sound.creators exists_
    have left := perform_constraints c done
    rw [if_pos exists_, commit_ok done]
    exact Directory.ext (accounts_deleted sound gone left) (funext (rooms_deleted sound gone left))
      (congrArg Sequences.users gone.sequences) (congrArg Sequences.groups gone.sequences)
  · rw [if_neg exists_]
    refine directory_same fun after done => ?_
    obtain ⟨deleted, isDone⟩ := dropResult_ok done
    rcases deleteUser_ok c sound.creators isDone with ⟨-, rfl, -⟩ | ⟨known, -⟩
    · rfl
    · exact absurd known exists_

omit sound in
/-- A call that leaves accounts, groups and memberships alone. -/
theorem directory_congr (users : after.users = db.users) (groups : after.groups = db.groups)
    (groupMembers : after.groupMembers = db.groupMembers)
    (nextUser : after.sequences.users = db.sequences.users)
    (nextGroup : after.sequences.groups = db.sequences.groups) : directory after = directory db := by
  refine Directory.ext ?_ ?_ nextUser nextGroup
  · simp only [directory, getUserById, users]
  · funext g
    refine rooms_congr ?_ fun u => ?_
    · rw [Database.findGroup, Database.findGroup, groups]
    · rw [Database.IsMember, Database.IsMember, groupMembers]

/-- **One call of the service is one step of the directory.** -/
theorem directory_commit (op : Operation) : directory (commit db op) = (directory db).step op := by
  cases op with
  | createUser username srpSalt srpVerifierEnc totpSecretEnc =>
      exact directory_createUser sound username srpSalt srpVerifierEnc totpSecretEnc
  | deleteUser u => exact directory_deleteUser sound u
  | createGroup name creatorId initialMembers =>
      exact directory_createGroup sound name creatorId initialMembers
  | addMember g r u skdmCiphertext => exact directory_addMember sound g r u skdmCiphertext
  | removeMember g r u skdmCiphertexts => exact directory_removeMember sound g r u skdmCiphertexts
  | storeSkdms g skdmCiphertexts => exact directory_storeSkdms sound g skdmCiphertexts
  | rolledBack drawn => rfl
  | popSkdmsForUser u g => exact directory_congr rfl rfl rfl rfl rfl
  | revokeGroupMessage messageId senderId =>
      refine directory_same fun after done => ?_
      cases done
      rw [revokeGroupMessage_fst]
      exact directory_congr rfl rfl rfl rfl rfl
  | deleteMessage messageId owner u => exact directory_congr rfl rfl rfl rfl rfl
  | blockRefreshToken jtiHash expiresAt =>
      refine directory_same fun after done => ?_
      obtain ⟨rfl, -⟩ := Database.insertRefreshTokenBlocklist_ok.mp done
      exact directory_congr rfl rfl rfl rfl rfl
  | storeGroupMessage g senderId epoch ciphertext =>
      refine directory_same fun after done => ?_
      obtain ⟨msg, stored⟩ := dropResult_ok done
      obtain ⟨-, -, -, -, rfl⟩ := storeGroupMessage_ok stored
      exact directory_congr rfl rfl rfl rfl rfl
  | recordGroupReceipt messageId u =>
      refine directory_same fun after done => ?_
      obtain ⟨-, rfl⟩ := recordGroupReceipt_ok done
      exact directory_congr rfl rfl rfl rfl rfl
  | storeMessage senderId recipientId ciphertext ratchetHeaderEnc =>
      refine directory_same fun after done => ?_
      obtain ⟨id, stored⟩ := dropResult_ok done
      obtain ⟨-, row, inserted, -⟩ := storeMessage_ok stored
      obtain ⟨-, -, rfl⟩ := Database.insertMessage_ok.mp inserted
      exact directory_congr rfl rfl rfl rfl rfl
  | storeKeyBundle bundle =>
      refine directory_same fun after done => ?_
      rcases Database.upsertUserKeyBundle_ok.mp done with ⟨-, rfl⟩ | ⟨-, -, rfl⟩
      · exact directory_congr rfl rfl rfl rfl rfl
      · exact directory_congr rfl rfl rfl rfl rfl
  | addOneTimePrekeys u prekeys =>
      refine directory_same fun after done => ?_
      obtain ⟨-, rfl⟩ := Database.insertOneTimePrekeys_ok.mp done
      exact directory_congr rfl rfl rfl rfl rfl
  | popOneTimePrekey u =>
      refine directory_same fun after done => ?_
      cases done
      obtain ⟨rows, popped⟩ := popOneTimePrekey_fst db u
      rw [popped]
      exact directory_congr rfl rfl rfl rfl rfl

end Calls

/-! ## Every run -/

theorem directory_run (ops : List Operation) :
    directory (service.run ops) = Directory.ledger.run ops := by
  have both : Sound (service.run ops) ∧ directory (service.run ops) = Directory.ledger.run ops := by
    refine service.simulates (R := fun db d => Sound db ∧ directory db = d) ⟨sound_empty, rfl⟩ ?_ ops
    rintro db d op ⟨sound, rfl⟩
    exact ⟨sound.commit op, directory_commit sound op⟩
  exact both.2

/-! ## What the queries answer -/

/-- The query methods answer as the directory would. -/
structure Answers (db : Database) (d : Directory) : Prop where
  getUserByUsername : ∀ username u,
    (getUserByUsername db username).map User.id = some u ↔ d.accounts u = some username
  getGroup : ∀ g, (getGroup .fresh db g).map (fun row => (row.name, row.creatorId, row.epoch)) =
    (d.rooms g).map fun room => (room.name, room.creator, room.epoch)
  isMember : ∀ g u, isMember db g u = true ↔ ∃ room, d.rooms g = some room ∧ u ∈ room.members
  isCreator : ∀ g u, isCreator db g u = true ↔ ∃ room, d.rooms g = some room ∧ room.creator = u
  getMembers : ∀ g, getMembers db g = (d.rooms g).elim [] fun room => room.members.sort (· ≤ ·)
  getGroupsForUser : ∀ u, Ascending Group.id (getGroupsForUser db u) ∧
    ∀ row, row ∈ getGroupsForUser db u ↔ ∃ room, d.rooms row.id = some room ∧ u ∈ room.members ∧
      row.name = room.name ∧ row.creatorId = room.creator ∧ row.epoch = room.epoch

theorem getGroupsForUser_ascending (c : Constraints db) (u : UserId) :
    Ascending Group.id (getGroupsForUser db u) := by
  have single : ∀ row ∈ db.groups,
      ((db.groupMembers.filter fun member => decide (member.userId = u)).filter
        fun member => member.groupId == row.id).length ≤ 1 := by
    intro row _
    have onlyThis : ∀ member ∈ (db.groupMembers.filter fun member => decide (member.userId = u)).filter
        (fun member => member.groupId == row.id), member = ⟨row.id, u⟩ := by
      intro member listed
      obtain ⟨mine, inGroup⟩ := List.mem_filter.mp listed
      rw [← eq_of_beq inGroup, ← of_decide_eq_true (List.mem_filter.mp mine).2]
    have repeats := List.eq_replicate_of_mem onlyThis
    have once := (c.groupMembers.filter fun member => decide (member.userId = u)).filter
      fun member => member.groupId == row.id
    rw [repeats] at once
    exact List.nodup_replicate.mp once
  have joined := c.groups.joinOn single
  unfold getGroupsForUser
  rw [joinOn_filter_right fun member : GroupMember => decide (member.userId = u), joined.orderBy_eq]
  exact List.pairwise_map.mpr joined

theorem mem_getGroupsForUser {u : UserId} {row : Group} :
    row ∈ getGroupsForUser db u ↔ row ∈ db.groups ∧ db.IsMember row.id u := by
  simp only [getGroupsForUser, List.mem_map, mem_orderBy, List.mem_filter, mem_joinOn, beq_iff_eq,
    decide_eq_true_eq]
  constructor
  · rintro ⟨⟨group, member⟩, ⟨⟨stored, listed, inGroup⟩, isUser⟩, rfl⟩
    have same : member = ⟨group.id, u⟩ := by rw [← inGroup, ← isUser]
    exact ⟨stored, same ▸ listed⟩
  · rintro ⟨stored, member⟩
    exact ⟨(row, ⟨row.id, u⟩), ⟨⟨stored, member, rfl⟩, rfl⟩, rfl⟩

/-- Being in the room's row, asked of the directory. -/
theorem room_iff (creators : CreatorsAreMembers db) {g : GroupId} {P : Group → Prop} {Q : Room → Prop}
    (same : ∀ row room, row.id = g → Shows db row room → (P row ↔ Q room)) :
    (∃ row, db.findGroup g = some row ∧ P row) ↔ ∃ room, (directory db).rooms g = some room ∧ Q room := by
  constructor
  · rintro ⟨row, found, holds⟩
    obtain ⟨room, s, isRoom⟩ := room_stored creators found
    exact ⟨room, isRoom, (same row room (Database.findGroup_some found).2 s).mp holds⟩
  · rintro ⟨room, isRoom, holds⟩
    obtain ⟨row, found, s⟩ := rooms_eq_some.mp isRoom
    exact ⟨row, found, (same row room (Database.findGroup_some found).2 s).mpr holds⟩

theorem getMembers_sort (c : Constraints db) {row : Group} {room : Room} (s : Shows db row room) :
    getMembers db row.id = room.members.sort (· ≤ ·) := by
  have members : (db.membersOf row.id).toFinset = room.members := by
    ext u
    rw [List.mem_toFinset, Database.mem_membersOf, s.members]
  have listed : (getMembers db row.id).Perm (db.membersOf row.id) := List.perm_insertionSort _ _
  have once := listed.nodup_iff.mpr (Database.membersOf_nodup c.groupMembers row.id)
  have ordered : (getMembers db row.id).Pairwise (· ≤ ·) := List.pairwise_insertionSort _ _
  rw [← members, ← List.toFinset_eq_of_perm _ _ listed]
  exact ((List.toFinset_sort _ once).mpr ordered).symm

/-- A room and a group id are the whole row. -/
theorem row_of_room {row row' : Group} (id : row.id = row'.id) (name : row.name = row'.name)
    (creator : row.creatorId = row'.creatorId) (epoch : row.epoch = row'.epoch) : row = row' := by
  cases row
  cases row'
  cases id
  cases name
  cases creator
  cases epoch
  rfl

theorem answers (sound : Sound db) : Answers db (directory db) := by
  have c := sound.constraints
  constructor
  case getUserByUsername =>
    intro username u
    simp only [directory, Option.map_eq_some_iff, getUserById_eq_some c]
    constructor
    · rintro ⟨user, found, rfl⟩
      obtain ⟨stored, named⟩ := getUserByUsername_some found
      exact ⟨user, ⟨stored, rfl⟩, named⟩
    · rintro ⟨user, ⟨stored, rfl⟩, rfl⟩
      exact ⟨user, find?_key c.usernames stored, rfl⟩
  case getGroup =>
    intro g
    rw [getGroup, Session.selectGroup_fresh]
    cases found : db.findGroup g with
    | none => rw [(rooms_eq_none sound.creators).mpr found]; rfl
    | some row =>
        obtain ⟨room, s, isRoom⟩ := room_stored sound.creators found
        rw [isRoom, Option.map_some, Option.map_some, s.name, s.creator, s.epoch]
  case isMember =>
    intro g u
    rw [isMember, decide_eq_true_eq]
    refine Iff.trans ?_ (room_iff (P := fun _ => db.IsMember g u) sound.creators ?_)
    · constructor
      · intro member
        obtain ⟨row, stored, rfl⟩ := c.member_group member
        exact ⟨row, c.findGroup_eq_some.mpr stored, member⟩
      · rintro ⟨-, -, member⟩
        exact member
    · rintro row room rfl s
      exact s.members u
  case isCreator =>
    intro g u
    rw [isCreator_iff]
    refine room_iff sound.creators ?_
    rintro row room - s
    rw [s.creator]
  case getMembers =>
    intro g
    cases found : db.findGroup g with
    | none =>
        rw [(rooms_eq_none sound.creators).mpr found, Option.elim_none, List.eq_nil_iff_forall_not_mem]
        intro u listed
        have member := Database.mem_membersOf.mp (mem_orderBy.mp listed)
        exact Database.findGroup_none.mp found (c.member_exists member).1
    | some row =>
        obtain ⟨room, s, isRoom⟩ := room_stored sound.creators found
        obtain ⟨-, rfl⟩ := Database.findGroup_some found
        rw [isRoom, Option.elim_some]
        exact getMembers_sort c s
  case getGroupsForUser =>
    intro u
    refine ⟨getGroupsForUser_ascending c u, fun row => ?_⟩
    rw [mem_getGroupsForUser, ← c.findGroup_eq_some]
    constructor
    · rintro ⟨found, member⟩
      obtain ⟨room, s, isRoom⟩ := room_stored sound.creators found
      exact ⟨room, isRoom, (s.members u).mp member, s.name, s.creator, s.epoch⟩
    · rintro ⟨room, isRoom, member, name, creator, epoch⟩
      obtain ⟨stored, found, s⟩ := rooms_eq_some.mp isRoom
      have same : stored = row := row_of_room (Database.findGroup_some found).2
        (s.name.trans name.symm) (s.creator.trans creator.symm) (s.epoch.trans epoch.symm)
      subst same
      exact ⟨found, (s.members u).mpr member⟩

/-- **The service is a directory**: after every run the accounts and rooms read off the
tables are those of the ledger's run of the same calls, and the query methods answer as
the ledger would. -/
theorem service_refines_directory (ops : List Operation) :
    directory (service.run ops) = Directory.ledger.run ops ∧
      Answers (service.run ops) (Directory.ledger.run ops) :=
  ⟨directory_run ops, directory_run ops ▸ answers (reachable ops)⟩

/-- **An epoch names the members**: whenever in a run a group has the same epoch twice, it
has the same name, creator and members. -/
theorem epoch_names_members {earlier ops : List Operation} (before : earlier <+: ops) {g : GroupId}
    {row row' : Group} (then_ : (service.run earlier).findGroup g = some row)
    (now : (service.run ops).findGroup g = some row') (sameEpoch : row'.epoch = row.epoch) :
    row' = row ∧ getMembers (service.run ops) g = getMembers (service.run earlier) g := by
  obtain ⟨room, s, isRoom⟩ := room_stored (reachable earlier).creators then_
  obtain ⟨room', s', isRoom'⟩ := room_stored (reachable ops).creators now
  rw [directory_run] at isRoom isRoom'
  rcases (Directory.ledger_forward before).rooms g room room' isRoom isRoom' with rfl | later
  · have sameId := (Database.findGroup_some now).2.trans (Database.findGroup_some then_).2.symm
    refine ⟨row_of_room sameId (s'.name.trans s.name.symm) (s'.creator.trans s.creator.symm)
      sameEpoch, ?_⟩
    rw [← (Database.findGroup_some then_).2, getMembers_sort (reachable earlier).constraints s,
      ← sameId, getMembers_sort (reachable ops).constraints s']
  · rw [← s.epoch, ← s'.epoch, sameEpoch] at later
    exact absurd later (lt_irrefl _)

/-- A message and a delivery later the group of three is the same. -/
theorem epoch_names_members_trio :
    (⟨1, "team", 1, 2⟩ : Group) = ⟨1, "team", 1, 2⟩ ∧
      getMembers (service.run (trio ++ [.storeGroupMessage 1 2 2 [9], .popSkdmsForUser 3 1])) 1 =
        getMembers (service.run trio) 1 :=
  epoch_names_members (g := 1) (List.prefix_append _ _) (by decide) (by decide) rfl

end SecureMsg.Groups
