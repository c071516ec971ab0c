/-
# Groups.BulkCreation — creating a group with members, or adding them one by one

`create_group` with a map and `create_group` without one, followed by an
`add_member` for each entry in any order, leave the same group, the same members
and the same pending ciphertexts: they differ in epochs only (`DifferInEpochs`).

The map may name the creator.  `add_member` ignores a membership that is there;
`create_group` inserts the creator's row and then the map's, and meets the
primary key.  So the two agree exactly when the creator is not in the map and the
name is one the driver sends (`bulk_agrees_iff`).
-/
import SecureMsg.Groups.SenderKeys

namespace SecureMsg.Groups

open SecureMsg.Theory SecureMsg.Store SecureMsg.Repository

set_option autoImplicit false

variable {db after : Database}

/-! ## The two ways -/

def addAll (db : Database) (groupId : GroupId) (requesterId : UserId)
    (entries : List (UserId × Bytes)) : Except Error Database :=
  entries.foldlM (fun db entry => addMember db groupId requesterId entry.1 entry.2) db

/-- `create_group(name, creator_id)`, then `add_member` for each entry. -/
def createOneByOne (db : Database) (name : String) (creatorId : UserId)
    (entries : List (UserId × Bytes)) : Except Error (Database × Group) := do
  let (db, group) ← createGroup db name creatorId Dict.empty
  let db ← addAll db group.id creatorId entries
  return (db, group)

/-- The group has its creator, the map's members and the map's pending ciphertexts. -/
structure CreatedWith (after : Database) (groupId : GroupId) (name : String) (creatorId : UserId)
    (initialMembers : Ciphertexts) : Prop where
  group : ∃ row ∈ after.groups, row.id = groupId ∧ row.name = name ∧ row.creatorId = creatorId
  members : ∀ uid, after.IsMember groupId uid ↔ uid = creatorId ∨ uid ∈ initialMembers.keys
  pending : ((after.senderKeyDistributions.filter fun row => row.groupId = groupId).map
    fun row => (row.recipientId, row.skdmCiphertext)).Perm initialMembers.entries

def forgetEpoch (groupId : GroupId) (row : Group) : Group :=
  if row.id = groupId then { row with epoch := 0 } else row

def forgetStamp (groupId : GroupId) (row : SenderKeyDistribution) : SenderKeyDistribution :=
  if row.groupId = groupId then { row with epoch := 0 } else row

/-- The same database, but for the epochs of one group and of its pending keys. -/
structure DifferInEpochs (groupId : GroupId) (one other : Database) : Prop where
  groups : one.groups.map (forgetEpoch groupId) = other.groups.map (forgetEpoch groupId)
  groupMembers : one.groupMembers.Perm other.groupMembers
  senderKeyDistributions : (one.senderKeyDistributions.map (forgetStamp groupId)).Perm
    (other.senderKeyDistributions.map (forgetStamp groupId))
  rest : { one with groups := [], groupMembers := [], senderKeyDistributions := [] } =
    { other with groups := [], groupMembers := [], senderKeyDistributions := [] }

/-- Both ways succeed, in every order of the entries, and agree. -/
def BulkAgrees (db : Database) (name : String) (creatorId : UserId)
    (initialMembers : Ciphertexts) : Prop :=
  ∃ bulk group, createGroup db name creatorId initialMembers = .ok (bulk, group) ∧
    CreatedWith bulk group.id name creatorId initialMembers ∧
    ∀ entries : List (UserId × Bytes), entries.Perm initialMembers.entries →
      ∃ single group', createOneByOne db name creatorId entries = .ok (single, group') ∧
        group'.id = group.id ∧ CreatedWith single group.id name creatorId initialMembers ∧
        DifferInEpochs group.id bulk single

/-! ## A database with one more group -/

/-- `db` with a new group, its members and its pending keys. -/
def grown (db : Database) (group : Group) (members : List UserId)
    (rows : List SenderKeyDistribution) : Database :=
  { db with
    groups := db.groups ++ [group]
    groupMembers := db.groupMembers ++ members.map fun uid => ⟨group.id, uid⟩
    senderKeyDistributions := db.senderKeyDistributions ++ rows
    sequences := { db.sequences with groups := db.sequences.groups + 1 } }

section Grown

variable {group : Group} {members : List UserId} {rows : List SenderKeyDistribution}

theorem grown_isMember (c : Constraints db) (isNew : group.id = db.sequences.groups)
    {uid : UserId} : (grown db group members rows).IsMember group.id uid ↔ uid ∈ members := by
  unfold Database.IsMember grown
  rw [List.mem_append]
  constructor
  · rintro (old | new)
    · have older := c.groupId_lt (c.member_exists old).1
      exact absurd isNew (ne_of_lt older)
    · obtain ⟨member, listed, same⟩ := List.mem_map.mp new
      cases same
      exact listed
  · intro listed
    exact Or.inr (List.mem_map_of_mem listed)

theorem grown_pending (c : Constraints db) (isNew : group.id = db.sequences.groups)
    (ofGroup : ∀ row ∈ rows, row.groupId = group.id) :
    (grown db group members rows).senderKeyDistributions.filter
      (fun row => row.groupId = group.id) = rows := by
  have none_ : db.senderKeyDistributions.filter (fun row => decide (row.groupId = group.id)) = [] := by
    rw [List.filter_eq_nil_iff]
    intro row stored same
    have older := c.groupId_lt (c.skdm_exists stored).1
    exact ne_of_lt older ((of_decide_eq_true same).trans isNew)
  have all : rows.filter (fun row => decide (row.groupId = group.id)) = rows :=
    List.filter_eq_self.mpr fun row listed => decide_eq_true (ofGroup row listed)
  simp only [grown, List.filter_append, none_, all, List.nil_append]

theorem grown_findGroup (c : Constraints db) (isNew : group.id = db.sequences.groups) :
    (grown db group members rows).findGroup group.id = some group := by
  unfold Database.findGroup grown
  have none_ : db.groups.find? (fun row => decide (row.id = group.id)) = none := by
    rw [List.find?_eq_none]
    intro row stored same
    exact ne_of_lt (c.nextGroup row stored) ((of_decide_eq_true same).trans isNew)
  simp [List.find?_append, none_]

/-- The group as either way leaves it. -/
theorem grown_createdWith (group : Group) (c : Constraints db) (isNew : group.id = db.sequences.groups)
    (ofGroup : ∀ row ∈ rows, row.groupId = group.id) {initialMembers : Ciphertexts}
    (named : ∀ uid, uid ∈ members ↔ uid = group.creatorId ∨ uid ∈ initialMembers.keys)
    (handed : (rows.map fun row => (row.recipientId, row.skdmCiphertext)).Perm
      initialMembers.entries) :
    CreatedWith (grown db group members rows) group.id group.name group.creatorId
      initialMembers where
  group := ⟨group, List.mem_append_right _ (List.mem_singleton_self _), rfl, rfl, rfl⟩
  members uid := by rw [grown_isMember c isNew, named]
  pending := by
    rw [grown_pending c isNew ofGroup]
    exact handed

theorem grown_differInEpochs (group : Group) {epoch epoch' : Int} {members' : List UserId}
    {rows' : List SenderKeyDistribution} (sameMembers : members.Perm members')
    (sameRows : (rows.map (forgetStamp group.id)).Perm (rows'.map (forgetStamp group.id))) :
    DifferInEpochs group.id (grown db { group with epoch := epoch } members rows)
      (grown db { group with epoch := epoch' } members' rows') where
  groups := by simp [grown, forgetEpoch]
  groupMembers := (sameMembers.map _).append_left _
  senderKeyDistributions := by
    simp only [grown, List.map_append]
    exact sameRows.append_left _
  rest := rfl

end Grown

/-! ## All at once -/

theorem createGroup_grown (c : Constraints db) {name : String} {creatorId : UserId}
    {initialMembers : Ciphertexts} {group : Group}
    (done : createGroup db name creatorId initialMembers = .ok (after, group)) :
    group = ⟨db.sequences.groups, name, creatorId, if initialMembers.nonempty then 1 else 0⟩ ∧
      after = grown db group (creatorId :: initialMembers.keys)
        (skdmRows group.id 1 initialMembers) := by
  obtain ⟨-, -, -, isRow, rfl⟩ := createGroup_ok c done
  refine ⟨isRow, ?_⟩
  simp only [grown, List.map_cons]

theorem createGroup_succeeds (c : Constraints db) {name : String} (sendable : Sendable name)
    {creatorId : UserId} {initialMembers : Ciphertexts} (creatorKnown : creatorId ∈ db.userIds)
    (known : ∀ uid ∈ initialMembers.keys, uid ∈ db.userIds)
    (outside : creatorId ∉ initialMembers.keys) :
    ∃ result, createGroup db name creatorId initialMembers = .ok result := by
  let row : Group := ⟨db.sequences.groups, name, creatorId, 0⟩
  let opened : Database := { db with
    groups := db.groups ++ [row]
    sequences := { db.sequences with groups := db.sequences.groups + 1 } }
  have inserted : db.insertGroup name creatorId 0 = .ok (opened, row) :=
    Database.insertGroup_ok.mpr ⟨sendable, creatorKnown, rfl, rfl⟩
  have openedOk : Constraints opened := c.insertGroup inserted
  have newGroup : row.id ∈ opened.groupIds := by simp [opened, Database.groupIds]
  have added : opened.insertGroupMembers
      (⟨row.id, creatorId⟩ :: initialMembers.keys.map fun uid => ⟨row.id, uid⟩) =
        .ok (grown db row (creatorId :: initialMembers.keys) []) := by
    refine Database.insertGroupMembers_ok.mpr ⟨?_, ?_, ?_⟩
    · simp [grown, opened]
    · intro member listed
      rcases List.mem_cons.mp listed with rfl | listed
      · exact ⟨newGroup, creatorKnown⟩
      · obtain ⟨uid, inKeys, rfl⟩ := List.mem_map.mp listed
        exact ⟨newGroup, known uid inKeys⟩
    · refine List.nodup_append.mpr ⟨openedOk.groupMembers, ?_, ?_⟩
      · have distinct : (creatorId :: initialMembers.keys).Nodup :=
          List.nodup_cons.mpr ⟨outside, initialMembers.keys_nodup⟩
        exact distinct.map fun uid uid' same => (GroupMember.mk.injEq .. ▸ same).2
      · intro old stored new listed same
        have older := c.groupId_lt (c.member_exists (u := old.userId) stored).1
        have named : new.groupId = row.id := by
          rcases List.mem_cons.mp listed with rfl | listed
          · rfl
          · obtain ⟨uid, -, rfl⟩ := List.mem_map.mp listed
            rfl
        rw [same, named] at older
        exact lt_irrefl _ older
  have joinedOk := openedOk.insertGroupMembers added
  unfold createGroup
  simp only [inserted, bind, Except.bind, added]
  cases some_ : initialMembers.nonempty with
  | false => exact ⟨_, rfl⟩
  | true =>
      have recipients : ∀ uid ∈ initialMembers.keys,
          uid ∈ (grown db row (creatorId :: initialMembers.keys) []).userIds := known
      have stored := storeSkdmsUncommitted_succeeds joinedOk (grown_findGroup c rfl) recipients (by
        intro pending inTable sameGroup
        rw [grown, List.append_nil] at inTable
        have older := c.groupId_lt (c.skdm_exists inTable).1
        exact absurd sameGroup (ne_of_lt older))
      simp only [if_true, stored]
      exact ⟨_, rfl⟩

theorem createGroup_sendable {name : String} {creatorId : UserId} {initialMembers : Ciphertexts}
    {result : Database × Group}
    (done : createGroup db name creatorId initialMembers = .ok result) : Sendable name := by
  obtain ⟨⟨opened, group⟩, inserted, -⟩ := bind_eq_ok.mp done
  exact (Database.insertGroup_ok.mp inserted).1

/-- The creator's own row is in before the map's. -/
theorem createGroup_outside {name : String} {creatorId : UserId} {initialMembers : Ciphertexts}
    {result : Database × Group}
    (done : createGroup db name creatorId initialMembers = .ok result) :
    creatorId ∉ initialMembers.keys := by
  obtain ⟨⟨opened, group⟩, inserted, rest⟩ := bind_eq_ok.mp done
  obtain ⟨joined, added, -⟩ := bind_eq_ok.mp rest
  obtain ⟨-, -, distinct⟩ := Database.insertGroupMembers_ok.mp added
  intro inKeys
  have rows := (List.nodup_append.mp distinct).2.1
  exact (List.nodup_cons.mp rows).1 (List.mem_map_of_mem inKeys)

/-! ## One by one -/

/-- The pending keys after the additions: one epoch for each. -/
def stampedRows (groupId : GroupId) (entries : List (UserId × Bytes)) :
    List SenderKeyDistribution :=
  entries.zipIdx.map fun entry => ⟨groupId, entry.1.1, entry.1.2, entry.2 + 1⟩

/-- The group after the additions. -/
def addedTo (db : Database) (name : String) (creatorId : UserId)
    (entries : List (UserId × Bytes)) : Database :=
  grown db ⟨db.sequences.groups, name, creatorId, entries.length⟩
    (creatorId :: (entries.map Prod.fst).filter fun uid => uid ≠ creatorId)
    (stampedRows db.sequences.groups entries)

theorem stampedRows_snoc (groupId : GroupId) (entries : List (UserId × Bytes))
    (entry : UserId × Bytes) : stampedRows groupId (entries ++ [entry]) =
      stampedRows groupId entries ++ [⟨groupId, entry.1, entry.2, entries.length + 1⟩] := by
  simp [stampedRows, List.zipIdx_append]

theorem stampedRows_entries (groupId : GroupId) (entries : List (UserId × Bytes)) {β : Type}
    (f : SenderKeyDistribution → β) (unstamped : ∀ row epoch, row.groupId = groupId →
      f { row with epoch := epoch } = f row) :
    (stampedRows groupId entries).map f = entries.map fun entry => f ⟨groupId, entry.1, entry.2, 0⟩ := by
  induction entries using List.reverseRecOn with
  | nil => rfl
  | append_singleton entries entry ih =>
      rw [stampedRows_snoc, List.map_append, List.map_append, ih, List.map_singleton,
        List.map_singleton]
      congr 2
      exact (unstamped ⟨groupId, entry.1, entry.2, entries.length + 1⟩ 0 rfl).symm

/-- An addition by the creator goes through. -/
theorem addMember_succeeds (sound : Sound db) {groupId : GroupId} {requesterId userId : UserId}
    (skdmCiphertext : Bytes) {row : Group} (found : db.findGroup groupId = some row)
    (creator : row.creatorId = requesterId) (known : userId ∈ db.userIds) :
    ∃ after, addMember db groupId requesterId userId skdmCiphertext = .ok after := by
  have c := sound.constraints
  obtain ⟨stored, rfl⟩ := Database.findGroup_some found
  have unused : ∀ pending ∈ db.senderKeyDistributions, pending.groupId = row.id →
      pending.epoch ≠ row.epoch + 1 := by
    intro pending inTable sameGroup
    have behind := sound.epochs pending inTable row stored sameGroup.symm
    omega
  have recipients : ∀ uid ∈ (Dict.singleton userId skdmCiphertext).keys, uid ∈ db.userIds := by
    intro uid inKeys
    rw [List.mem_singleton.mp inKeys]
    exact known
  unfold addMember
  rw [if_pos (isCreator_iff.mpr ⟨row, found, creator⟩)]
  by_cases member : (⟨row.id, userId⟩ : GroupMember) ∈ db.groupMembers
  · have joined : db.insertGroupMemberOrIgnore ⟨row.id, userId⟩ = .ok db :=
      Database.insertGroupMemberOrIgnore_ok.mpr (Or.inl ⟨member, rfl⟩)
    simp only [joined, bind, Except.bind]
    exact ⟨_, storeSkdmsUncommitted_succeeds c found recipients unused⟩
  · have added : db.insertGroupMembers [⟨row.id, userId⟩] =
        .ok { db with groupMembers := db.groupMembers ++ [⟨row.id, userId⟩] } := by
      refine Database.insertGroupMembers_ok.mpr ⟨rfl, ?_, ?_⟩
      · intro new listed
        rw [List.mem_singleton.mp listed]
        exact ⟨List.mem_map_of_mem stored, known⟩
      · refine List.nodup_append.mpr ⟨c.groupMembers, List.nodup_singleton _, ?_⟩
        intro old inTable new listed same
        rw [List.mem_singleton.mp listed] at same
        exact member (same ▸ inTable)
    have joined : db.insertGroupMemberOrIgnore ⟨row.id, userId⟩ =
        .ok { db with groupMembers := db.groupMembers ++ [⟨row.id, userId⟩] } :=
      Database.insertGroupMemberOrIgnore_ok.mpr (Or.inr ⟨member, added⟩)
    simp only [joined, bind, Except.bind]
    exact ⟨_, storeSkdmsUncommitted_succeeds (c.insertGroupMembers added) found recipients unused⟩

section OneByOne

variable {name : String} {creatorId : UserId} {entries : List (UserId × Bytes)}

/-- One more addition. -/
theorem addMember_addedTo (c : Constraints db) (sound : Sound (addedTo db name creatorId entries))
    {entry : UserId × Bytes} (known : entry.1 ∈ db.userIds)
    (isNew : entry.1 ∉ entries.map Prod.fst) :
    addMember (addedTo db name creatorId entries) db.sequences.groups creatorId entry.1 entry.2 =
      .ok (addedTo db name creatorId (entries ++ [entry])) := by
  let row : Group := ⟨db.sequences.groups, name, creatorId, entries.length⟩
  have found : (addedTo db name creatorId entries).findGroup db.sequences.groups = some row :=
    grown_findGroup c rfl
  obtain ⟨after, done⟩ := addMember_succeeds sound entry.2 found rfl known
  obtain ⟨row', found', -, -, isAfter⟩ := addMember_ok done
  rw [found] at found'
  cases found'
  have member : (addedTo db name creatorId entries).IsMember db.sequences.groups entry.1 ↔
      entry.1 = creatorId := by
    refine (grown_isMember c rfl : (addedTo db name creatorId entries).IsMember row.id entry.1 ↔ _).trans
      ?_
    rw [List.mem_cons, List.mem_filter]
    exact or_iff_left fun old => isNew old.1
  have groups := updateGroup_new c row rfl bumpEpoch
  rw [done, isAfter]
  congr 1
  have lastId : (⟨db.sequences.groups, name, creatorId, ((entries ++ [entry]).length : Int)⟩ : Group) =
      bumpEpoch row := by
    simp [bumpEpoch, row]
  unfold addedTo
  rw [lastId, stampedRows_snoc]
  have members : (if (addedTo db name creatorId entries).IsMember db.sequences.groups entry.1 then
        (addedTo db name creatorId entries).groupMembers
      else (addedTo db name creatorId entries).groupMembers ++ [⟨db.sequences.groups, entry.1⟩]) =
      db.groupMembers ++ (creatorId :: ((entries ++ [entry]).map Prod.fst).filter
        fun uid => uid ≠ creatorId).map fun uid => ⟨db.sequences.groups, uid⟩ := by
    by_cases self : entry.1 = creatorId
    · rw [if_pos (member.mpr self)]
      simp [addedTo, grown, self]
    · rw [if_neg fun inside => self (member.mp inside)]
      simp [addedTo, grown, self]
  unfold addedTo at members
  rw [members]
  simp only [grown, Database.updateGroup, List.append_assoc]
  rw [Database.mk.injEq]
  exact ⟨rfl, groups, rfl, rfl, rfl, rfl, rfl, rfl, rfl, rfl, rfl⟩

theorem addAll_addedTo (sound : Sound db) (opened : Sound (addedTo db name creatorId []))
    (known : ∀ entry ∈ entries, entry.1 ∈ db.userIds) (distinct : (entries.map Prod.fst).Nodup) :
    Sound (addedTo db name creatorId entries) ∧
      addAll (addedTo db name creatorId []) db.sequences.groups creatorId entries =
        .ok (addedTo db name creatorId entries) := by
  induction entries using List.reverseRecOn with
  | nil => exact ⟨opened, rfl⟩
  | append_singleton entries entry ih =>
      rw [List.map_append, List.map_singleton, List.nodup_append] at distinct
      obtain ⟨before, ran⟩ := ih (fun e listed => known e (List.mem_append_left _ listed)) distinct.1
      have isNew : entry.1 ∉ entries.map Prod.fst := fun listed =>
        distinct.2.2 _ listed _ (List.mem_singleton_self _) rfl
      have added := addMember_addedTo sound.constraints before
        (known entry (List.mem_append_right _ (List.mem_singleton_self _))) isNew
      have done : perform (addedTo db name creatorId entries)
          (.addMember db.sequences.groups creatorId entry.1 entry.2) =
            .ok (addedTo db name creatorId (entries ++ [entry])) := added
      refine ⟨before.perform done, ?_⟩
      unfold addAll at ran ⊢
      rw [List.foldlM_append, ran]
      simp only [bind, Except.bind, List.foldlM_cons, List.foldlM_nil, added]
      rfl

theorem stampedRows_ofGroup (groupId : GroupId) :
    ∀ row ∈ stampedRows groupId entries, row.groupId = groupId := by
  intro row listed
  obtain ⟨entry, -, rfl⟩ := List.mem_map.mp listed
  rfl

/-- **One by one goes through**, the creator in the map or not. -/
theorem createOneByOne_ok (sound : Sound db) (sendable : Sendable name)
    {initialMembers : Ciphertexts} (creatorKnown : creatorId ∈ db.userIds)
    (known : ∀ uid ∈ initialMembers.keys, uid ∈ db.userIds)
    (order : entries.Perm initialMembers.entries) :
    createOneByOne db name creatorId entries = .ok (addedTo db name creatorId entries,
        ⟨db.sequences.groups, name, creatorId, 0⟩) ∧
      CreatedWith (addedTo db name creatorId entries) db.sequences.groups name creatorId
        initialMembers := by
  have c := sound.constraints
  have keys : (entries.map Prod.fst).Perm initialMembers.keys := order.map _
  have opens : ∃ result, createGroup db name creatorId Dict.empty = .ok result :=
    createGroup_succeeds c sendable creatorKnown (fun uid inKeys => absurd inKeys List.not_mem_nil)
      List.not_mem_nil
  obtain ⟨⟨first, group⟩, created⟩ := opens
  obtain ⟨rfl, isFirst⟩ := createGroup_grown c created
  have performed : perform db (.createGroup name creatorId Dict.empty) = .ok first := by
    rw [perform, created]
    rfl
  have opened : first = addedTo db name creatorId [] := isFirst
  subst opened
  have allKnown : ∀ entry ∈ entries, entry.1 ∈ db.userIds := fun entry listed =>
    known _ (keys.mem_iff.mp (List.mem_map_of_mem listed))
  obtain ⟨-, ran⟩ := addAll_addedTo sound (sound.perform performed) allKnown
    (keys.nodup_iff.mpr initialMembers.keys_nodup)
  constructor
  · unfold createOneByOne
    simp only [created, bind, Except.bind, ran]
    rfl
  · refine grown_createdWith ⟨db.sequences.groups, name, creatorId, entries.length⟩ c rfl
      (stampedRows_ofGroup _) ?_ ?_
    · intro uid
      rw [List.mem_cons, List.mem_filter, ← keys.mem_iff]
      by_cases self : uid = creatorId
      · simp [self]
      · simp [self]
    · rw [stampedRows_entries _ _ _ fun _ _ _ => rfl]
      simpa using order

end OneByOne

/-! ## The two agree -/

theorem bulkAgrees_of_outside (sound : Sound db) {name : String} (sendable : Sendable name)
    {creatorId : UserId} {initialMembers : Ciphertexts} (creatorKnown : creatorId ∈ db.userIds)
    (known : ∀ uid ∈ initialMembers.keys, uid ∈ db.userIds)
    (outside : creatorId ∉ initialMembers.keys) : BulkAgrees db name creatorId initialMembers := by
  have c := sound.constraints
  obtain ⟨⟨bulk, group⟩, created⟩ := createGroup_succeeds c sendable creatorKnown known outside
  obtain ⟨rfl, rfl⟩ := createGroup_grown c created
  refine ⟨_, _, created, ?_, ?_⟩
  · refine grown_createdWith _ c rfl (fun row listed => (mem_skdmRows listed).1) ?_ ?_
    · intro uid
      exact List.mem_cons
    · rw [skdmRows, List.map_map]
      exact List.Perm.of_eq (List.map_id _)
  · intro entries order
    obtain ⟨single, createdWith⟩ := createOneByOne_ok sound sendable creatorKnown known order
    refine ⟨_, _, single, rfl, createdWith, ?_⟩
    have keys : (entries.map Prod.fst).Perm initialMembers.keys := order.map _
    have all : (entries.map Prod.fst).filter (fun uid => uid ≠ creatorId) =
        entries.map Prod.fst := by
      refine List.filter_eq_self.mpr fun uid listed => decide_eq_true ?_
      rintro rfl
      exact outside (keys.mem_iff.mp listed)
    refine grown_differInEpochs ⟨db.sequences.groups, name, creatorId, 0⟩ ?_ ?_
    · rw [all]
      exact (keys.symm).cons _
    · rw [stampedRows_entries _ _ _ fun row epoch ofGroup => by simp [forgetStamp, ofGroup],
        skdmRows, List.map_map]
      refine ((order.symm).map _).trans (List.Perm.of_eq ?_)
      simp [forgetStamp]

/-- **Bulk creation agrees with one-by-one addition exactly when the creator is not in
the map.**  A name the driver does not send fails both ways. -/
theorem bulk_agrees_iff (ops : List Operation) (name : String) (creatorId : UserId)
    (initialMembers : Ciphertexts) (creatorKnown : creatorId ∈ (service.run ops).userIds)
    (known : ∀ uid ∈ initialMembers.keys, uid ∈ (service.run ops).userIds) :
    BulkAgrees (service.run ops) name creatorId initialMembers ↔
      Sendable name ∧ creatorId ∉ initialMembers.keys := by
  constructor
  · rintro ⟨bulk, group, created, -⟩
    exact ⟨createGroup_sendable created, createGroup_outside created⟩
  · rintro ⟨sendable, outside⟩
    exact bulkAgrees_of_outside (reachable ops) sendable creatorKnown known outside

def adaBobAndCal : List Operation :=
  [.createUser "ada" "5a" [1] [2], .createUser "bob" "5b" [3] [4], .createUser "cal" "5c" [5] [6]]

/-- Bob and Cal, a key each: one by one the two keys are of different epochs. -/
def bobAndCal : Ciphertexts := Dict.ofPairs [(2, [9]), (3, [8])]

theorem bulk_agrees_iff_bobAndCal : BulkAgrees (service.run adaBobAndCal) "team" 1 bobAndCal ↔
    Sendable "team" ∧ 1 ∉ bobAndCal.keys :=
  bulk_agrees_iff adaBobAndCal "team" 1 bobAndCal (by decide) (by decide)

/-- Ada hands herself a key with the new group. -/
theorem bulk_creation_fails_for_creator :
    ¬ BulkAgrees (service.run adaBobAndCal) "team" 1 (Dict.singleton 1 [9]) := by
  rintro ⟨bulk, group, created, -⟩
  exact createGroup_outside created (by decide)

end SecureMsg.Groups
