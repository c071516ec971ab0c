/-
# Groups.Epochs — when a group's epoch moves

A group's epoch goes up by one at each `add_member`, each `store_skdms` and each
departure the group survives, at no other call, and starts at one exactly when
the group is created with members (`EpochsMoved`).  A batch of sender keys is
stored by a call that moves the epoch and is stamped with the epoch reached, so
two batches of one group are never stamped alike and `_store_skdms` cannot meet
`uq_skd_recipient_group_epoch` (`epoch_discipline`).
-/
import SecureMsg.Groups.SenderKeys

namespace SecureMsg.Groups

open SecureMsg.Theory SecureMsg.Store SecureMsg.Repository

set_option autoImplicit false

variable {db after : Database} {op : Operation}

/-! ## One call -/

/-- The calls that move the epoch of `g` when they go through: a removal and a
deletion do where the user they name is a member. -/
def MovesEpoch (db : Database) (g : GroupId) : Operation → Prop
  | .addMember h _ _ _ => h = g
  | .storeSkdms h _ => h = g
  | .removeMember h _ u _ => h = g ∧ db.IsMember g u
  | .deleteUser u => db.IsMember g u
  | _ => False

/-- The row goes back to a stored one, moved on as the call moves epochs. -/
def Continues (db : Database) (op : Operation) (row : Group) : Prop :=
  ∃ old ∈ db.groups, old.id = row.id ∧
    (MovesEpoch db row.id op → row.epoch = old.epoch + 1) ∧
    (¬ MovesEpoch db row.id op → row.epoch = old.epoch)

/-- The row of a group created by the call. -/
def Starts (db : Database) (op : Operation) (row : Group) : Prop :=
  row.id = db.sequences.groups ∧ ∃ name creatorId initialMembers,
    op = .createGroup name creatorId initialMembers ∧
      row.epoch = if initialMembers.nonempty then 1 else 0

theorem continues_updated {g : GroupId} {f : Group → Group} (keeps : ∀ r, (f r).id = r.id)
    (raises : ∀ r, (f r).epoch = r.epoch + 1) (moves : ∀ h, MovesEpoch db h op ↔ h = g)
    {row : Group} (stored : row ∈ (db.updateGroup g f).groups) : Continues db op row := by
  obtain ⟨old, inTable, rfl⟩ := Database.mem_updateGroup.mp stored
  refine ⟨old, inTable, ?_⟩
  by_cases hit : old.id = g
  · rw [if_pos hit, keeps, raises, moves]
    exact ⟨rfl, fun _ => rfl, fun other => absurd hit other⟩
  · rw [if_neg hit, moves]
    exact ⟨rfl, fun same => absurd same hit, fun _ => rfl⟩

theorem continues_same {row : Group} (still : ¬ MovesEpoch db row.id op)
    (stored : row ∈ db.groups) : Continues db op row :=
  ⟨row, stored, rfl, fun moves => absurd moves still, fun _ => rfl⟩

theorem continues_accountDeleted {u : UserId} (gone : AccountDeleted db u after) {row : Group}
    (stored : row ∈ after.groups) : Continues db (.deleteUser u) row := by
  obtain ⟨old, inTable, -, rfl⟩ := (gone.groups row).mp stored
  refine ⟨old, inTable, (withoutUser_id old).symm, ?_⟩
  rw [withoutUser_id]
  unfold withoutUser
  by_cases member : db.IsMember old.id u
  · rw [if_pos member]
    exact ⟨fun _ => rfl, fun outside => absurd member outside⟩
  · rw [if_neg member]
    exact ⟨fun inside => absurd inside member, fun _ => rfl⟩

/-- A call that is not one of these leaves every epoch alone. -/
theorem continues_elsewhere (effect : Effect db op after)
    (quiet : ∀ g, ¬ MovesEpoch db g op) (notNew : ∀ name creatorId initialMembers,
      op ≠ .createGroup name creatorId initialMembers) (notRemoval : ∀ g r u K,
      op ≠ .removeMember g r u K) :
    ∀ row ∈ after.groups, Continues db op row := by
  intro row stored
  cases effect with
  | accountDeleted u _ _ gone => exact continues_accountDeleted gone stored
  | groupCreated name creatorId initialMembers => exact absurd rfl (notNew _ _ _)
  | memberAdded g => exact absurd rfl (quiet g)
  | groupDissolved => exact absurd rfl (notRemoval _ _ _ _)
  | memberRemoved => exact absurd rfl (notRemoval _ _ _ _)
  | skdmsStored g => exact absurd rfl (quiet g)
  | skdmsPopped => exact continues_same (quiet _) stored
  | messageStored => exact continues_same (quiet _) stored
  | messageRevoked => exact continues_same (quiet _) stored
  | receiptRecorded => exact continues_same (quiet _) stored
  | elsewhere _ _ _ same =>
      rw [same.groups] at stored
      exact continues_same (quiet _) stored

/-- **What a call does to the epochs**, row by row. -/
theorem perform_epochsMoved (sound : Sound db) (done : perform db op = .ok after) :
    ∀ row ∈ after.groups, Continues db op row ∨ Starts db op row := by
  have c := sound.constraints
  intro row stored
  cases op with
  | createGroup name creatorId initialMembers =>
      obtain ⟨group, created⟩ := dropResult_ok done
      obtain ⟨-, -, -, isRow, rfl⟩ := createGroup_ok c created
      rcases List.mem_append.mp stored with old | new
      · exact Or.inl (continues_same id old)
      · cases List.mem_singleton.mp new
        exact Or.inr ⟨by rw [isRow], name, creatorId, initialMembers, rfl, by rw [isRow]⟩
  | addMember g r u skdmCiphertext =>
      obtain ⟨target, -, -, -, rfl⟩ := addMember_ok done
      refine Or.inl (continues_updated bumpEpoch_id bumpEpoch_epoch ?_ stored)
      intro h
      exact (eq_comm : g = h ↔ h = g)
  | storeSkdms g skdmCiphertexts =>
      obtain ⟨target, -, -, rfl⟩ := storeSkdmsUncommitted_ok done
      refine Or.inl (continues_updated bumpEpoch_id bumpEpoch_epoch ?_ stored)
      intro h
      exact (eq_comm : g = h ↔ h = g)
  | removeMember g r u skdmCiphertexts =>
      left
      obtain ⟨exit, removed⟩ := dropResult_ok done
      cases removeMember_ok removed with
      | groupNotFound absent =>
          refine continues_same ?_ stored
          rintro ⟨rfl, -⟩
          exact Database.findGroup_none.mp absent (List.mem_map_of_mem stored)
      | userNotInGroup group selected authorised absent =>
          refine continues_same ?_ stored
          rintro ⟨rfl, member⟩
          exact absent member
      | lastMemberLeft group selected =>
          obtain ⟨inTable, kept⟩ := List.mem_filter.mp stored
          refine continues_same ?_ inTable
          rintro ⟨rfl, -⟩
          simp at kept
      | removed object group selected found authorised member many known transfer =>
          refine continues_updated (departed_id transfer) (departed_epoch transfer) ?_ stored
          intro h
          constructor
          · rintro ⟨rfl, -⟩
            rfl
          · rintro rfl
            exact ⟨rfl, member⟩
  | deleteUser u =>
      left
      obtain ⟨deleted, isDone⟩ := dropResult_ok done
      rcases deleteUser_ok c sound.creators isDone with ⟨unknown, rfl, -⟩ | ⟨-, -, gone⟩
      · exact continues_same (fun member => unknown (c.member_exists member).2) stored
      · exact continues_accountDeleted gone stored
  | createUser | blockRefreshToken | popSkdmsForUser | storeGroupMessage | revokeGroupMessage
  | recordGroupReceipt | storeMessage | deleteMessage | storeKeyBundle | addOneTimePrekeys
  | popOneTimePrekey | rolledBack =>
      exact Or.inl (continues_elsewhere (sound.effect done) (fun g => id) (by simp) (by simp)
        row stored)

/-! ## Epochs along a run -/

/-- Group `g` has been created and, while it is there, is at `e` or later. -/
def Reached (g : GroupId) (e : Int) (db : Database) : Prop :=
  g < db.sequences.groups ∧ ∀ row ∈ db.groups, row.id = g → e ≤ row.epoch

theorem reached_kept (sound : Sound db) {g : GroupId} {e : Int} (reached : Reached g e db)
    (op : Operation) : Reached g e (commit db op) := by
  refine commit_keeps reached fun after done => ?_
  obtain ⟨created, atLeast⟩ := reached
  refine ⟨lt_of_lt_of_le created (effect_sequences (sound.effect done)).groups, ?_⟩
  rintro row stored rfl
  rcases perform_epochsMoved sound done row stored with continues | ⟨isNew, -⟩
  · obtain ⟨old, inTable, sameId, moved, stayed⟩ := continues
    have before := atLeast old inTable sameId
    by_cases moves : MovesEpoch db row.id op
    · rw [moved moves]
      omega
    · rw [stayed moves]
      exact before
  · exact absurd isNew (ne_of_lt created)

/-- A group stays at or past an epoch it has reached. -/
theorem reached_stays {g : GroupId} {e : Int} {earlier ops : List Operation}
    (before : earlier <+: ops) (reached : Reached g e (service.run earlier)) :
    Reached g e (service.run ops) := by
  have kept : ∀ db op, Sound db ∧ Reached g e db →
      Sound (commit db op) ∧ Reached g e (commit db op) :=
    fun db op now => ⟨now.1.commit op, reached_kept now.1 now.2 op⟩
  exact (service.stays kept before ⟨reachable earlier, reached⟩).2

theorem reached_of_stored (sound : Sound db) {row : Group} (stored : row ∈ db.groups) :
    Reached row.id row.epoch db := by
  refine ⟨sound.constraints.nextGroup row stored, ?_⟩
  intro other inTable same
  rw [sound.constraints.groups.unique inTable stored same]

/-! ## Batches -/

/-- What one call of `_store_skdms` wrote, and the epoch it was assigned. -/
structure Batch where
  groupId : GroupId
  epoch : Int
  skdmCiphertexts : Ciphertexts

/-- The rows of the batch. -/
def Batch.rows (b : Batch) : List SenderKeyDistribution :=
  skdmRows b.groupId b.epoch b.skdmCiphertexts

/-- The map a call that goes through hands to `_store_skdms`, with the group: a removal
does where a group of two or more is left and a key was supplied. -/
def supplied (db : Database) : Operation → Option (GroupId × Ciphertexts)
  | .createGroup _ _ initialMembers =>
      if initialMembers.nonempty then some (db.sequences.groups, initialMembers) else none
  | .addMember g _ u skdmCiphertext => some (g, Dict.singleton u skdmCiphertext)
  | .storeSkdms g skdmCiphertexts => some (g, skdmCiphertexts)
  | .removeMember g _ u skdmCiphertexts =>
      if db.IsMember g u ∧ 1 < (remaining db g u).length ∧ skdmCiphertexts.nonempty then
        some (g, skdmCiphertexts)
      else none
  | _ => none

/-- The batch a call stores, if any: its epoch is the one `UPDATE ... RETURNING` gave,
which the group has after the call. -/
def batch (db : Database) (op : Operation) : Option Batch :=
  match perform db op with
  | .error _ => none
  | .ok after => (supplied db op).bind fun entry =>
      (after.findGroup entry.1).map fun row => ⟨entry.1, row.epoch, entry.2⟩

theorem batch_ok (done : perform db op = .ok after) {b : Batch} (stored : batch db op = some b) :
    supplied db op = some (b.groupId, b.skdmCiphertexts) ∧
      ∃ row ∈ after.groups, row.id = b.groupId ∧ row.epoch = b.epoch := by
  rw [batch, done] at stored
  obtain ⟨⟨g, K⟩, handed, found⟩ := Option.bind_eq_some_iff.mp stored
  obtain ⟨row, isRow, rfl⟩ := Option.map_eq_some_iff.mp found
  obtain ⟨inTable, same⟩ := Database.findGroup_some isRow
  exact ⟨handed, row, inTable, same, rfl⟩

/-- Storing a batch moves the epoch of a group that was there. -/
theorem supplied_moves (sound : Sound db) {g : GroupId} {K : Ciphertexts} (known : g ∈ db.groupIds)
    (handed : supplied db op = some (g, K)) : MovesEpoch db g op := by
  cases op with
  | createGroup name creatorId initialMembers =>
      simp only [supplied, Option.ite_none_right_eq_some, Option.some.injEq, Prod.mk.injEq] at handed
      obtain ⟨-, rfl, -⟩ := handed
      exact absurd (sound.constraints.groupId_lt known) (lt_irrefl _)
  | addMember h r u skdmCiphertext =>
      cases handed
      exact rfl
  | storeSkdms h skdmCiphertexts =>
      cases handed
      exact rfl
  | removeMember h r u skdmCiphertexts =>
      simp only [supplied, Option.ite_none_right_eq_some, Option.some.injEq, Prod.mk.injEq] at handed
      obtain ⟨⟨member, -⟩, rfl, -⟩ := handed
      exact ⟨rfl, member⟩
  | _ => cases handed

/-- A batch is stamped past every epoch its group had reached. -/
theorem batch_past (sound : Sound db) {b : Batch} (stored : batch db op = some b) {e : Int}
    (reached : Reached b.groupId e db) : e < b.epoch := by
  cases done : perform db op with
  | error raised =>
      rw [batch, done] at stored
      cases stored
  | ok after =>
      obtain ⟨handed, row, inTable, sameId, sameEpoch⟩ := batch_ok done stored
      rcases perform_epochsMoved sound done row inTable with continues | ⟨isNew, -⟩
      · obtain ⟨old, oldStored, oldId, moved, -⟩ := continues
        have known : b.groupId ∈ db.groupIds :=
          List.mem_map.mpr ⟨old, oldStored, oldId.trans sameId⟩
        have moves : MovesEpoch db row.id op := sameId ▸ supplied_moves sound known handed
        have before := reached.2 old oldStored (oldId.trans sameId)
        have after_ := moved moves
        omega
      · exact absurd (sameId.symm.trans isNew) (ne_of_lt reached.1)

/-- After the batch its group has reached the batch's epoch. -/
theorem batch_reached (sound : Sound db) {b : Batch} (stored : batch db op = some b) :
    Reached b.groupId b.epoch (commit db op) := by
  cases done : perform db op with
  | error raised =>
      rw [batch, done] at stored
      cases stored
  | ok after =>
      obtain ⟨-, row, inTable, sameId, sameEpoch⟩ := batch_ok done stored
      rw [commit_ok done, ← sameId, ← sameEpoch]
      exact reached_of_stored (sound.perform done) inTable

/-- Batches of one group stored at two steps of a run carry different epochs. -/
theorem batches_differ {ops earlier earlier' : List Operation} {op op' : Operation} {b b' : Batch}
    (one : earlier ++ [op] <+: ops) (other : earlier' ++ [op'] <+: ops)
    (stored : batch (service.run earlier) op = some b)
    (stored' : batch (service.run earlier') op' = some b') (sameGroup : b.groupId = b'.groupId)
    (sameEpoch : b.epoch = b'.epoch) : earlier = earlier' := by
  have ahead : ∀ {first second : List Operation} {op₁ op₂ : Operation} {b₁ b₂ : Batch},
      first ++ [op₁] <+: second → batch (service.run first) op₁ = some b₁ →
      batch (service.run second) op₂ = some b₂ → b₁.groupId = b₂.groupId → b₁.epoch < b₂.epoch := by
    intro first second op₁ op₂ b₁ b₂ before is₁ is₂ same
    have reached := batch_reached (reachable first) is₁
    rw [same] at reached
    refine batch_past (reachable second) is₂ (reached_stays before ?_)
    rw [System.run_snoc]
    exact reached
  rcases step_order one other with same | before | before
  · exact same
  · have less := ahead before stored stored' sameGroup
    omega
  · have less := ahead before stored' stored sameGroup.symm
    omega

/-! ## The unique key -/

/-- The calls of `_store_skdms`: the method it is made in, the database it sees there
and its arguments. -/
inductive CallsStoreSkdms (db : Database) :
    Operation → Database → GroupId → Ciphertexts → Prop where
  | createGroup (name : String) (creatorId : UserId) (initialMembers : Ciphertexts)
      (opened joined : Database) (group : Group)
      (inserted : db.insertGroup name creatorId 0 = .ok (opened, group))
      (added : opened.insertGroupMembers
        (⟨group.id, creatorId⟩ :: initialMembers.keys.map fun uid => ⟨group.id, uid⟩) = .ok joined)
      (some_ : initialMembers.nonempty = true) :
      CallsStoreSkdms db (.createGroup name creatorId initialMembers) joined group.id initialMembers
  | addMember (g : GroupId) (r u : UserId) (skdmCiphertext : Bytes) (joined : Database)
      (creator : isCreator db g r = true)
      (added : db.insertGroupMemberOrIgnore ⟨g, u⟩ = .ok joined) :
      CallsStoreSkdms db (.addMember g r u skdmCiphertext) joined g
        (Dict.singleton u skdmCiphertext)
  | storeSkdms (g : GroupId) (skdmCiphertexts : Ciphertexts) :
      CallsStoreSkdms db (.storeSkdms g skdmCiphertexts) db g skdmCiphertexts
  | removeMember (g : GroupId) (r u : UserId) (skdmCiphertexts : Ciphertexts) (row : Group)
      (found : db.findGroup g = some row) (authorised : r = u ∨ row.creatorId = r)
      (member : db.IsMember g u) (many : 1 < (remaining db g u).length)
      (some_ : skdmCiphertexts.nonempty = true) (handed : Database)
      (isHanded : handed = if row.creatorId = u then
          ((remaining db g u).min?.map fun newCreator =>
            (db.deleteGroupMember g u).updateGroup g (setCreator newCreator)).getD db
        else db.deleteGroupMember g u) :
      CallsStoreSkdms db (.removeMember g r u skdmCiphertexts)
        (handed.deleteSkdmsWhere fun pending => pending.groupId = g) g skdmCiphertexts

theorem storeSkdmsUncommitted_ne_unique {at_ : Database} {g : GroupId} {K : Ciphertexts}
    (distinct : (at_.senderKeyDistributions.map
      fun row => (row.recipientId, row.groupId, row.epoch)).Nodup)
    (behind : ∀ row, at_.findGroup g = some row → ∀ p ∈ at_.senderKeyDistributions,
      p.groupId = g → p.epoch ≤ row.epoch) :
    storeSkdmsUncommitted at_ g K ≠ .error (.integrityError .unique) := by
  unfold storeSkdmsUncommitted
  cases found : at_.findGroup g with
  | none => simp
  | some row =>
      refine insertInto_ne_unique (skdmKeys_nodup distinct ?_)
      intro p pending sameGroup
      have within := behind row found p pending sameGroup
      omega

/-- **No call of `_store_skdms` meets the unique key.** -/
theorem callsStoreSkdms_ne_unique (sound : Sound db) {at_ : Database} {g : GroupId}
    {K : Ciphertexts} (call : CallsStoreSkdms db op at_ g K) :
    storeSkdmsUncommitted at_ g K ≠ .error (.integrityError .unique) := by
  have c := sound.constraints
  have stored : ∀ row, db.findGroup g = some row → ∀ p ∈ db.senderKeyDistributions,
      p.groupId = g → p.epoch ≤ row.epoch := by
    intro row found p pending sameGroup
    obtain ⟨inTable, same⟩ := Database.findGroup_some found
    exact sound.epochs p pending row inTable (same.trans sameGroup.symm)
  cases call with
  | createGroup name creatorId initialMembers opened joined group inserted added some_ =>
      obtain ⟨-, -, rfl, rfl⟩ := Database.insertGroup_ok.mp inserted
      obtain ⟨rfl, -, -⟩ := Database.insertGroupMembers_ok.mp added
      refine storeSkdmsUncommitted_ne_unique c.senderKeyDistributions ?_
      intro row _ p pending sameGroup
      -- the id of the group has just been drawn
      have older := c.groupId_lt (c.skdm_exists pending).1
      exact absurd sameGroup (ne_of_lt older)
  | addMember _ r u skdmCiphertext joined creator added =>
      rcases Database.insertGroupMemberOrIgnore_ok.mp added with ⟨-, rfl⟩ | ⟨-, inserted⟩
      · exact storeSkdmsUncommitted_ne_unique c.senderKeyDistributions stored
      · obtain ⟨rfl, -, -⟩ := Database.insertGroupMembers_ok.mp inserted
        exact storeSkdmsUncommitted_ne_unique c.senderKeyDistributions stored
  | storeSkdms => exact storeSkdmsUncommitted_ne_unique c.senderKeyDistributions stored
  | removeMember _ r u _ row found authorised member many some_ handed isHanded =>
      have sameKeys : handed.senderKeyDistributions = db.senderKeyDistributions := by
        rw [isHanded]
        split
        · cases (remaining db g u).min? with
          | none => rfl
          | some newCreator => rfl
        · rfl
      refine storeSkdmsUncommitted_ne_unique ?_ ?_
      · show ((handed.senderKeyDistributions.filter _).map _).Nodup
        rw [sameKeys]
        exact c.senderKeyDistributions.sublist (List.filter_sublist.map _)
      · intro row' _ p pending sameGroup
        have kept := (List.mem_filter.mp pending).2
        simp [sameGroup] at kept

/-! ## The discipline -/

/-- One step of a run, group by group: a group that was there before and after. -/
structure EpochStep (db : Database) (op : Operation) : Prop where
  moved : ∀ old ∈ db.groups, ∀ row ∈ (commit db op).groups, row.id = old.id →
    (∃ after, perform db op = .ok after) → MovesEpoch db old.id op → row.epoch = old.epoch + 1
  stayed : ∀ old ∈ db.groups, ∀ row ∈ (commit db op).groups, row.id = old.id →
    ¬ ((∃ after, perform db op = .ok after) ∧ MovesEpoch db old.id op) → row.epoch = old.epoch
  created : ∀ row ∈ (commit db op).groups, row.id ∉ db.groupIds →
    ∃ name creatorId initialMembers, op = .createGroup name creatorId initialMembers ∧
      row.epoch = if initialMembers.nonempty then 1 else 0

theorem epochStep (sound : Sound db) (op : Operation) : EpochStep db op := by
  have unique : ∀ {a b : Group}, a ∈ db.groups → b ∈ db.groups → a.id = b.id → a = b :=
    sound.constraints.groups.unique
  cases done : perform db op with
  | error e =>
      constructor
      · rintro old inTable row stored same ⟨after, isOk⟩
        rw [done] at isOk
        cases isOk
      · intro old inTable row stored same _
        rw [commit_error done] at stored
        rw [unique stored inTable same]
      · intro row stored isNew
        rw [commit_error done] at stored
        exact absurd (List.mem_map_of_mem stored) isNew
  | ok after =>
      have facts := perform_epochsMoved sound done
      have fromOld : ∀ old ∈ db.groups, ∀ row ∈ after.groups, row.id = old.id →
          (MovesEpoch db old.id op → row.epoch = old.epoch + 1) ∧
            (¬ MovesEpoch db old.id op → row.epoch = old.epoch) := by
        intro old inTable row stored same
        rcases facts row stored with ⟨other, otherStored, sameId, cases_⟩ | ⟨isNew, -⟩
        · have sameRow : other = old := unique otherStored inTable (sameId.trans same)
          rw [same, sameRow] at cases_
          exact cases_
        · have older := sound.constraints.nextGroup old inTable
          exact absurd (same.symm.trans isNew) (ne_of_lt older)
      constructor
      · intro old inTable row stored same _ moves
        rw [commit_ok done] at stored
        exact (fromOld old inTable row stored same).1 moves
      · intro old inTable row stored same still
        rw [commit_ok done] at stored
        exact (fromOld old inTable row stored same).2 fun moves => still ⟨⟨after, done⟩, moves⟩
      · intro row stored isNew
        rw [commit_ok done] at stored
        rcases facts row stored with ⟨old, inTable, sameId, -⟩ | ⟨-, created⟩
        · exact absurd (List.mem_map.mpr ⟨old, inTable, sameId⟩) isNew
        · exact created

/-- **Epoch discipline**, of every run: epochs never go back, each step moves them as
`EpochStep` says, no pending key is stamped ahead of its group, two batches of a group
carry different epochs, and `_store_skdms` never meets the unique key. -/
theorem epoch_discipline (ops : List Operation) :
    (∀ earlier later, earlier <+: later → later <+: ops →
      ∀ old ∈ (service.run earlier).groups, ∀ row ∈ (service.run later).groups,
        row.id = old.id → old.epoch ≤ row.epoch) ∧
    EachStep (fun earlier op => EpochStep (service.run earlier) op) ops ∧
    Throughout (fun earlier => PendingWithinEpoch (service.run earlier)) ops ∧
    (∀ earlier op earlier' op' b b', earlier ++ [op] <+: ops → earlier' ++ [op'] <+: ops →
      earlier ≠ earlier' → batch (service.run earlier) op = some b →
      batch (service.run earlier') op' = some b' → b.groupId = b'.groupId →
      b.epoch ≠ b'.epoch) ∧
    EachStep (fun earlier op => ∀ at_ g K, CallsStoreSkdms (service.run earlier) op at_ g K →
      storeSkdmsUncommitted at_ g K ≠ .error (.integrityError .unique)) ops := by
  refine ⟨?_, ?_, ?_, ?_, ?_⟩
  · intro earlier later before _ old inTable row stored same
    have reached := reached_stays before (reached_of_stored (reachable earlier) inTable)
    exact reached.2 row stored same
  · intro earlier op _
    exact epochStep (reachable earlier) op
  · intro earlier _
    exact (reachable earlier).epochs
  · intro earlier op earlier' op' b b' one other different stored stored' sameGroup sameEpoch
    exact different (batches_differ one other stored stored' sameGroup sameEpoch)
  · intro earlier op _ at_ g K call
    exact callsStoreSkdms_ne_unique (reachable earlier) call

end SecureMsg.Groups
