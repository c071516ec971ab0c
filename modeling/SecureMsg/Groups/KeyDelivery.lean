/-
# Groups.KeyDelivery — what a pop of sender keys returns

The history `owed` keeps, for each reader and group, the rows stored for them
since the reader's last pop and the group's last removal.  While the account and
the group exist the pending rows are exactly these (`pending_eq_owed`); with
either of them gone nothing is pending, because the rows went with the cascade
(`keys_delivered_once`).

A row that has been popped never comes back: later batches of the group are
stamped past it.
-/
import SecureMsg.Groups.Epochs
import SecureMsg.Repository.Personal

namespace SecureMsg.Groups

open SecureMsg.Theory SecureMsg.Store SecureMsg.Repository

set_option autoImplicit false

variable {db after : Database} {op : Operation}

/-! ## The rows a call stores -/

def batchRows (db : Database) (op : Operation) : List SenderKeyDistribution :=
  ((batch db op).map Batch.rows).getD []

theorem batchRows_none (nothing : supplied db op = none) : batchRows db op = [] := by
  rw [batchRows, batch, nothing]
  cases perform db op with
  | ok after => rfl
  | error e => rfl

theorem batchRows_some (done : perform db op = .ok after) {g : GroupId} {K : Ciphertexts}
    (handed : supplied db op = some (g, K)) {row : Group} (found : after.findGroup g = some row) :
    batchRows db op = skdmRows g row.epoch K := by
  rw [batchRows, batch, done, handed]
  simp only [Option.bind_some, found]
  rfl

/-- The calls that leave nothing pending for `u` in `g` from before: a pop, and a
removal from the group. -/
def Clears (db : Database) (u : UserId) (g : GroupId) : Operation → Prop
  | .popSkdmsForUser v h => v = u ∧ h = g
  | .removeMember h _ v _ => h = g ∧ db.IsMember g v
  | _ => False

instance (db : Database) (u : UserId) (g : GroupId) : DecidablePred (Clears db u g)
  | .popSkdmsForUser v h => inferInstanceAs (Decidable (v = u ∧ h = g))
  | .removeMember h _ v _ => inferInstanceAs (Decidable (h = g ∧ db.IsMember g v))
  | .createUser .. | .deleteUser .. | .blockRefreshToken .. | .createGroup .. | .addMember ..
  | .storeSkdms .. | .storeGroupMessage .. | .revokeGroupMessage .. | .recordGroupReceipt ..
  | .storeMessage .. | .deleteMessage .. | .storeKeyBundle .. | .addOneTimePrekeys ..
  | .popOneTimePrekey .. | .rolledBack .. => inferInstanceAs (Decidable False)

/-! ## Pending rows, call by call -/

/-- The rows waiting for `u` in `g`. -/
def pending (db : Database) (u : UserId) (g : GroupId) : List SenderKeyDistribution :=
  db.senderKeyDistributions.filter (pendingFor u g)

/-- What a call that goes through does to the rows waiting for `u` in `g`. -/
def Settles (db : Database) (op : Operation) (after : Database) (u : UserId) (g : GroupId) : Prop :=
  pending after u g =
    (if Clears db u g op then [] else pending db u g) ++
      (batchRows db op).filter (pendingFor u g)

variable {u : UserId} {g : GroupId}

theorem pendingFor_iff {row : SenderKeyDistribution} :
    pendingFor u g row = true ↔ row.recipientId = u ∧ row.groupId = g := by
  simp [pendingFor]

theorem settles_appended (still : ¬ Clears db u g op)
    (rows : after.senderKeyDistributions = db.senderKeyDistributions ++ batchRows db op) :
    Settles db op after u g := by
  rw [Settles, if_neg still, pending, rows, List.filter_append]
  rfl

theorem settles_same (still : ¬ Clears db u g op) (nothing : supplied db op = none)
    (rows : after.senderKeyDistributions = db.senderKeyDistributions) :
    Settles db op after u g := by
  refine settles_appended still ?_
  rw [batchRows_none nothing, rows, List.append_nil]

/-- Rows go, but none of those waiting for `u` in `g`. -/
theorem settles_filtered {keep : SenderKeyDistribution → Bool} (still : ¬ Clears db u g op)
    (nothing : supplied db op = none)
    (rows : after.senderKeyDistributions = db.senderKeyDistributions.filter keep)
    (kept : ∀ row, pendingFor u g row = true → row ∈ db.senderKeyDistributions →
      keep row = true) : Settles db op after u g := by
  rw [Settles, if_neg still, batchRows_none nothing, List.filter_nil, List.append_nil, pending,
    rows, List.filter_filter]
  refine List.filter_congr fun row stored => ?_
  cases waiting : pendingFor u g row with
  | false => rfl
  | true =>
      rw [kept row waiting stored]
      rfl

theorem settles_createGroup (sound : Sound db) {name : String} {creatorId : UserId}
    {initialMembers : Ciphertexts}
    (done : perform db (.createGroup name creatorId initialMembers) = .ok after) :
    Settles db (.createGroup name creatorId initialMembers) after u g := by
  obtain ⟨group, created⟩ := dropResult_ok done
  obtain ⟨-, -, -, isRow, isAfter⟩ := createGroup_ok sound.constraints created
  refine settles_appended id ?_
  have listed : group ∈ after.groups := by
    rw [isAfter]
    exact List.mem_append_right _ (List.mem_singleton_self _)
  have found := (sound.perform done).constraints.findGroup_eq_some.mpr listed
  have sameId : group.id = db.sequences.groups := by rw [isRow]
  rw [isAfter]
  cases some_ : initialMembers.nonempty with
  | false =>
      have nothing : supplied db (.createGroup name creatorId initialMembers) = none := by
        simp [supplied, some_]
      simp only [batchRows_none nothing, skdmRows_eq_nil some_]
  | true =>
      have handed : supplied db (.createGroup name creatorId initialMembers) =
          some (group.id, initialMembers) := by
        simp [supplied, some_, sameId]
      have atOne : group.epoch = 1 := by
        rw [isRow]
        simp [some_]
      rw [batchRows_some done handed found, atOne]

theorem settles_addMember {h : GroupId} {r v : UserId} {skdmCiphertext : Bytes}
    (done : perform db (.addMember h r v skdmCiphertext) = .ok after) :
    Settles db (.addMember h r v skdmCiphertext) after u g := by
  obtain ⟨row, found, -, -, rfl⟩ := addMember_ok done
  refine settles_appended id ?_
  have bumped : (db.updateGroup h bumpEpoch).findGroup h = some (bumpEpoch row) := by
    rw [findGroup_updateGroup bumpEpoch_id, found]
    rfl
  rw [batchRows_some done rfl bumped]
  rfl

theorem settles_storeSkdms {h : GroupId} {K : Ciphertexts}
    (done : perform db (.storeSkdms h K) = .ok after) :
    Settles db (.storeSkdms h K) after u g := by
  obtain ⟨row, found, -, rfl⟩ := storeSkdmsUncommitted_ok done
  refine settles_appended id ?_
  have bumped : (db.updateGroup h bumpEpoch).findGroup h = some (bumpEpoch row) := by
    rw [findGroup_updateGroup bumpEpoch_id, found]
    rfl
  rw [batchRows_some done rfl bumped]
  rfl

theorem settles_removed {h : GroupId} {r v : UserId} {K : Ciphertexts} {row : Group}
    {transfer : Option UserId} (found : db.findGroup h = some row) (member : db.IsMember h v)
    (many : 1 < (remaining db h v).length)
    (done : perform db (.removeMember h r v K) = .ok (departure db h v transfer row.epoch K)) :
    Settles db (.removeMember h r v K) (departure db h v transfer row.epoch K) u g := by
  have found' : (departure db h v transfer row.epoch K).findGroup h =
      some (departed transfer row) := by
    have updated : (db.updateGroup h (departed transfer)).findGroup h =
        (db.findGroup h).map (departed transfer) := findGroup_updateGroup (departed_id transfer)
    rw [found] at updated
    exact updated
  have rows : batchRows db (.removeMember h r v K) = skdmRows h (row.epoch + 1) K := by
    cases some_ : K.nonempty with
    | false =>
        rw [skdmRows_eq_nil some_, batchRows_none]
        simp [supplied, some_]
    | true =>
        refine batchRows_some done ?_ found'
        simp [supplied, some_, member, many]
  rw [Settles, rows, pending, departure, List.filter_append]
  congr 1
  by_cases hit : h = g
  · subst hit
    rw [if_pos ⟨rfl, member⟩, List.filter_filter, List.filter_eq_nil_iff]
    intro waiting _
    simp [pendingFor]
  · rw [if_neg fun clears => hit clears.1, List.filter_filter, pending]
    refine List.filter_congr fun waiting _ => ?_
    by_cases other : waiting.groupId = g
    · simp [pendingFor, other, Ne.symm hit]
    · simp [pendingFor, other]

theorem settles_dissolved (sound : Sound db) {h : GroupId} {r v : UserId} {K : Ciphertexts}
    (few : (remaining db h v).length ≤ 1)
    (known : g ∈ ((db.deleteGroupMember h v).deleteGroupsWhere fun row => row.id = h).groupIds) :
    Settles db (.removeMember h r v K)
      ((db.deleteGroupMember h v).deleteGroupsWhere fun row => row.id = h) u g := by
  obtain ⟨row, inTable, rfl⟩ := List.mem_map.mp known
  obtain ⟨stored, kept⟩ := List.mem_filter.mp inTable
  have other : row.id ≠ h := by simpa using kept
  refine settles_filtered (fun clears => other clears.1.symm) ?_ rfl ?_
  · have notMany : ¬ 1 < (remaining db h v).length := by omega
    simp [supplied, notMany]
  · intro waiting isFor _
    rw [(pendingFor_iff.mp isFor).2,
      (sound.constraints.deleteGroupMember h v).groupGone_eq stored]
    simpa using other

theorem settles_accountDeleted (sound : Sound db) {v : UserId} (exists_ : v ∈ db.userIds)
    (userKnown : u ∈ after.userIds) (groupKnown : g ∈ after.groupIds)
    (isAfter : after = (groupsSettled db v).deleteUsersWhere fun row => row.id = v) :
    Settles db (.deleteUser v) after u g := by
  have c := sound.constraints
  have gone := deleteUser_deleted c sound.creators exists_
  have other : u ≠ v := by
    obtain ⟨row, stored, rfl⟩ := List.mem_map.mp userKnown
    rw [isAfter] at stored
    exact ((gone.users row).mp stored).2
  have stays : ¬ OnlyMember db g v ∧ g ∈ db.groupIds := by
    obtain ⟨row, stored, rfl⟩ := List.mem_map.mp groupKnown
    rw [isAfter] at stored
    obtain ⟨old, inTable, stays, rfl⟩ := (gone.groups row).mp stored
    rw [withoutUser_id]
    exact ⟨stays, List.mem_map_of_mem inTable⟩
  have settled : (groupsSettled db v).senderKeyDistributions = db.senderKeyDistributions.filter
      fun row => !db.groupGone (fun r => decide (OnlyMember db r.id v)) row.groupId := rfl
  have rows : after.senderKeyDistributions =
      (groupsSettled db v).senderKeyDistributions.filter fun row => !decide (row.recipientId = v) := by
    rw [isAfter]
    simp [Database.deleteUsersWhere, groupsSettled_userGone exists_,
      groupsSettled_groupGone v sound.creators]
  rw [settled, List.filter_filter] at rows
  refine settles_filtered id rfl rows ?_
  intro row isFor _
  obtain ⟨rfl, rfl⟩ := pendingFor_iff.mp isFor
  rw [(soleGroup_stays c stays.2).mpr stays.1]
  simpa using other

theorem settles_popped {v : UserId} {h : GroupId} :
    Settles db (.popSkdmsForUser v h) (db.deleteSkdmsWhere (pendingFor v h)) u g := by
  by_cases hit : v = u ∧ h = g
  · obtain ⟨rfl, rfl⟩ := hit
    rw [Settles, if_pos ⟨rfl, rfl⟩, batchRows_none rfl, pending]
    show List.filter _ (List.filter _ _) = []
    rw [List.filter_filter, List.filter_eq_nil_iff]
    simp
  · refine settles_filtered hit rfl rfl ?_
    intro row isFor _
    obtain ⟨rfl, rfl⟩ := pendingFor_iff.mp isFor
    rw [Bool.not_eq_true', ← Bool.not_eq_true, pendingFor_iff]
    exact fun same => hit ⟨same.1.symm, same.2.symm⟩

/-- A call that is none of the six leaves the table alone. -/
theorem settles_elsewhere (effect : Effect db op after) (still : ¬ Clears db u g op)
    (nothing : supplied db op = none) (notPop : ∀ v h, op ≠ .popSkdmsForUser v h)
    (notDeletion : ∀ v, op ≠ .deleteUser v) (notRemoval : ∀ h r v K, op ≠ .removeMember h r v K)
    (notNew : ∀ name c K, op ≠ .createGroup name c K) : Settles db op after u g := by
  cases effect with
  | accountDeleted => exact absurd rfl (notDeletion _)
  | groupCreated => exact absurd rfl (notNew _ _ _)
  | memberAdded => cases nothing
  | groupDissolved => exact absurd rfl (notRemoval _ _ _ _)
  | memberRemoved => exact absurd rfl (notRemoval _ _ _ _)
  | skdmsStored => cases nothing
  | skdmsPopped => exact absurd rfl (notPop _ _)
  | messageStored => exact settles_same still nothing rfl
  | messageRevoked => exact settles_same still nothing rfl
  | receiptRecorded => exact settles_same still nothing rfl
  | elsewhere _ _ _ same => exact settles_same still nothing same.senderKeyDistributions

/-- **What a call does to the rows waiting for a user in a group that are there after it.** -/
theorem perform_settles (sound : Sound db) (done : perform db op = .ok after)
    (userKnown : u ∈ after.userIds) (groupKnown : g ∈ after.groupIds) :
    Settles db op after u g := by
  cases op with
  | createGroup name creatorId initialMembers => exact settles_createGroup sound done
  | addMember h r v skdmCiphertext => exact settles_addMember done
  | storeSkdms h K => exact settles_storeSkdms done
  | removeMember h r v K =>
      obtain ⟨exit, removed⟩ := dropResult_ok done
      cases removeMember_ok removed with
      | groupNotFound absent =>
          have outside : ∀ w, ¬ db.IsMember h w := fun w member =>
            Database.findGroup_none.mp absent (sound.constraints.member_exists member).1
          refine settles_same ?_ ?_ rfl
          · rintro ⟨rfl, member⟩
            exact outside v member
          · simp [supplied, outside v]
      | userNotInGroup group selected authorised absent =>
          refine settles_same ?_ ?_ rfl
          · rintro ⟨rfl, member⟩
            exact absent member
          · simp [supplied, absent]
      | lastMemberLeft group selected authorised member few =>
          exact settles_dissolved sound few groupKnown
      | removed object row selected found authorised member many known transfer =>
          exact settles_removed found member many done
  | deleteUser v =>
      obtain ⟨deleted, isDone⟩ := dropResult_ok done
      rcases deleteUser_cases sound.constraints isDone with ⟨-, rfl, -⟩ | ⟨exists_, rfl, -⟩
      · exact settles_same id rfl rfl
      · exact settles_accountDeleted sound exists_ userKnown groupKnown rfl
  | popSkdmsForUser v h =>
      cases done
      exact settles_popped
  | createUser | blockRefreshToken | storeGroupMessage | revokeGroupMessage
  | recordGroupReceipt | storeMessage | deleteMessage | storeKeyBundle | addOneTimePrekeys
  | popOneTimePrekey | rolledBack =>
      exact settles_elsewhere (sound.effect done) id rfl (by simp) (by simp) (by simp) (by simp)

/-! ## What is owed -/

/-- The history: for each reader and group, the rows stored since the call that last
cleared them, those stored by that call itself included. -/
def noteOwed (db : Database) (op : Operation) (owed : UserId → GroupId → List SenderKeyDistribution) :
    UserId → GroupId → List SenderKeyDistribution := fun u g =>
  match perform db op with
  | .error _ => owed u g
  | .ok _ =>
      (if Clears db u g op then [] else owed u g) ++ (batchRows db op).filter (pendingFor u g)

def owed (ops : List Operation) : UserId → GroupId → List SenderKeyDistribution :=
  service.observe noteOwed (fun _ _ => []) ops

/-- Recipients of a batch exist. -/
theorem supplied_known (sound : Sound db) (done : perform db op = .ok after) {K : Ciphertexts}
    (handed : supplied db op = some (g, K)) : ∀ uid ∈ K.keys, uid ∈ db.userIds := by
  cases op with
  | createGroup name creatorId initialMembers =>
      obtain ⟨group, created⟩ := dropResult_ok done
      simp only [supplied, Option.ite_none_right_eq_some, Option.some.injEq, Prod.mk.injEq] at handed
      obtain ⟨-, -, rfl⟩ := handed
      exact (createGroup_ok sound.constraints created).2.2.1
  | addMember h r v skdmCiphertext =>
      obtain ⟨row, -, -, known, -⟩ := addMember_ok done
      cases handed
      intro uid inKeys
      rw [List.mem_singleton.mp inKeys]
      exact known
  | storeSkdms h skdmCiphertexts =>
      obtain ⟨row, -, known, -⟩ := storeSkdmsUncommitted_ok done
      cases handed
      exact known
  | removeMember h r v skdmCiphertexts =>
      simp only [supplied, Option.ite_none_right_eq_some, Option.some.injEq, Prod.mk.injEq] at handed
      obtain ⟨⟨member, many, -⟩, rfl, rfl⟩ := handed
      obtain ⟨exit, removed⟩ := dropResult_ok done
      cases removeMember_ok removed with
      | groupNotFound absent =>
          have known := (sound.constraints.member_exists member).1
          exact absurd known (Database.findGroup_none.mp absent)
      | userNotInGroup group selected authorised absent => exact absurd member absent
      | lastMemberLeft group selected authorised _ few => omega
      | removed object row selected found authorised _ _ known => exact known
  | _ => cases handed

theorem mem_batchRows {row : SenderKeyDistribution} (listed : row ∈ batchRows db op) :
    ∃ b, batch db op = some b ∧ row.groupId = b.groupId ∧ row.epoch = b.epoch ∧
      row.recipientId ∈ b.skdmCiphertexts.keys := by
  unfold batchRows at listed
  cases stored : batch db op with
  | none =>
      rw [stored] at listed
      cases listed
  | some b =>
      rw [stored] at listed
      exact ⟨b, rfl, mem_skdmRows listed⟩

/-- A stored batch names ids that are there once the call is through. -/
theorem batchRows_known (sound : Sound db) (done : perform db op = .ok after)
    {row : SenderKeyDistribution} (listed : row ∈ batchRows db op) :
    row.recipientId ∈ db.userIds ∧ row.groupId ∈ after.groupIds := by
  obtain ⟨b, stored, sameGroup, -, inKeys⟩ := mem_batchRows listed
  obtain ⟨handed, group, inTable, sameId, -⟩ := batch_ok done stored
  refine ⟨supplied_known sound done handed _ inKeys, ?_⟩
  rw [sameGroup, ← sameId]
  exact List.mem_map_of_mem inTable

theorem perform_newUsers (c : Constraints db) (done : perform db op = .ok after) {id : UserId}
    (known : id ∈ after.userIds) : id ∈ db.userIds ∨ id = db.sequences.users := by
  obtain ⟨row, stored, rfl⟩ := List.mem_map.mp known
  cases perform_users c done with
  | kept rows => exact Or.inl (List.mem_map_of_mem (rows row stored))
  | created new users isNew =>
      rw [users] at stored
      rcases List.mem_append.mp stored with old | added
      · exact Or.inl (List.mem_map_of_mem old)
      · rw [List.mem_singleton.mp added]
        exact Or.inr isNew

theorem perform_newGroups (sound : Sound db) (done : perform db op = .ok after) {id : GroupId}
    (known : id ∈ after.groupIds) : id ∈ db.groupIds ∨ id = db.sequences.groups := by
  obtain ⟨row, stored, rfl⟩ := List.mem_map.mp known
  rcases perform_epochsMoved sound done row stored with ⟨old, inTable, sameId, -⟩ | ⟨isNew, -⟩
  · exact Or.inl (List.mem_map.mpr ⟨old, inTable, sameId⟩)
  · exact Or.inr isNew

/-- The pending rows are what the history says, for accounts and groups that exist. -/
structure OwedPending (db : Database) (owed : UserId → GroupId → List SenderKeyDistribution) :
    Prop where
  agrees : ∀ u ∈ db.userIds, ∀ g ∈ db.groupIds, pending db u g = owed u g
  drawn : ∀ u g, owed u g ≠ [] → u < db.sequences.users ∧ g < db.sequences.groups

/-- Nothing waits for an account or in a group that is not there. -/
theorem pending_unknown (c : Constraints db) (unknown : ¬ (u ∈ db.userIds ∧ g ∈ db.groupIds)) :
    pending db u g = [] := by
  rw [pending, List.filter_eq_nil_iff]
  intro row stored waiting
  obtain ⟨rfl, rfl⟩ := pendingFor_iff.mp waiting
  have known := c.skdm_exists stored
  exact unknown ⟨known.2, known.1⟩

theorem owedPending_kept (sound : Sound db)
    {owed : UserId → GroupId → List SenderKeyDistribution} (now : OwedPending db owed)
    (op : Operation) : OwedPending (commit db op) (noteOwed db op owed) := by
  cases done : perform db op with
  | error e =>
      have quiet : noteOwed db op owed = owed := by
        funext u g
        rw [noteOwed, done]
      rw [quiet, commit_error done]
      exact now
  | ok after =>
      have c := sound.constraints
      have c' := (sound.perform done).constraints
      have forward := effect_sequences (sound.effect done)
      have noted : ∀ u g, noteOwed db op owed u g =
          (if Clears db u g op then [] else owed u g) ++
            (batchRows db op).filter (pendingFor u g) := by
        intro u g
        rw [noteOwed, done]
      rw [commit_ok done]
      constructor
      · intro u userKnown g groupKnown
        have before : pending db u g = owed u g := by
          by_cases known : u ∈ db.userIds ∧ g ∈ db.groupIds
          · exact now.agrees u known.1 g known.2
          · rw [pending_unknown c known]
            by_contra owedSome
            obtain ⟨oldUser, oldGroup⟩ := now.drawn u g (Ne.symm owedSome)
            refine known ⟨?_, ?_⟩
            · rcases perform_newUsers c done userKnown with old | isNew
              · exact old
              · exact absurd isNew (ne_of_lt oldUser)
            · rcases perform_newGroups sound done groupKnown with old | isNew
              · exact old
              · exact absurd isNew (ne_of_lt oldGroup)
        rw [perform_settles sound done userKnown groupKnown, noted, before]
      · intro u g some_
        rw [noted] at some_
        by_cases rows : (batchRows db op).filter (pendingFor u g) = []
        · rw [rows, List.append_nil] at some_
          have old : owed u g ≠ [] := by
            intro none_
            rw [none_, ite_self] at some_
            exact some_ rfl
          obtain ⟨oldUser, oldGroup⟩ := now.drawn u g old
          exact ⟨lt_of_lt_of_le oldUser forward.users, lt_of_lt_of_le oldGroup forward.groups⟩
        · obtain ⟨row, listed⟩ := List.exists_mem_of_ne_nil _ rows
          obtain ⟨inBatch, waiting⟩ := List.mem_filter.mp listed
          obtain ⟨rfl, rfl⟩ := pendingFor_iff.mp waiting
          obtain ⟨userKnown, groupKnown⟩ := batchRows_known sound done inBatch
          exact ⟨lt_of_lt_of_le (c.userId_lt userKnown) forward.users, c'.groupId_lt groupKnown⟩

theorem pending_eq_owed (ops : List Operation) :
    OwedPending (service.run ops) (owed ops) := by
  have both : Sound (service.run ops) ∧ OwedPending (service.run ops) (owed ops) := by
    refine service.observe_invariant (P := fun db owed => Sound db ∧ OwedPending db owed) ?_ ?_ ops
    · exact ⟨sound_empty, fun u known => absurd known List.not_mem_nil, fun u g some_ =>
        absurd rfl some_⟩
    · intro db op owed ⟨sound, now⟩
      exact ⟨sound.commit op, owedPending_kept sound now op⟩
  exact both.2

/-! ## Popped once -/

/-- The row is gone and its group has reached its epoch. -/
def Spent (row : SenderKeyDistribution) (db : Database) : Prop :=
  row ∉ db.senderKeyDistributions ∧ Reached row.groupId row.epoch db

theorem spent_kept (sound : Sound db) {row : SenderKeyDistribution} (spent : Spent row db)
    (op : Operation) : Spent row (commit db op) := by
  obtain ⟨gone, reached⟩ := spent
  refine ⟨?_, reached_kept sound reached op⟩
  refine commit_keeps (P := fun db => row ∉ db.senderKeyDistributions) gone ?_
  intro after done stored
  have known := (sound.perform done).constraints.skdm_exists stored
  have waiting : row ∈ pending after row.recipientId row.groupId :=
    List.mem_filter.mpr ⟨stored, pendingFor_iff.mpr ⟨rfl, rfl⟩⟩
  rw [perform_settles sound done known.2 known.1] at waiting
  rcases List.mem_append.mp waiting with old | new
  · split at old
    · cases old
    · exact gone (List.mem_of_mem_filter old)
  · obtain ⟨b, isBatch, sameGroup, sameEpoch, -⟩ := mem_batchRows (List.mem_of_mem_filter new)
    rw [sameGroup] at reached
    have later := batch_past sound isBatch reached
    omega

/-- What a pop took is not there at any later step. -/
theorem popped_gone {earlier later : List Operation}
    (before : earlier ++ [.popSkdmsForUser u g] <+: later) {row : SenderKeyDistribution}
    (popped : row ∈ pending (service.run earlier) u g) :
    row ∉ (service.run later).senderKeyDistributions := by
  have sound := reachable earlier
  obtain ⟨stored, waiting⟩ := List.mem_filter.mp popped
  obtain ⟨group, inTable, sameId⟩ :=
    List.mem_map.mp (sound.constraints.skdm_exists stored).1
  have reached : Reached row.groupId row.epoch (service.run earlier) := by
    rw [← sameId]
    refine ⟨sound.constraints.nextGroup group inTable, ?_⟩
    intro other listed same
    exact sound.epochs row stored other listed (same.trans sameId)
  have spent : Spent row (service.run (earlier ++ [.popSkdmsForUser u g])) := by
    rw [System.run_snoc]
    refine ⟨?_, reached_kept sound reached _⟩
    intro left
    have kept := (List.mem_filter.mp left).2
    rw [waiting] at kept
    cases kept
  have kept : ∀ db op, Sound db ∧ Spent row db → Sound (commit db op) ∧ Spent row (commit db op) :=
    fun db op now => ⟨now.1.commit op, spent_kept now.1 now.2 op⟩
  exact (service.stays kept before ⟨reachable _, spent⟩).2.1

theorem popped_disjoint {ops earlier earlier' : List Operation} {u' : UserId} {g' : GroupId}
    (one : earlier ++ [.popSkdmsForUser u g] <+: ops)
    (other : earlier' ++ [.popSkdmsForUser u' g'] <+: ops) (different : earlier ≠ earlier') :
    (pending (service.run earlier) u g).Disjoint (pending (service.run earlier') u' g') := by
  intro row popped popped'
  rcases step_order one other with same | before | before
  · exact different same
  · exact popped_gone before popped (List.mem_of_mem_filter popped')
  · exact popped_gone before popped' (List.mem_of_mem_filter popped)

/-! ## Exactly once -/

/-- An entry as `pop_skdms_for_user` returns it. -/
def delivered (row : SenderKeyDistribution) : Int × Bytes := (row.epoch, row.skdmCiphertext)

theorem popSkdmsForUser_snd : (popSkdmsForUser db u g).2 = (pending db u g).map delivered := rfl

/-- Every pop returns what is owed, whoever is still there. -/
def DeliversOwed (ops : List Operation) : Prop :=
  ∀ earlier u g, earlier ++ [.popSkdmsForUser u g] <+: ops →
    (popSkdmsForUser (service.run earlier) u g).2 = (owed earlier u g).map delivered

/-- A pop of an existing account in an existing group returns what is owed, any other
nothing; no row is popped twice; and a pop touches no other reader and no other group. -/
structure DeliveredOnce (ops : List Operation) : Prop where
  exact_ : ∀ earlier u g, earlier ++ [.popSkdmsForUser u g] <+: ops →
    (popSkdmsForUser (service.run earlier) u g).2 =
      if u ∈ (service.run earlier).userIds ∧ g ∈ (service.run earlier).groupIds then
        (owed earlier u g).map delivered
      else []
  once : ∀ earlier u g earlier' u' g', earlier ++ [.popSkdmsForUser u g] <+: ops →
    earlier' ++ [.popSkdmsForUser u' g'] <+: ops → earlier ≠ earlier' →
      (pending (service.run earlier) u g).Disjoint (pending (service.run earlier') u' g')
  others : ∀ earlier u g, earlier ++ [.popSkdmsForUser u g] <+: ops →
    (∃ rows, service.run (earlier ++ [.popSkdmsForUser u g]) =
      { service.run earlier with senderKeyDistributions := rows }) ∧
    ∀ v h, ¬ (v = u ∧ h = g) → pending (service.run (earlier ++ [.popSkdmsForUser u g])) v h =
      pending (service.run earlier) v h

/-- **Sender keys are delivered exactly once**, in every run. -/
theorem keys_delivered_once (ops : List Operation) : DeliveredOnce ops where
  exact_ earlier u g _ := by
    rw [popSkdmsForUser_snd]
    by_cases known : u ∈ (service.run earlier).userIds ∧ g ∈ (service.run earlier).groupIds
    · rw [if_pos known, (pending_eq_owed earlier).agrees u known.1 g known.2]
    · rw [if_neg known, pending_unknown (reachable earlier).constraints known]
      rfl
  once _ _ _ _ _ _ one other different := popped_disjoint one other different
  others earlier u g _ := by
    rw [System.run_snoc]
    refine ⟨⟨_, rfl⟩, ?_⟩
    intro v h different
    show List.filter _ (List.filter _ _) = _
    rw [List.filter_filter, pending]
    refine List.filter_congr fun row _ => ?_
    cases waiting : pendingFor v h row with
    | false => rfl
    | true =>
        have other : pendingFor u g row = false := by
          rw [← Bool.not_eq_true, pendingFor_iff]
          rintro ⟨rfl, rfl⟩
          obtain ⟨sameUser, sameGroup⟩ := pendingFor_iff.mp waiting
          exact different ⟨sameUser.symm, sameGroup.symm⟩
        rw [other]
        rfl

/-- Bob's account goes while a key waits for him. -/
def accountGone : List Operation :=
  [.createUser "ada" "5a" [1] [2], .createUser "bob" "5b" [3] [4],
    .createGroup "team" 1 (Dict.singleton 2 [9]), .deleteUser 2, .popSkdmsForUser 2 1]

/-- Ada distributes a key to Bob, who is not in her group, and deletes her account: the
group goes with it. -/
def groupGone : List Operation :=
  [.createUser "ada" "5a" [1] [2], .createUser "bob" "5b" [3] [4],
    .createGroup "team" 1 Dict.empty, .storeSkdms 1 (Dict.singleton 2 [9]), .deleteUser 1,
    .popSkdmsForUser 2 1]

theorem owed_lost : ¬ DeliversOwed accountGone ∧ ¬ DeliversOwed groupGone := by
  constructor
  · intro delivers
    have popped := delivers (accountGone.take 4) 2 1 (by decide)
    revert popped
    decide
  · intro delivers
    have popped := delivers (groupGone.take 5) 2 1 (by decide)
    revert popped
    decide

end SecureMsg.Groups
