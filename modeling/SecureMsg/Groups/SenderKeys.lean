/-
# Groups.SenderKeys — who a pending sender key is for, and how old it is

Two laws about `sender_key_distributions`, each with the steps that break it:

* every pending key is for a current member (`HeldForMembers`).  `store_skdms`
  and the keys supplied with a removal are written for whoever the map names;
* no key from before a departure is pending after it (`NoKeyOutlives`).
  `remove_member` purges the group's keys, `delete_user` only bumps the epoch.

Both are settled along whole runs by `throughout_iff_eachStep`: the step lemmas
say which calls keep the law, given that it held before.
-/
import SecureMsg.Repository.Operation

namespace SecureMsg.Groups

open SecureMsg.Theory SecureMsg.Store SecureMsg.Repository

set_option autoImplicit false

variable {db after : Database} {op : Operation}

/-! ## What a call does to memberships, epochs and pending keys -/

/-- Somebody who was a member of the group before is none after. -/
def LostMember (db after : Database) (g : GroupId) : Prop :=
  ∃ uid ∈ db.membersOf g, ¬ after.IsMember g uid

instance (db after : Database) (g : GroupId) : Decidable (LostMember db after g) :=
  inferInstanceAs (Decidable (∃ uid ∈ db.membersOf g, ¬ after.IsMember g uid))

theorem lostMember_iff {g : GroupId} :
    LostMember db after g ↔ ∃ uid, db.IsMember g uid ∧ ¬ after.IsMember g uid := by
  simp [LostMember]

/-- More members, nobody lost. -/
theorem not_lostMember (members : ∀ row ∈ db.groupMembers, row ∈ after.groupMembers)
    (g : GroupId) : ¬ LostMember db after g := by
  rw [lostMember_iff]
  rintro ⟨uid, member, lost⟩
  exact lost (members ⟨g, uid⟩ member)

theorem lostMember_accountDeleted {u : UserId} (gone : AccountDeleted db u after) {g : GroupId} :
    LostMember db after g ↔ db.IsMember g u := by
  rw [lostMember_iff]
  constructor
  · rintro ⟨uid, member, lost⟩
    have same : uid = u := by
      by_contra different
      exact lost ((gone.groupMembers ⟨g, uid⟩).mpr ⟨member, different⟩)
    exact same ▸ member
  · intro member
    exact ⟨u, member, fun stays => ((gone.groupMembers ⟨g, u⟩).mp stays).2 rfl⟩

theorem lostMember_departure {g h : GroupId} {u : UserId} {transfer : Option UserId} {epoch : Int}
    {skdmCiphertexts : Ciphertexts} (member : db.IsMember g u) :
    LostMember db (departure db g u transfer epoch skdmCiphertexts) h ↔ h = g := by
  rw [lostMember_iff]
  constructor
  · rintro ⟨uid, before, lost⟩
    rw [departure_isMember, not_and, not_not] at lost
    exact (lost before).1
  · rintro rfl
    refine ⟨u, member, ?_⟩
    rw [departure_isMember]
    exact fun stays => stays.2 ⟨rfl, rfl⟩

/-- How a call moves one group's epoch: never back, and on when a member was lost. -/
structure EpochMoves (db after : Database) (old new : Group) : Prop where
  sameId : old.id = new.id
  forward : old.epoch ≤ new.epoch
  departure : LostMember db after old.id → old.epoch < new.epoch

theorem effect_epochs (effect : Effect db op after) :
    ∀ row ∈ after.groups, (∃ old ∈ db.groups, EpochMoves db after old row) ∨
      row.id = db.sequences.groups := by
  have bump : ∀ (g : GroupId) (f : Group → Group), (∀ r, (f r).id = r.id) →
      (∀ r, (f r).epoch = r.epoch + 1) → after.groups = (db.updateGroup g f).groups →
      (∀ h, LostMember db after h → h = g) →
      ∀ row ∈ after.groups, ∃ old ∈ db.groups, EpochMoves db after old row := by
    intro g f keeps raises groups lost row stored
    rw [groups] at stored
    obtain ⟨old, inTable, rfl⟩ := Database.mem_updateGroup.mp stored
    refine ⟨old, inTable, ?_⟩
    by_cases hit : old.id = g
    · rw [if_pos hit]
      have raised := raises old
      exact ⟨(keeps old).symm, by omega, fun _ => by omega⟩
    · rw [if_neg hit]
      exact ⟨rfl, le_refl _, fun lostHere => absurd (lost _ lostHere) hit⟩
  have stay : after.groups = db.groups → (∀ row ∈ db.groupMembers, row ∈ after.groupMembers) →
      ∀ row ∈ after.groups, ∃ old ∈ db.groups, EpochMoves db after old row := by
    intro groups members row stored
    rw [groups] at stored
    exact ⟨row, stored, rfl, le_refl _, fun lost => absurd lost (not_lostMember members _)⟩
  intro row stored
  cases effect with
  | accountDeleted u _ _ gone =>
      left
      obtain ⟨old, inTable, -, rfl⟩ := (gone.groups row).mp stored
      refine ⟨old, inTable, (withoutUser_id old).symm, ?_, ?_⟩
      · unfold withoutUser
        by_cases member : db.IsMember old.id u
        · rw [if_pos member]
          show old.epoch ≤ old.epoch + 1
          omega
        · rw [if_neg member]
      · intro lost
        have member := (lostMember_accountDeleted gone).mp lost
        rw [withoutUser, if_pos member]
        show old.epoch < old.epoch + 1
        omega
  | groupCreated name creatorId initialMembers new isRow =>
      rcases List.mem_append.mp stored with old | isNew
      · left
        refine ⟨row, old, rfl, le_refl _, fun lost => ?_⟩
        exact absurd lost (not_lostMember (fun _ inTable => List.mem_append_left _ inTable) _)
      · right
        rw [List.mem_singleton.mp isNew, isRow]
  | memberAdded g r u skdmCiphertext target found =>
      left
      refine bump g bumpEpoch bumpEpoch_id bumpEpoch_epoch rfl ?_ row stored
      intro h lost
      refine absurd lost (not_lostMember ?_ h)
      exact fun _ inTable => mem_groupMembers_added.mpr (Or.inl inTable)
  | groupDissolved g r u skdmCiphertexts target found =>
      left
      obtain ⟨targetStored, rfl⟩ := Database.findGroup_some found
      obtain ⟨inTable, stays⟩ := List.mem_filter.mp stored
      refine ⟨row, inTable, rfl, le_refl _, fun lost => ?_⟩
      obtain ⟨uid, member, gone⟩ := lostMember_iff.mp lost
      rw [dissolved_isMember targetStored] at gone
      have other : row.id ≠ target.id := by simpa using stays
      exact absurd ⟨member, other⟩ gone
  | memberRemoved g r u skdmCiphertexts target found _ member _ _ transfer =>
      left
      exact bump g (departed transfer) (departed_id transfer) (departed_epoch transfer) rfl
        (fun h lost => (lostMember_departure member).mp lost) row stored
  | skdmsStored g skdmCiphertexts target found =>
      left
      exact bump g bumpEpoch bumpEpoch_id bumpEpoch_epoch rfl
        (fun h lost => absurd lost (not_lostMember (fun _ inTable => inTable) h)) row stored
  | skdmsPopped => exact Or.inl (stay rfl (fun _ inTable => inTable) row stored)
  | messageStored => exact Or.inl (stay rfl (fun _ inTable => inTable) row stored)
  | messageRevoked => exact Or.inl (stay rfl (fun _ inTable => inTable) row stored)
  | receiptRecorded => exact Or.inl (stay rfl (fun _ inTable => inTable) row stored)
  | elsewhere _ _ _ same =>
      exact Or.inl (stay same.groups (fun _ inTable => same.groupMembers ▸ inTable) row stored)

/-! ## Keys are held for members -/

/-- Every pending key is for a current member of its group. -/
def HeldForMembers (db : Database) : Prop :=
  ∀ p ∈ db.senderKeyDistributions, db.IsMember p.groupId p.recipientId

instance (db : Database) : Decidable (HeldForMembers db) :=
  inferInstanceAs (Decidable (∀ p ∈ db.senderKeyDistributions, db.IsMember p.groupId p.recipientId))

/-- The calls that name recipients themselves name members only: those there are
now for `store_skdms`, those who remain for a removal that goes through. -/
def AddressesMembers (db : Database) : Operation → Prop
  | .storeSkdms g skdmCiphertexts =>
      g ∈ db.groupIds → (∀ uid ∈ skdmCiphertexts.keys, uid ∈ db.userIds) →
        ∀ uid ∈ skdmCiphertexts.keys, db.IsMember g uid
  | .removeMember g r u skdmCiphertexts =>
      ∀ row ∈ db.groups, row.id = g → (r = u ∨ row.creatorId = r) → db.IsMember g u →
        1 < (remaining db g u).length → (∀ uid ∈ skdmCiphertexts.keys, uid ∈ db.userIds) →
        ∀ uid ∈ skdmCiphertexts.keys, uid ∈ remaining db g u
  | _ => True

theorem heldForMembers_kept (sound : Sound db) (held : HeldForMembers db)
    (effect : Effect db op after) (addressed : AddressesMembers db op) : HeldForMembers after := by
  have c := sound.constraints
  intro p stored
  cases effect with
  | accountDeleted u _ _ gone =>
      obtain ⟨before, other, -⟩ := (gone.senderKeyDistributions p).mp stored
      exact (gone.groupMembers ⟨p.groupId, p.recipientId⟩).mpr ⟨held p before, other⟩
  | groupCreated name creatorId initialMembers row =>
      rcases List.mem_append.mp stored with old | new
      · exact List.mem_append_left _ (held p old)
      · obtain ⟨sameGroup, -, inKeys⟩ := mem_skdmRows new
        refine List.mem_append_right _ (List.mem_cons_of_mem _ ?_)
        exact List.mem_map.mpr ⟨p.recipientId, inKeys, by rw [sameGroup]⟩
  | memberAdded g r u skdmCiphertext row =>
      refine mem_groupMembers_added.mpr ?_
      rcases List.mem_append.mp stored with old | new
      · exact Or.inl (held p old)
      · rw [List.mem_singleton.mp new]
        exact Or.inr rfl
  | groupDissolved g r u skdmCiphertexts row found =>
      obtain ⟨rowStored, rfl⟩ := Database.findGroup_some found
      rw [dissolved_isMember rowStored]
      obtain ⟨before, stays⟩ := List.mem_filter.mp stored
      refine ⟨held p before, ?_⟩
      intro sameGroup
      have gone : (db.deleteGroupMember row.id u).groupGone (fun r => r.id = row.id) p.groupId =
          true := Database.groupGone_iff.mpr ⟨row, rowStored, decide_eq_true rfl, sameGroup.symm⟩
      rw [gone] at stays
      cases stays
  | memberRemoved g r u skdmCiphertexts row found authorised member many known =>
      obtain ⟨rowStored, rfl⟩ := Database.findGroup_some found
      rw [departure_isMember]
      rcases List.mem_append.mp stored with old | new
      · obtain ⟨before, otherGroup⟩ := List.mem_filter.mp old
        refine ⟨held p before, fun leaver => ?_⟩
        simp [leaver.1] at otherGroup
      · obtain ⟨sameGroup, -, inKeys⟩ := mem_skdmRows new
        obtain ⟨isMember, different⟩ := mem_remaining.mp
          (addressed row rowStored rfl authorised member many known _ inKeys)
        rw [sameGroup]
        exact ⟨isMember, fun leaver => different leaver.2⟩
  | skdmsStored g skdmCiphertexts row found known =>
      obtain ⟨rowStored, rfl⟩ := Database.findGroup_some found
      rcases List.mem_append.mp stored with old | new
      · exact held p old
      · obtain ⟨sameGroup, -, inKeys⟩ := mem_skdmRows new
        have isMember := addressed (List.mem_map_of_mem rowStored) known _ inKeys
        show db.IsMember p.groupId p.recipientId
        rw [sameGroup]
        exact isMember
  | skdmsPopped => exact held p (List.mem_of_mem_filter stored)
  | messageStored => exact held p stored
  | messageRevoked => exact held p stored
  | receiptRecorded => exact held p stored
  | elsewhere _ _ _ same =>
      rw [same.senderKeyDistributions] at stored
      unfold Database.IsMember
      rw [same.groupMembers]
      exact held p stored

/-- The row the batch writes for one of its recipients. -/
theorem skdmRows_recipient (g : GroupId) (epoch : Int) {skdmCiphertexts : Ciphertexts}
    {uid : UserId} (inKeys : uid ∈ skdmCiphertexts.keys) :
    ∃ p ∈ skdmRows g epoch skdmCiphertexts, p.groupId = g ∧ p.recipientId = uid := by
  obtain ⟨entry, inDict, rfl⟩ := List.mem_map.mp inKeys
  exact ⟨_, List.mem_map_of_mem inDict, rfl, rfl⟩

theorem storeSkdms_succeeds (sound : Sound db) {row : Group} (stored : row ∈ db.groups)
    {skdmCiphertexts : Ciphertexts} (known : ∀ uid ∈ skdmCiphertexts.keys, uid ∈ db.userIds) :
    storeSkdms db row.id skdmCiphertexts = .ok { db.updateGroup row.id bumpEpoch with
      senderKeyDistributions :=
        db.senderKeyDistributions ++ skdmRows row.id (row.epoch + 1) skdmCiphertexts } := by
  have c := sound.constraints
  refine storeSkdmsUncommitted_succeeds c (c.findGroup_eq_some.mpr stored) known ?_
  intro p pending sameGroup
  have behind := sound.epochs p pending row stored sameGroup.symm
  omega

theorem addressesMembers_of_held (sound : Sound db) (held : HeldForMembers (commit db op)) :
    AddressesMembers db op := by
  have c := sound.constraints
  cases op with
  | storeSkdms g skdmCiphertexts =>
      intro groupKnown known uid inKeys
      obtain ⟨row, rowStored, rfl⟩ := List.mem_map.mp groupKnown
      have done : perform db (.storeSkdms row.id skdmCiphertexts) = .ok _ :=
        storeSkdms_succeeds sound rowStored known
      rw [commit_ok done] at held
      obtain ⟨p, listed, sameGroup, sameUser⟩ :=
        skdmRows_recipient row.id (row.epoch + 1) inKeys
      have isMember := held p (List.mem_append_right _ listed)
      rw [sameGroup, sameUser] at isMember
      exact isMember
  | removeMember g r u skdmCiphertexts =>
      rintro row rowStored rfl authorised member many known uid inKeys
      have found := c.findGroup_eq_some.mpr rowStored
      have selected : Session.fresh.selectGroup db row.id = some row := by
        rw [Session.selectGroup_fresh]
        exact found
      obtain ⟨after, goes⟩ := removeMember_succeeds c selected authorised member many known
      have done : perform db (.removeMember row.id r u skdmCiphertexts) = .ok after := by
        rw [perform, goes]
        rfl
      rw [commit_ok done] at held
      cases removeMember_ok goes with
      | removed object row' _ found' =>
          rw [found] at found'
          cases found'
          obtain ⟨p, listed, sameGroup, sameUser⟩ :=
            skdmRows_recipient row.id (row.epoch + 1) inKeys
          have isMember := held p (List.mem_append_right _ listed)
          rw [sameGroup, sameUser, departure_isMember] at isMember
          exact mem_remaining.mpr ⟨isMember.1, fun same => isMember.2 ⟨rfl, same⟩⟩
  | _ => trivial

/-- One step keeps the law exactly if it addresses members. -/
theorem heldForMembers_step (sound : Sound db) (held : HeldForMembers db) :
    HeldForMembers (commit db op) ↔ AddressesMembers db op := by
  refine ⟨addressesMembers_of_held sound, fun addressed => ?_⟩
  refine commit_keeps held fun after done => ?_
  exact heldForMembers_kept sound held (sound.effect done) addressed

/-- Whatever was popped had been stored while its reader was a member. -/
def PoppedWhileMember (ops : List Operation) : Prop :=
  ∀ earlier u g, earlier ++ [.popSkdmsForUser u g] <+: ops →
    ∀ p ∈ (service.run earlier).senderKeyDistributions, pendingFor u g p = true →
      ∃ before op, before ++ [op] <+: earlier ∧
        p ∉ (service.run before).senderKeyDistributions ∧
        p ∈ (service.run (before ++ [op])).senderKeyDistributions ∧
        (service.run (before ++ [op])).IsMember g u

/-- A member that a removal removed has no key of the group waiting. -/
def RemovedHoldNothing (ops : List Operation) : Prop :=
  ∀ earlier g r u skdmCiphertexts, earlier ++ [.removeMember g r u skdmCiphertexts] <+: ops →
    ¬ (service.run (earlier ++ [.removeMember g r u skdmCiphertexts])).IsMember g u →
    ∀ p ∈ (service.run (earlier ++ [.removeMember g r u skdmCiphertexts])).senderKeyDistributions,
      p.groupId = g → p.recipientId ≠ u

theorem poppedWhileMember {ops : List Operation}
    (held : Throughout (fun earlier => HeldForMembers (service.run earlier)) ops) :
    PoppedWhileMember ops := by
  intro earlier u g popped p stored pending
  obtain ⟨before, op, within, absent, present⟩ := service.arises
    (Q := fun db => p ∈ db.senderKeyDistributions) List.not_mem_nil stored
  have isMember := held (before ++ [op]) ((within.trans (List.prefix_append _ _)).trans popped)
    p present
  have names : p.recipientId = u ∧ p.groupId = g := by simpa [pendingFor] using pending
  rw [names.1, names.2] at isMember
  exact ⟨before, op, within, absent, present, isMember⟩

theorem removedHoldNothing {ops : List Operation}
    (held : Throughout (fun earlier => HeldForMembers (service.run earlier)) ops) :
    RemovedHoldNothing ops := by
  intro earlier g r u skdmCiphertexts within gone p stored sameGroup sameUser
  have isMember := held _ within p stored
  rw [sameGroup, sameUser] at isMember
  exact gone isMember

/-- **Keys stay with members exactly in the runs whose calls address members**: then
every reachable database holds keys for members only, nobody pops a key stored
while they were out, and nobody removed has a key waiting. -/
theorem senderKeys_held_iff (ops : List Operation) :
    (Throughout (fun earlier => HeldForMembers (service.run earlier)) ops ∧
        PoppedWhileMember ops ∧ RemovedHoldNothing ops) ↔
      EachStep (fun earlier op => AddressesMembers (service.run earlier) op) ops := by
  have base : HeldForMembers (service.run []) := fun p stored => absurd stored List.not_mem_nil
  have step : ∀ earlier op, HeldForMembers (service.run earlier) →
      (HeldForMembers (service.run (earlier ++ [op])) ↔
        AddressesMembers (service.run earlier) op) := by
    intro earlier op held
    rw [System.run_snoc]
    exact heldForMembers_step (reachable earlier) held
  have along := throughout_iff_eachStep base step ops
  constructor
  · intro laws
    exact along.mp laws.1
  · intro addressed
    have held := along.mpr addressed
    exact ⟨held, poppedWhileMember held, removedHoldNothing held⟩

/-- What the group endpoints let through: the requester is a member (for
`create_group` and `delete_user` an existing user), and `SendSKDMRequest` has at
least one entry. -/
def IssuedByApi (db : Database) : Operation → Prop
  | .createGroup _ creatorId _ => creatorId ∈ db.userIds
  | .addMember g r _ _ => db.IsMember g r
  | .removeMember g r _ _ => db.IsMember g r
  | .storeSkdms g skdmCiphertexts =>
      (∃ r ∈ db.userIds, db.IsMember g r) ∧ skdmCiphertexts.nonempty = true
  | .popSkdmsForUser u g => db.IsMember g u
  | .deleteUser u => u ∈ db.userIds
  | _ => True

instance (db : Database) : DecidablePred (IssuedByApi db) := fun op => by
  cases op <;> unfold IssuedByApi <;> infer_instance

/-- A member distributes a key to a user outside the group, who is added later
and pops it. -/
def outsider : List Operation :=
  [.createUser "ada" "5a" [1] [2], .createUser "bob" "5b" [3] [4],
    .createGroup "team" 1 Dict.empty, .storeSkdms 1 (Dict.singleton 2 [9]),
    .addMember 1 1 2 [7], .popSkdmsForUser 2 1]

theorem outsider_holds_key :
    EachStep (fun earlier op => IssuedByApi (service.run earlier) op) outsider ∧
      ¬ Throughout (fun earlier => HeldForMembers (service.run earlier)) outsider ∧
      ¬ PoppedWhileMember outsider := by
  refine ⟨by decide, by decide, ?_⟩
  intro popped
  obtain ⟨before, op, within, stored⟩ :=
    popped (outsider.take 5) 2 1 (by decide) ⟨1, 2, [9], 1⟩ (by decide) (by decide)
  obtain ⟨isNext, isTake⟩ := step_iff_take.mp within
  have inside : before.length < 5 := (List.getElem?_eq_some_iff.mp isNext).1
  have noStep : ∀ i < 5, ∀ a ∈ (outsider.take 5)[i]?,
      ¬ ((⟨1, 2, [9], 1⟩ : SenderKeyDistribution) ∉
          (service.run ((outsider.take 5).take i)).senderKeyDistributions ∧
        (⟨1, 2, [9], 1⟩ : SenderKeyDistribution) ∈
          (service.run ((outsider.take 5).take i ++ [a])).senderKeyDistributions ∧
        (service.run ((outsider.take 5).take i ++ [a])).IsMember 1 2) := by decide
  rw [isTake] at stored
  exact noStep _ inside op isNext stored

/-! ## No key outlives a departure -/

/-- The history: for each group, its epoch just before the last step at which it
lost a member. -/
def noteDeparture (db : Database) (op : Operation) (seen : GroupId → Option Int) :
    GroupId → Option Int := fun g =>
  if LostMember db (commit db op) g then (db.findGroup g).map Group.epoch else seen g

def lastDeparture (ops : List Operation) : GroupId → Option Int :=
  service.observe noteDeparture (fun _ => none) ops

/-- Every pending key is stamped later than the group's last departure. -/
def NoKeyOutlives (db : Database) (seen : GroupId → Option Int) : Prop :=
  ∀ p ∈ db.senderKeyDistributions, ∀ e ∈ seen p.groupId, e < p.epoch

instance (db : Database) (seen : GroupId → Option Int) : Decidable (NoKeyOutlives db seen) :=
  inferInstanceAs (Decidable (∀ p ∈ db.senderKeyDistributions, ∀ e ∈ seen p.groupId, e < p.epoch))

/-- A deleted account leaves nobody else's pending key behind in the groups that
go on without it. -/
def DeletesCleanly (db : Database) : Operation → Prop
  | .deleteUser u => ∀ p ∈ db.senderKeyDistributions, db.IsMember p.groupId u →
      ¬ OnlyMember db p.groupId u → p.recipientId = u
  | _ => True

/-- Noted departures are of groups that have been created, which have moved on. -/
def DeparturesBehind (db : Database) (seen : GroupId → Option Int) : Prop :=
  ∀ g, ∀ e ∈ seen g, g < db.sequences.groups ∧ ∀ row ∈ db.groups, row.id = g → e < row.epoch

theorem effect_sequences (effect : Effect db op after) : db.sequences.Within after.sequences := by
  cases effect with
  | accountDeleted _ _ _ gone =>
      rw [gone.sequences]
      exact within_refl _
  | groupCreated => exact ⟨le_refl _, le_of_lt (Int.lt_succ _), le_refl _, le_refl _, le_refl _⟩
  | memberAdded => exact within_refl _
  | groupDissolved => exact within_refl _
  | memberRemoved => exact within_refl _
  | skdmsStored => exact within_refl _
  | skdmsPopped => exact within_refl _
  | messageStored => exact ⟨le_refl _, le_refl _, le_of_lt (Int.lt_succ _), le_refl _, le_refl _⟩
  | messageRevoked => exact within_refl _
  | receiptRecorded => exact within_refl _
  | elsewhere _ _ _ same => exact same.sequences

theorem noteDeparture_error {e : Error} (failed : perform db op = .error e)
    (seen : GroupId → Option Int) : noteDeparture db op seen = seen := by
  funext g
  rw [noteDeparture, if_neg]
  rw [commit_error failed]
  exact not_lostMember (fun _ inTable => inTable) g

theorem departuresBehind_kept (sound : Sound db) {seen : GroupId → Option Int}
    (behind : DeparturesBehind db seen) (op : Operation) :
    DeparturesBehind (commit db op) (noteDeparture db op seen) := by
  cases done : perform db op with
  | error e =>
      rw [noteDeparture_error done, commit_error done]
      exact behind
  | ok after =>
      have effect := sound.effect done
      intro g e noted
      unfold noteDeparture at noted
      rw [commit_ok done] at noted ⊢
      by_cases lost : LostMember db after g
      · -- a group that lost a member exists, and its epoch moved past `e`
        rw [if_pos lost] at noted
        obtain ⟨old, found, rfl⟩ := Option.map_eq_some_iff.mp noted
        obtain ⟨inTable, rfl⟩ := Database.findGroup_some found
        have older := sound.constraints.nextGroup old inTable
        refine ⟨lt_of_lt_of_le older (effect_sequences effect).groups, ?_⟩
        intro row stored same
        rcases effect_epochs effect row stored with ⟨old', inTable', moves⟩ | isNew
        · have sameRow : old' = old :=
            sound.constraints.groups.unique inTable' inTable (moves.sameId.trans same)
          subst sameRow
          exact moves.departure lost
        · exact absurd (same.symm.trans isNew) (ne_of_lt older)
      · rw [if_neg lost] at noted
        obtain ⟨older, passed⟩ := behind g e noted
        refine ⟨lt_of_lt_of_le older (effect_sequences effect).groups, ?_⟩
        intro row stored same
        rcases effect_epochs effect row stored with ⟨old, inTable, moves⟩ | isNew
        · exact lt_of_lt_of_le (passed old inTable (moves.sameId.trans same)) moves.forward
        · exact absurd (same.symm.trans isNew) (ne_of_lt older)

/-- Where a pending key comes from: it was pending before, or it was stamped by
this call with the next epoch, in an old group or in a new one. -/
theorem effect_pending (effect : Effect db op after) :
    ∀ p ∈ after.senderKeyDistributions,
      (p ∈ db.senderKeyDistributions ∧ (LostMember db after p.groupId →
        ∃ u, op = .deleteUser u ∧ db.IsMember p.groupId u ∧ ¬ OnlyMember db p.groupId u ∧
          p.recipientId ≠ u)) ∨
      (∃ row, db.findGroup p.groupId = some row ∧ p.epoch = row.epoch + 1) ∨
      p.groupId = db.sequences.groups := by
  intro p stored
  have same : p ∈ db.senderKeyDistributions →
      (∀ row ∈ db.groupMembers, row ∈ after.groupMembers) →
      p ∈ db.senderKeyDistributions ∧ (LostMember db after p.groupId →
        ∃ u, op = .deleteUser u ∧ db.IsMember p.groupId u ∧ ¬ OnlyMember db p.groupId u ∧
          p.recipientId ≠ u) :=
    fun old members => ⟨old, fun lost => absurd lost (not_lostMember members _)⟩
  cases effect with
  | accountDeleted u _ _ gone =>
      obtain ⟨before, other, stays⟩ := (gone.senderKeyDistributions p).mp stored
      refine Or.inl ⟨before, fun lost => ?_⟩
      exact ⟨u, rfl, (lostMember_accountDeleted gone).mp lost, stays, other⟩
  | groupCreated name creatorId initialMembers row isRow =>
      rcases List.mem_append.mp stored with old | new
      · exact Or.inl (same old fun _ inTable => List.mem_append_left _ inTable)
      · rw [(mem_skdmRows new).1, isRow]
        exact Or.inr (Or.inr rfl)
  | memberAdded g r u skdmCiphertext row found =>
      rcases List.mem_append.mp stored with old | new
      · exact Or.inl (same old fun _ inTable => mem_groupMembers_added.mpr (Or.inl inTable))
      · rw [List.mem_singleton.mp new]
        exact Or.inr (Or.inl ⟨row, found, rfl⟩)
  | groupDissolved g r u skdmCiphertexts row found =>
      obtain ⟨rowStored, rfl⟩ := Database.findGroup_some found
      obtain ⟨before, stays⟩ := List.mem_filter.mp stored
      refine Or.inl ⟨before, fun lost => ?_⟩
      obtain ⟨uid, member, gone⟩ := lostMember_iff.mp lost
      rw [dissolved_isMember rowStored, not_and, not_not] at gone
      have goes : (db.deleteGroupMember row.id u).groupGone (fun r => r.id = row.id) p.groupId =
          true := Database.groupGone_iff.mpr ⟨row, rowStored, decide_eq_true rfl, (gone member).symm⟩
      rw [goes] at stays
      cases stays
  | memberRemoved g r u skdmCiphertexts row found authorised member =>
      rcases List.mem_append.mp stored with old | new
      · obtain ⟨before, otherGroup⟩ := List.mem_filter.mp old
        refine Or.inl ⟨before, fun lost => ?_⟩
        rw [lostMember_departure member] at lost
        simp [lost] at otherGroup
      · obtain ⟨sameGroup, stamp, -⟩ := mem_skdmRows new
        rw [sameGroup]
        exact Or.inr (Or.inl ⟨row, found, stamp⟩)
  | skdmsStored g skdmCiphertexts row found =>
      rcases List.mem_append.mp stored with old | new
      · exact Or.inl (same old fun _ inTable => inTable)
      · obtain ⟨sameGroup, stamp, -⟩ := mem_skdmRows new
        rw [sameGroup]
        exact Or.inr (Or.inl ⟨row, found, stamp⟩)
  | skdmsPopped =>
      exact Or.inl (same (List.mem_of_mem_filter stored) fun _ inTable => inTable)
  | messageStored => exact Or.inl (same stored fun _ inTable => inTable)
  | messageRevoked => exact Or.inl (same stored fun _ inTable => inTable)
  | receiptRecorded => exact Or.inl (same stored fun _ inTable => inTable)
  | elsewhere _ _ _ untouched =>
      rw [untouched.senderKeyDistributions] at stored
      exact Or.inl (same stored fun _ inTable => untouched.groupMembers ▸ inTable)

theorem noKeyOutlives_kept (sound : Sound db) {seen : GroupId → Option Int}
    (behind : DeparturesBehind db seen) (law : NoKeyOutlives db seen)
    (clean : DeletesCleanly db op) :
    NoKeyOutlives (commit db op) (noteDeparture db op seen) := by
  cases done : perform db op with
  | error e =>
      rw [noteDeparture_error done, commit_error done]
      exact law
  | ok after =>
      have effect := sound.effect done
      rw [commit_ok done]
      intro p stored e noted
      unfold noteDeparture at noted
      rw [commit_ok done] at noted
      by_cases lost : LostMember db after p.groupId
      · rw [if_pos lost] at noted
        obtain ⟨old, found, rfl⟩ := Option.map_eq_some_iff.mp noted
        rcases effect_pending effect p stored with ⟨before, byDeletion⟩ | ⟨row, found', stamp⟩ | isNew
        · obtain ⟨u, rfl, member, stays, other⟩ := byDeletion lost
          exact absurd (clean p before member stays) other
        · rw [found] at found'
          cases found'
          omega
        · obtain ⟨inTable, same⟩ := Database.findGroup_some found
          exact absurd (same.trans isNew) (ne_of_lt (sound.constraints.nextGroup old inTable))
      · rw [if_neg lost] at noted
        obtain ⟨older, passed⟩ := behind p.groupId e noted
        rcases effect_pending effect p stored with ⟨before, -⟩ | ⟨row, found, stamp⟩ | isNew
        · exact law p before e noted
        · obtain ⟨inTable, same⟩ := Database.findGroup_some found
          have moved := passed row inTable same
          omega
        · exact absurd isNew (ne_of_lt older)

/-- Deleting an account among others' pending keys breaks the law at once. -/
theorem deletesCleanly_of_law (sound : Sound db) {seen : GroupId → Option Int}
    (law : NoKeyOutlives (commit db op) (noteDeparture db op seen)) : DeletesCleanly db op := by
  have c := sound.constraints
  cases op with
  | deleteUser u =>
      intro p stored member stays
      by_contra other
      have exists_ := (c.member_exists member).2
      have done := perform_deleteUser c exists_
      have gone := deleteUser_deleted c sound.creators exists_
      obtain ⟨row, rowStored, same⟩ := c.member_group member
      have found : db.findGroup p.groupId = some row := same ▸ c.findGroup_eq_some.mpr rowStored
      have noted : noteDeparture db (.deleteUser u) seen p.groupId = some row.epoch := by
        rw [noteDeparture, commit_ok done, if_pos ((lostMember_accountDeleted gone).mpr member),
          found]
        rfl
      rw [commit_ok done] at law
      have later := law p ((gone.senderKeyDistributions p).mpr ⟨stored, other, stays⟩) _ noted
      have within := sound.epochs p stored row rowStored same
      omega
  | _ => trivial

/-- **No key outlives a departure exactly in the runs whose deletions are clean.** -/
theorem noKeyOutlives_iff (ops : List Operation) :
    Throughout (fun earlier => NoKeyOutlives (service.run earlier) (lastDeparture earlier)) ops ↔
      EachStep (fun earlier op => DeletesCleanly (service.run earlier) op) ops := by
  have facts : ∀ earlier, Sound (service.run earlier) ∧
      DeparturesBehind (service.run earlier) (lastDeparture earlier) := by
    intro earlier
    refine service.observe_invariant
      (P := fun db seen => Sound db ∧ DeparturesBehind db seen) ?_ ?_ earlier
    · exact ⟨sound_empty, fun g e noted => by cases noted⟩
    · intro db op seen ⟨sound, behind⟩
      exact ⟨sound.commit op, departuresBehind_kept sound behind op⟩
  refine throughout_iff_eachStep ?_ ?_ ops
  · exact fun p stored => absurd stored List.not_mem_nil
  · intro earlier op law
    obtain ⟨sound, behind⟩ := facts earlier
    unfold lastDeparture at law behind ⊢
    rw [System.run_snoc, System.observe_snoc]
    exact ⟨deletesCleanly_of_law sound, noKeyOutlives_kept sound behind law⟩

/-- A key waits for the second member while the third deletes the account. -/
def keyOutlives : List Operation :=
  [.createUser "ada" "5a" [1] [2], .createUser "bob" "5b" [3] [4], .createUser "cyd" "5c" [5] [6],
    .createGroup "team" 1 Dict.empty, .addMember 1 1 2 [7], .addMember 1 1 3 [8], .deleteUser 3]

theorem key_outlives_deletion :
    ¬ Throughout (fun earlier => NoKeyOutlives (service.run earlier) (lastDeparture earlier))
      keyOutlives := by
  decide

end SecureMsg.Groups
