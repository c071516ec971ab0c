/-
# App.Policy — who may bring a row in and who may take one out

`MayAdd` and `MayErase` are an access matrix over the rows of all tables, judged on
the database a request finds; a row that is rewritten is erased and added.  They
speak of the actor whose access token the request presents, or of the registration or
single-use token it brings, and not of endpoints or statements.

`rows_authorised`: in every run of requests, every row that comes or goes with a
request is one the matrix lets that request bring in or take out.
-/
import SecureMsg.App.Commits

namespace SecureMsg.App

open SecureMsg.Theory SecureMsg.Store SecureMsg.Repository SecureMsg.Auth

set_option autoImplicit false

/-! ## The matrix -/

/-- The user is the creator of the group. -/
def CreatedBy (db : Database) (g : GroupId) (u : UserId) : Prop :=
  ∃ row ∈ db.groups, row.id = g ∧ row.creatorId = u

section Matrix

variable (lib : TokenLib) (db : Database) (s : Step)

/-- An actor who is a member of the group. -/
def ActsIn (g : GroupId) : Prop := ∃ u, Authenticated lib db s u ∧ db.IsMember g u

def MayAdd : Row → Prop
  | .user row => ∃ body : RegisterRequest, s.request = .register body ∧ body.username.val = row.username
  | .group row => ActsIn lib db s row.id ∨ (row.id ∉ db.groupIds ∧ Authenticated lib db s row.creatorId)
  | .groupMember row => row.groupId ∉ db.groupIds ∨
      ∃ u, Authenticated lib db s u ∧ CreatedBy db row.groupId u
  | .senderKeyDistribution row => row.groupId ∉ db.groupIds ∨ ActsIn lib db s row.groupId
  | .groupMessage row => Authenticated lib db s row.senderId ∧ db.IsMember row.groupId row.senderId
  | .groupMessageReceipt row => ∃ g u, Authenticated lib db s u ∧ db.IsMember g u ∧
      db.IsMember g row.userId ∧ row.userId ≠ u
  | .message row => Authenticated lib db s row.senderId
  | .userKeyBundle row => Authenticated lib db s row.userId
  | .oneTimePrekey row => Authenticated lib db s row.userId
  | .refreshTokenBlocklist row => ∃ token scope claims jti,
      s.request.presents = some (token, scope) ∧
      verifyToken lib db s.reading.decodedAt token scope = .ok claims ∧
      claims.jti = some jti ∧ row.jtiHash = lib.sha256 jti

/-- A membership goes with the member, by the creator, or with a group too small to go on. -/
def MayErase : Row → Prop
  | .user row => Authenticated lib db s row.id
  | .group row => ActsIn lib db s row.id
  | .groupMember row => ∃ u, Authenticated lib db s u ∧ db.IsMember row.groupId u ∧
      (u = row.userId ∨ CreatedBy db row.groupId u ∨ (remaining db row.groupId u).length ≤ 1)
  | .senderKeyDistribution row =>
      Authenticated lib db s row.recipientId ∨ ActsIn lib db s row.groupId
  | .groupMessage row => Authenticated lib db s row.senderId ∨ ActsIn lib db s row.groupId ∨
      ∃ u, Authenticated lib db s u ∧ ⟨row.id, u⟩ ∈ db.groupMessageReceipts
  | .groupMessageReceipt row => Authenticated lib db s row.userId ∨
      ∃ msg ∈ db.groupMessages, msg.id = row.messageId ∧
        (Authenticated lib db s msg.senderId ∨ ActsIn lib db s msg.groupId)
  | .message row => Authenticated lib db s row.senderId ∨ Authenticated lib db s row.recipientId
  | .userKeyBundle row => Authenticated lib db s row.userId
  | .oneTimePrekey _ => ∃ u, Authenticated lib db s u
  | .refreshTokenBlocklist _ => False

/-- Every row that comes or goes is one the matrix of `db` lets come or go. -/
structure Allowed (before after : Database) : Prop where
  added : ∀ row, after.Stores row → before.Stores row ∨ MayAdd lib db s row
  erased : ∀ row, before.Stores row → after.Stores row ∨ MayErase lib db s row

end Matrix

variable {lib : TokenLib} {db : Database} {s : Step}

namespace Allowed

theorem refl (before : Database) : Allowed lib db s before before :=
  ⟨fun _ => Or.inl, fun _ => Or.inl⟩

theorem trans {a b c : Database} (ab : Allowed lib db s a b) (bc : Allowed lib db s b c) :
    Allowed lib db s a c where
  added row stored := (bc.added row stored).elim (ab.added row) Or.inr
  erased row stored := (ab.erased row stored).elim (bc.erased row) Or.inr

end Allowed

/-! ## The group tables -/

/-- The row is of a group table. -/
def OfGroups : Row → Prop
  | .group _ | .groupMember _ | .senderKeyDistribution _ | .groupMessage _
  | .groupMessageReceipt _ => True
  | .user _ | .message _ | .userKeyBundle _ | .oneTimePrekey _ | .refreshTokenBlocklist _ => False

structure GroupsAllowed (lib : TokenLib) (db : Database) (s : Step) (after : Database) : Prop where
  added : ∀ row, OfGroups row → after.Stores row → db.Stores row ∨ MayAdd lib db s row
  erased : ∀ row, OfGroups row → db.Stores row → after.Stores row ∨ MayErase lib db s row

section Groups

variable {after : Database} (c : Constraints db) {u : UserId} (who : Authenticated lib db s u)

include who

/-- The account's own rows go, and its groups are handed on or close. -/
theorem accountDeleted_allowed (c : Constraints db) (gone : AccountDeleted db u after) :
    GroupsAllowed lib db s after where
  added row ofGroup stored := by
    cases row with
    | group row =>
        obtain ⟨old, oldStored, -, rfl⟩ := (gone.groups row).mp stored
        by_cases member : db.IsMember old.id u
        · refine Or.inr (Or.inl ⟨u, who, ?_⟩)
          rwa [withoutUser_id]
        · left
          rw [withoutUser, if_neg member]
          exact oldStored
    | groupMember row => exact Or.inl ((gone.groupMembers row).mp stored).1
    | senderKeyDistribution row => exact Or.inl ((gone.senderKeyDistributions row).mp stored).1
    | groupMessage row => exact Or.inl ((gone.groupMessages row).mp stored).1
    | groupMessageReceipt row => exact Or.inl ((gone.groupMessageReceipts row).mp stored).1
    | _ => cases ofGroup
  erased row ofGroup stored := by
    have onlyActs : ∀ {g : GroupId}, OnlyMember db g u → ActsIn lib db s g :=
      fun only => ⟨u, who, only.1⟩
    cases row with
    | group row =>
        by_cases member : db.IsMember row.id u
        · exact Or.inr ⟨u, who, member⟩
        · refine Or.inl ((gone.groups row).mpr ⟨row, stored, fun only => member only.1, ?_⟩)
          rw [withoutUser, if_neg member]
    | groupMember row =>
        by_cases same : row.userId = u
        · refine Or.inr ⟨u, who, ?_, Or.inl same.symm⟩
          rw [← same]
          exact stored
        · exact Or.inl ((gone.groupMembers row).mpr ⟨stored, same⟩)
    | senderKeyDistribution row =>
        by_cases same : row.recipientId = u
        · exact Or.inr (Or.inl (same ▸ who))
        · by_cases only : OnlyMember db row.groupId u
          · exact Or.inr (Or.inr (onlyActs only))
          · exact Or.inl ((gone.senderKeyDistributions row).mpr ⟨stored, same, only⟩)
    | groupMessage row =>
        by_cases same : row.senderId = u
        · exact Or.inr (Or.inl (same ▸ who))
        · by_cases only : OnlyMember db row.groupId u
          · exact Or.inr (Or.inr (Or.inl (onlyActs only)))
          · exact Or.inl ((gone.groupMessages row).mpr ⟨stored, same, only⟩)
    | groupMessageReceipt row =>
        by_cases same : row.userId = u
        · exact Or.inr (Or.inl (same ▸ who))
        · obtain ⟨msg, inTable, named⟩ := List.mem_map.mp (c.receipt_exists stored).1
          by_cases sender : msg.senderId = u
          · exact Or.inr (Or.inr ⟨msg, inTable, named, Or.inl (sender ▸ who)⟩)
          · by_cases only : OnlyMember db msg.groupId u
            · exact Or.inr (Or.inr ⟨msg, inTable, named, Or.inr (onlyActs only)⟩)
            · have kept := (gone.groupMessages msg).mpr ⟨inTable, sender, only⟩
              refine Or.inl ((gone.groupMessageReceipts row).mpr ⟨stored, same, ?_⟩)
              exact List.mem_map.mpr ⟨msg, kept, named⟩
    | _ => cases ofGroup

theorem groupCreated_allowed (c : Constraints db) {initialMembers : Ciphertexts}
    {group : Group} (isGroup : group.id = db.sequences.groups ∧ group.creatorId = u) :
    GroupsAllowed lib db s { db with
      groups := db.groups ++ [group]
      groupMembers := db.groupMembers ++
        (⟨group.id, u⟩ :: initialMembers.keys.map fun uid => ⟨group.id, uid⟩)
      senderKeyDistributions := db.senderKeyDistributions ++ skdmRows group.id 1 initialMembers
      sequences := { db.sequences with groups := db.sequences.groups + 1 } } where
  added row ofGroup stored := by
    have isNew : group.id ∉ db.groupIds := by
      intro known
      exact absurd isGroup.1 (ne_of_lt (c.groupId_lt known))
    cases row with
    | group row =>
        refine (List.mem_append.mp stored).imp id fun new => Or.inr ?_
        rw [List.mem_singleton.mp new]
        exact ⟨isNew, isGroup.2 ▸ who⟩
    | groupMember row =>
        refine (List.mem_append.mp stored).imp id fun new => Or.inl ?_
        rcases List.mem_cons.mp new with rfl | later
        · exact isNew
        · obtain ⟨uid, -, rfl⟩ := List.mem_map.mp later
          exact isNew
    | senderKeyDistribution row =>
        refine (List.mem_append.mp stored).imp id fun new => Or.inl ?_
        rw [(mem_skdmRows new).1]
        exact isNew
    | _ => exact Or.inl stored
  erased row ofGroup stored := by
    cases row with
    | group row => exact Or.inl (List.mem_append_left _ stored)
    | groupMember row => exact Or.inl (List.mem_append_left _ stored)
    | senderKeyDistribution row => exact Or.inl (List.mem_append_left _ stored)
    | _ => exact Or.inl stored

/-- A group row rewritten by a member of the group. -/
theorem updated_allowed {g : GroupId} {f : Group → Group} (keeps : ∀ r, (f r).id = r.id)
    (member : db.IsMember g u) (row : Group) :
    (row ∈ (db.updateGroup g f).groups → row ∈ db.groups ∨ MayAdd lib db s (.group row)) ∧
      (row ∈ db.groups → row ∈ (db.updateGroup g f).groups ∨ MayErase lib db s (.group row)) := by
  constructor
  · intro stored
    obtain ⟨old, inTable, rfl⟩ := Database.mem_updateGroup.mp stored
    by_cases hit : old.id = g
    · rw [if_pos hit]
      refine Or.inr (Or.inl ⟨u, who, ?_⟩)
      rw [keeps, hit]
      exact member
    · rw [if_neg hit]
      exact Or.inl inTable
  · intro stored
    by_cases hit : row.id = g
    · exact Or.inr ⟨u, who, hit ▸ member⟩
    · exact Or.inl (Database.mem_updateGroup.mpr ⟨row, stored, if_neg hit⟩)

theorem memberAdded_allowed {g : GroupId} {v : UserId} {skdmCiphertext : Bytes} {group : Group}
    (member : db.IsMember g u) (found : db.findGroup g = some group) (isCreator : group.creatorId = u) :
    GroupsAllowed lib db s { db.updateGroup g bumpEpoch with
      groupMembers := if db.IsMember g v then db.groupMembers else db.groupMembers ++ [⟨g, v⟩]
      senderKeyDistributions :=
        db.senderKeyDistributions ++ [⟨g, v, skdmCiphertext, group.epoch + 1⟩] } where
  added row ofGroup stored := by
    cases row with
    | group row => exact (updated_allowed who bumpEpoch_id member row).1 stored
    | groupMember row =>
        obtain ⟨inTable, sameId⟩ := Database.findGroup_some found
        refine (mem_groupMembers_added.mp stored).imp id fun new => Or.inr ⟨u, who, ?_⟩
        rw [new]
        exact ⟨group, inTable, sameId, isCreator⟩
    | senderKeyDistribution row =>
        refine (List.mem_append.mp stored).imp id fun new => Or.inr ⟨u, who, ?_⟩
        rw [List.mem_singleton.mp new]
        exact member
    | _ => exact Or.inl stored
  erased row ofGroup stored := by
    cases row with
    | group row => exact (updated_allowed who bumpEpoch_id member row).2 stored
    | groupMember row => exact Or.inl (mem_groupMembers_added.mpr (Or.inl stored))
    | senderKeyDistribution row => exact Or.inl (List.mem_append_left _ stored)
    | _ => exact Or.inl stored

theorem skdmsStored_allowed {g : GroupId} {K : Ciphertexts} {epoch : Int} (member : db.IsMember g u) :
    GroupsAllowed lib db s { db.updateGroup g bumpEpoch with
      senderKeyDistributions := db.senderKeyDistributions ++ skdmRows g epoch K } where
  added row ofGroup stored := by
    cases row with
    | group row => exact (updated_allowed who bumpEpoch_id member row).1 stored
    | senderKeyDistribution row =>
        refine (List.mem_append.mp stored).imp id fun new => Or.inr ⟨u, who, ?_⟩
        rw [(mem_skdmRows new).1]
        exact member
    | _ => exact Or.inl stored
  erased row ofGroup stored := by
    cases row with
    | group row => exact (updated_allowed who bumpEpoch_id member row).2 stored
    | senderKeyDistribution row => exact Or.inl (List.mem_append_left _ stored)
    | _ => exact Or.inl stored

/-- The member goes by themself or by the creator. -/
theorem memberRemoved_allowed {g : GroupId} {v : UserId} {K : Ciphertexts} {group : Group}
    {transfer : Option UserId} {epoch : Int} (member : db.IsMember g u)
    (found : db.findGroup g = some group) (authorised : u = v ∨ group.creatorId = u) :
    GroupsAllowed lib db s (departure db g v transfer epoch K) where
  added row ofGroup stored := by
    cases row with
    | group row => exact (updated_allowed who (departed_id transfer) member row).1 stored
    | groupMember row => exact Or.inl (List.mem_of_mem_filter stored)
    | senderKeyDistribution row =>
        rcases List.mem_append.mp stored with old | new
        · exact Or.inl (List.mem_of_mem_filter old)
        · refine Or.inr (Or.inr ⟨u, who, ?_⟩)
          rw [(mem_skdmRows new).1]
          exact member
    | _ => exact Or.inl stored
  erased row ofGroup stored := by
    cases row with
    | group row => exact (updated_allowed who (departed_id transfer) member row).2 stored
    | groupMember row =>
        by_cases same : row = ⟨g, v⟩
        · subst same
          obtain ⟨inTable, sameId⟩ := Database.findGroup_some found
          exact Or.inr ⟨u, who, member, authorised.imp id fun isCreator =>
            Or.inl ⟨group, inTable, sameId, isCreator⟩⟩
        · exact Or.inl (List.mem_filter.mpr ⟨stored, decide_eq_true same⟩)
    | senderKeyDistribution row =>
        by_cases same : row.groupId = g
        · exact Or.inr (Or.inr ⟨u, who, same ▸ member⟩)
        · refine Or.inl (List.mem_append_left _ (List.mem_filter.mpr ⟨stored, ?_⟩))
          simpa using same
    | _ => exact Or.inl stored

omit who in
theorem dissolved_gone {g h : GroupId} {v : UserId} (other : h ≠ g) :
    (db.deleteGroupMember g v).groupGone (fun row => row.id = g) h = false := by
  rw [← Bool.not_eq_true, Database.groupGone_iff]
  rintro ⟨row, -, chosen, rfl⟩
  exact other (of_decide_eq_true chosen)

/-- Everything of the group goes; it has too few members left, or its creator asked. -/
theorem groupDissolved_allowed {g : GroupId} {v : UserId} {group : Group}
    (member : db.IsMember g u) (found : db.findGroup g = some group)
    (authorised : u = v ∨ group.creatorId = u) (few : (remaining db g v).length ≤ 1) :
    GroupsAllowed lib db s
      ((db.deleteGroupMember g v).deleteGroupsWhere fun row => row.id = g) where
  added row ofGroup stored := by
    cases row with
    | group row => exact Or.inl (List.mem_of_mem_filter stored)
    | groupMember row => exact Or.inl (List.mem_of_mem_filter (List.mem_of_mem_filter stored))
    | senderKeyDistribution row => exact Or.inl (List.mem_of_mem_filter stored)
    | groupMessage row => exact Or.inl (List.mem_of_mem_filter stored)
    | groupMessageReceipt row => exact Or.inl (List.mem_of_mem_filter stored)
    | _ => cases ofGroup
  erased row ofGroup stored := by
    have acts : ActsIn lib db s g := ⟨u, who, member⟩
    have spared : ∀ {h : GroupId}, h ≠ g →
        (!(db.deleteGroupMember g v).groupGone (fun row => row.id = g) h) = true := by
      intro h other
      rw [dissolved_gone other]
      rfl
    cases row with
    | group row =>
        by_cases same : row.id = g
        · refine Or.inr ?_
          show ActsIn lib db s row.id
          rwa [same]
        · exact Or.inl (List.mem_filter.mpr ⟨stored, by simpa using same⟩)
    | groupMember row =>
        by_cases same : row.groupId = g
        · subst same
          obtain ⟨inTable, sameId⟩ := Database.findGroup_some found
          refine Or.inr ⟨u, who, member, Or.inr ?_⟩
          rcases authorised with rfl | isCreator
          · exact Or.inr few
          · exact Or.inl ⟨group, inTable, sameId, isCreator⟩
        · have other : row ≠ ⟨g, v⟩ := fun isRow => same (congrArg GroupMember.groupId isRow)
          exact Or.inl (List.mem_filter.mpr
            ⟨List.mem_filter.mpr ⟨stored, decide_eq_true other⟩, spared same⟩)
    | senderKeyDistribution row =>
        by_cases same : row.groupId = g
        · exact Or.inr (Or.inr (same ▸ acts))
        · exact Or.inl (List.mem_filter.mpr ⟨stored, spared same⟩)
    | groupMessage row =>
        by_cases same : row.groupId = g
        · exact Or.inr (Or.inr (Or.inl (same ▸ acts)))
        · exact Or.inl (List.mem_filter.mpr ⟨stored, spared same⟩)
    | groupMessageReceipt row =>
        by_cases gone : (db.deleteGroupMember g v).groupMessageGone (fun msg =>
            (db.deleteGroupMember g v).groupGone (fun r => r.id = g) msg.groupId) row.messageId
        · obtain ⟨msg, inTable, chosen, named⟩ := Database.groupMessageGone_iff.mp gone
          have same : msg.groupId = g := by
            by_contra other
            rw [dissolved_gone other] at chosen
            cases chosen
          exact Or.inr (Or.inr ⟨msg, inTable, named, Or.inr (same ▸ acts)⟩)
        · refine Or.inl (List.mem_filter.mpr ⟨stored, ?_⟩)
          simpa using gone
    | _ => cases ofGroup

/-- Messages deleted with their receipts, one of whose senders is the actor. -/
theorem messageRevoked_allowed (messageId : MessageId) :
    GroupsAllowed lib db s (db.deleteGroupMessagesWhere (sentAs messageId u)) where
  added row ofGroup stored := by
    cases row with
    | groupMessage row => exact Or.inl (List.mem_of_mem_filter stored)
    | groupMessageReceipt row => exact Or.inl (List.mem_of_mem_filter stored)
    | _ => exact Or.inl stored
  erased row ofGroup stored := by
    have mine : ∀ {msg : GroupMessage}, sentAs messageId u msg = true → msg.senderId = u := by
      intro msg chosen
      simp only [sentAs, Bool.and_eq_true, decide_eq_true_eq] at chosen
      exact chosen.2
    cases row with
    | groupMessage row =>
        by_cases chosen : sentAs messageId u row = true
        · exact Or.inr (Or.inl ((mine chosen).symm ▸ who))
        · exact Or.inl (List.mem_filter.mpr ⟨stored, by simpa using chosen⟩)
    | groupMessageReceipt row =>
        by_cases gone : db.groupMessageGone (sentAs messageId u) row.messageId
        · obtain ⟨msg, inTable, chosen, named⟩ := Database.groupMessageGone_iff.mp gone
          exact Or.inr (Or.inr ⟨msg, inTable, named, Or.inl ((mine chosen).symm ▸ who)⟩)
        · exact Or.inl (List.mem_filter.mpr ⟨stored, by simpa using gone⟩)
    | _ => exact Or.inl stored

theorem receiptRecorded_allowed {messageId : MessageId}
    (waiting : ⟨messageId, u⟩ ∈ db.groupMessageReceipts) :
    GroupsAllowed lib db s (deleteMessageIfRead (db.deleteReceipt messageId u) messageId) where
  added row ofGroup stored := by
    cases row with
    | groupMessage row => exact Or.inl (List.mem_of_mem_filter stored)
    | groupMessageReceipt row => exact Or.inl (List.mem_of_mem_filter (List.mem_of_mem_filter stored))
    | _ => exact Or.inl stored
  erased row ofGroup stored := by
    cases row with
    | groupMessage row =>
        by_cases same : row.id = messageId
        · exact Or.inr (Or.inr (Or.inr ⟨u, who, same ▸ waiting⟩))
        · exact Or.inl (List.mem_filter.mpr ⟨stored, by simp [same]⟩)
    | groupMessageReceipt row =>
        by_cases same : row = ⟨messageId, u⟩
        · subst same
          exact Or.inr (Or.inl who)
        · have kept : row ∈ (db.deleteReceipt messageId u).groupMessageReceipts :=
            List.mem_filter.mpr ⟨stored, decide_eq_true same⟩
          -- its message still has a receipt, this one, so it is not deleted
          refine Or.inl (List.mem_filter.mpr ⟨kept, ?_⟩)
          rw [Bool.not_eq_true', ← Bool.not_eq_true, Database.groupMessageGone_iff]
          rintro ⟨msg, -, chosen, named⟩
          simp only [Bool.and_eq_true, decide_eq_true_eq, Bool.not_eq_true', List.any_eq_false] at chosen
          exact chosen.2 row kept (by rw [← named, chosen.1])
    | _ => exact Or.inl stored

end Groups

theorem untouched_groupRows {after : Database} (same : GroupsUntouched db after) {row : Row}
    (ofGroup : OfGroups row) : after.Stores row ↔ db.Stores row := by
  cases row with
  | group row => simp only [Database.Stores, same.groups]
  | groupMember row => simp only [Database.Stores, same.groupMembers]
  | senderKeyDistribution row => simp only [Database.Stores, same.senderKeyDistributions]
  | groupMessage row => simp only [Database.Stores, same.groupMessages]
  | groupMessageReceipt row => simp only [Database.Stores, same.groupMessageReceipts]
  | _ => cases ofGroup

/-- **What a call does to the group tables is within the matrix.** -/
theorem effect_allowed (c : Constraints db) {op : Operation} {after : Database}
    (effect : Effect db op after) (entitled : Entitled lib db s op) : GroupsAllowed lib db s after := by
  cases effect with
  | accountDeleted u _ _ gone => exact accountDeleted_allowed entitled c gone
  | groupCreated name creatorId initialMembers row isRow =>
      exact groupCreated_allowed entitled c (by rw [isRow]; exact ⟨rfl, rfl⟩)
  | memberAdded g r u skdmCiphertext row found isCreator =>
      exact memberAdded_allowed entitled.1 entitled.2 found isCreator
  | groupDissolved g r u K row found authorised _ few =>
      exact groupDissolved_allowed entitled.1 entitled.2 found authorised few
  | memberRemoved g r u K row found authorised =>
      exact memberRemoved_allowed entitled.1 entitled.2 found authorised
  | skdmsStored g K row =>
      obtain ⟨u, who, member⟩ := entitled
      exact skdmsStored_allowed who member
  | skdmsPopped u g =>
      refine ⟨fun row _ stored => ?_, fun row _ stored => ?_⟩
      · cases row with
        | senderKeyDistribution row => exact Or.inl (List.mem_of_mem_filter stored)
        | _ => exact Or.inl stored
      · cases row with
        | senderKeyDistribution row =>
            by_cases mine : pendingFor u g row = true
            · simp only [pendingFor, Bool.and_eq_true, decide_eq_true_eq] at mine
              exact Or.inr (Or.inl (mine.1.symm ▸ entitled.1))
            · exact Or.inl (List.mem_filter.mpr ⟨stored, by simpa using mine⟩)
        | _ => exact Or.inl stored
  | messageStored g senderId epoch ciphertext row isRow =>
      refine ⟨fun r _ stored => ?_, fun r _ stored => ?_⟩
      · cases r with
        | groupMessage r =>
            refine (List.mem_append.mp stored).imp id fun new => ?_
            rw [List.mem_singleton.mp new, isRow]
            exact entitled
        | groupMessageReceipt r =>
            refine (List.mem_append.mp stored).imp id fun new => ?_
            have listed : (⟨r.messageId, r.userId⟩ : GroupMessageReceipt) ∈
                receiptRows db g senderId row.id := new
            obtain ⟨-, member, other⟩ := mem_receiptRows.mp listed
            exact ⟨g, senderId, entitled.1, entitled.2, member, other⟩
        | _ => exact Or.inl stored
      · cases r with
        | groupMessage r => exact Or.inl (List.mem_append_left _ stored)
        | groupMessageReceipt r => exact Or.inl (List.mem_append_left _ stored)
        | _ => exact Or.inl stored
  | messageRevoked messageId senderId => exact messageRevoked_allowed entitled.1 messageId
  | receiptRecorded messageId u waiting => exact receiptRecorded_allowed entitled.1 waiting
  | elsewhere _ _ _ same =>
      exact ⟨fun row ofGroup stored => Or.inl ((untouched_groupRows same ofGroup).mp stored),
        fun row ofGroup stored => Or.inl ((untouched_groupRows same ofGroup).mpr stored)⟩

/-! ## The tables of accounts -/

structure PersonalAllowed (lib : TokenLib) (db : Database) (s : Step) (after : Database) : Prop where
  added : ∀ row, ¬ OfGroups row → after.Stores row → db.Stores row ∨ MayAdd lib db s row
  erased : ∀ row, ¬ OfGroups row → db.Stores row → after.Stores row ∨ MayErase lib db s row

theorem personalUntouched_allowed {after : Database} (same : PersonalUntouched db after) :
    PersonalAllowed lib db s after := by
  have stores : ∀ row, ¬ OfGroups row → (after.Stores row ↔ db.Stores row) := by
    intro row personal
    cases row with
    | user row => simp only [Database.Stores, same.users]
    | message row => simp only [Database.Stores, same.messages]
    | userKeyBundle row => simp only [Database.Stores, same.userKeyBundles]
    | oneTimePrekey row => simp only [Database.Stores, same.oneTimePrekeys]
    | refreshTokenBlocklist row => simp only [Database.Stores, same.refreshTokenBlocklist]
    | _ => exact absurd trivial personal
  exact ⟨fun row personal stored => Or.inl ((stores row personal).mp stored),
    fun row personal stored => Or.inl ((stores row personal).mpr stored)⟩

theorem personalDeleted_allowed {u : UserId} (who : Authenticated lib db s u) {after : Database}
    (gone : PersonalDeleted db u after) : PersonalAllowed lib db s after where
  added row personal stored := by
    left
    cases row with
    | user row =>
        rw [Database.Stores, gone.users] at stored
        exact List.mem_of_mem_filter stored
    | message row =>
        rw [Database.Stores, gone.messages] at stored
        exact List.mem_of_mem_filter stored
    | userKeyBundle row =>
        rw [Database.Stores, gone.userKeyBundles] at stored
        exact List.mem_of_mem_filter stored
    | oneTimePrekey row =>
        rw [Database.Stores, gone.oneTimePrekeys] at stored
        exact List.mem_of_mem_filter stored
    | refreshTokenBlocklist row =>
        rw [Database.Stores, gone.refreshTokenBlocklist] at stored
        exact stored
    | _ => exact absurd trivial personal
  erased row personal stored := by
    cases row with
    | user row =>
        rw [Database.Stores, gone.users, List.mem_filter, decide_eq_true_eq]
        by_cases mine : row.id = u
        · subst mine
          exact Or.inr who
        · exact Or.inl ⟨stored, mine⟩
    | message row =>
        rw [Database.Stores, gone.messages, List.mem_filter, decide_eq_true_eq]
        by_cases sent : row.senderId = u
        · subst sent
          exact Or.inr (Or.inl who)
        · by_cases received : row.recipientId = u
          · subst received
            exact Or.inr (Or.inr who)
          · exact Or.inl ⟨stored, sent, received⟩
    | userKeyBundle row =>
        rw [Database.Stores, gone.userKeyBundles, List.mem_filter, decide_eq_true_eq]
        by_cases mine : row.userId = u
        · subst mine
          exact Or.inr who
        · exact Or.inl ⟨stored, mine⟩
    | oneTimePrekey row => exact Or.inr ⟨u, who⟩
    | refreshTokenBlocklist row =>
        left
        rw [Database.Stores, gone.refreshTokenBlocklist]
        exact stored
    | _ => exact absurd trivial personal

theorem personalEffect_allowed {op : Operation} {after : Database}
    (effect : PersonalEffect db op after) (entitled : Entitled lib db s op) :
    PersonalAllowed lib db s after := by
  cases effect with
  | userCreated username srpSalt srpVerifierEnc totpSecretEnc =>
      refine ⟨fun row _ stored => ?_, fun row _ stored => ?_⟩
      · cases row with
        | user row =>
            obtain ⟨body, asks, named, -⟩ := entitled
            refine (List.mem_append.mp stored).imp id fun new => ⟨body, asks, ?_⟩
            rw [List.mem_singleton.mp new, named]
        | _ => exact Or.inl stored
      · cases row with
        | user row => exact Or.inl (List.mem_append_left _ stored)
        | _ => exact Or.inl stored
  | accountUnknown => exact ⟨fun _ _ => Or.inl, fun _ _ => Or.inl⟩
  | accountDeleted u _ _ gone => exact personalDeleted_allowed entitled gone
  | tokenBlocked jtiHash expiresAt =>
      refine ⟨fun row _ stored => ?_, fun row _ stored => ?_⟩
      · cases row with
        | refreshTokenBlocklist row =>
            obtain ⟨token, scope, claims, jti, presents, verified, hasJti, isHash, -⟩ := entitled
            refine (List.mem_append.mp stored).imp id fun new =>
              ⟨token, scope, claims, jti, presents, verified, hasJti, ?_⟩
            rw [List.mem_singleton.mp new, isHash]
        | _ => exact Or.inl stored
      · cases row with
        | refreshTokenBlocklist row => exact Or.inl (List.mem_append_left _ stored)
        | _ => exact Or.inl stored
  | messageStored senderId recipientId ciphertext ratchetHeaderEnc =>
      refine ⟨fun row _ stored => ?_, fun row _ stored => ?_⟩
      · cases row with
        | message row =>
            refine (List.mem_append.mp stored).imp id fun new => ?_
            rw [List.mem_singleton.mp new]
            exact entitled
        | _ => exact Or.inl stored
      · cases row with
        | message row => exact Or.inl (List.mem_append_left _ stored)
        | _ => exact Or.inl stored
  | messageDeleted messageId owner u =>
      refine ⟨fun row _ stored => ?_, fun row _ stored => ?_⟩
      · cases row with
        | message row => exact Or.inl (List.mem_of_mem_filter stored)
        | _ => exact Or.inl stored
      · cases row with
        | message row =>
            by_cases chosen : ownedBy messageId owner u row = true
            · simp only [ownedBy, Bool.and_eq_true, decide_eq_true_eq] at chosen
              obtain ⟨-, rfl⟩ := chosen
              cases owner with
              | senderId => exact Or.inr (Or.inl entitled)
              | recipientId => exact Or.inr (Or.inr entitled)
            · exact Or.inl (List.mem_filter.mpr ⟨stored, by simpa using chosen⟩)
        | _ => exact Or.inl stored
  | bundleReplaced bundle =>
      refine ⟨fun row _ stored => ?_, fun row _ stored => ?_⟩
      · cases row with
        | userKeyBundle row =>
            obtain ⟨old, inTable, rfl⟩ := List.mem_map.mp stored
            by_cases hit : old.userId = bundle.userId
            · rw [if_pos hit]
              exact Or.inr entitled
            · rw [if_neg hit]
              exact Or.inl inTable
        | _ => exact Or.inl stored
      · cases row with
        | userKeyBundle row =>
            by_cases hit : row.userId = bundle.userId
            · refine Or.inr ?_
              show Authenticated lib db s row.userId
              rw [hit]
              exact entitled
            · exact Or.inl (List.mem_map.mpr ⟨row, stored, if_neg hit⟩)
        | _ => exact Or.inl stored
  | bundleStored bundle =>
      refine ⟨fun row _ stored => ?_, fun row _ stored => ?_⟩
      · cases row with
        | userKeyBundle row =>
            refine (List.mem_append.mp stored).imp id fun new => ?_
            rw [List.mem_singleton.mp new]
            exact entitled
        | _ => exact Or.inl stored
      · cases row with
        | userKeyBundle row => exact Or.inl (List.mem_append_left _ stored)
        | _ => exact Or.inl stored
  | prekeysAdded u prekeys =>
      refine ⟨fun row _ stored => ?_, fun row _ stored => ?_⟩
      · cases row with
        | oneTimePrekey row =>
            refine (List.mem_append.mp stored).imp id fun new => ?_
            show Authenticated lib db s row.userId
            rw [(Database.mem_numberPrekeys new).1]
            exact entitled
        | _ => exact Or.inl stored
      · cases row with
        | oneTimePrekey row => exact Or.inl (List.mem_append_left _ stored)
        | _ => exact Or.inl stored
  | prekeyPopped u =>
      obtain ⟨actor, who⟩ := entitled
      unfold popOneTimePrekey
      cases (prekeysOf db u).head? with
      | none => exact ⟨fun _ _ => Or.inl, fun _ _ => Or.inl⟩
      | some popped =>
          refine ⟨fun row _ stored => Or.inl ?_, fun row _ stored => ?_⟩
          · cases row with
            | oneTimePrekey row => exact List.mem_of_mem_filter stored
            | _ => exact stored
          · cases row with
            | oneTimePrekey row => exact Or.inr ⟨actor, who⟩
            | _ => exact Or.inl stored
  | elsewhere _ _ _ same => exact personalUntouched_allowed same

/-! ## Every request -/

/-- A call its request is entitled to. -/
theorem commit_allowed (sound : Sound db) {op : Operation} (entitled : Entitled lib db s op) :
    Allowed lib db s db (commit db op) := by
  refine commit_keeps (P := Allowed lib db s db) (.refl db) fun after done => ?_
  have groups := effect_allowed sound.constraints (sound.effect done) entitled
  have personal := personalEffect_allowed (perform_personal sound.constraints done) entitled
  constructor
  · intro row stored
    by_cases ofGroup : OfGroups row
    · exact groups.added row ofGroup stored
    · exact personal.added row ofGroup stored
  · intro row stored
    by_cases ofGroup : OfGroups row
    · exact groups.erased row ofGroup stored
    · exact personal.erased row ofGroup stored

/-- Prekeys of one's own may follow any other call. -/
theorem prekeys_allowed {u : UserId} (who : Authenticated lib db s u) (before : Database)
    (prekeys : List Bytes) :
    Allowed lib db s before (commit before (.addOneTimePrekeys u prekeys)) := by
  refine commit_keeps (P := Allowed lib db s before) (.refl before) fun after done => ?_
  obtain ⟨-, rfl⟩ := Database.insertOneTimePrekeys_ok.mp done
  constructor
  · intro row stored
    cases row with
    | oneTimePrekey row =>
        refine (List.mem_append.mp stored).imp id fun new => ?_
        show Authenticated lib db s row.userId
        rw [(Database.mem_numberPrekeys new).1]
        exact who
    | _ => exact Or.inl stored
  · intro row stored
    cases row with
    | oneTimePrekey row => exact Or.inl (List.mem_append_left _ stored)
    | _ => exact Or.inl stored

/-- Nothing, one call, or a bundle and its prekeys. -/
def OneCommit (ops : List Operation) : Prop :=
  (∃ call : Option Operation, ops = call.toList) ∨
    ∃ bundle u prekeys, ops = [.storeKeyBundle bundle, .addOneTimePrekeys u prekeys]

theorem oneCommit_toList (call : Option Operation) : OneCommit call.toList := Or.inl ⟨call, rfl⟩

theorem consumption_oneCommit (lib : TokenLib) (db : Database) (now : Rat) (token : String)
    (scope : Scope) : OneCommit (consumption lib db now token scope) := by
  unfold consumption
  split
  · unfold revocation
    split
    · exact oneCommit_toList (some _)
    · exact oneCommit_toList none
  · exact oneCommit_toList none

section OneCommit

variable {V : Type} (libs : Libraries V)

theorem dependencyCommits_oneCommit (db : Database) (now : Rat) (request : Request) :
    OneCommit (dependencyCommits libs db now request) := by
  cases request with
  | verify2fa => exact consumption_oneCommit _ _ _ _ _
  | refresh => exact consumption_oneCommit _ _ _ _ _
  | logout => exact consumption_oneCommit _ _ _ _ _
  | _ => exact oneCommit_toList none

theorem endpointCommits_oneCommit (db : Database) (reading : Reading) (call : Call) :
    OneCommit (endpointCommits libs db reading call) := by
  cases call with
  | register body =>
      simp only [endpointCommits, registration]
      split
      · exact oneCommit_toList none
      · split
        · exact oneCommit_toList none
        · exact oneCommit_toList (some _)
  | account pending => exact oneCommit_toList _
  | messages currentUser request => exact oneCommit_toList _
  | keys currentUser request =>
      cases request with
      | publishBundle body => exact Or.inr ⟨_, _, _, rfl⟩
      | uploadPrekeys prekeys => exact oneCommit_toList (some _)
      | getPrekeyCount => exact oneCommit_toList none
      | lookupIdentityPubByUsername => exact oneCommit_toList none
      | fetchBundle userId =>
          simp only [endpointCommits, keysCommits]
          split
          · exact oneCommit_toList (some _)
          · exact oneCommit_toList none
  | _ => exact oneCommit_toList none

/-- A request whose dependencies commit calls an endpoint that does not. -/
theorem committed_oneCommit (st : State V) (s : Step) : OneCommit (committed libs st s) := by
  have dependency := dependencyCommits_oneCommit libs st.db s.reading.decodedAt s.request
  unfold committed
  match resolved : dependencies libs st.db s.reading.decodedAt s.request with
  | (after, .error response) =>
      rw [List.append_nil]
      exact dependency
  | (after, .ok call) =>
      dsimp only
      split
      · have behind := dependencies_ok resolved
        generalize s.request = request at behind dependency
        cases behind with
        | verify2fa => simpa only [endpointCommits, List.append_nil] using dependency
        | refresh => simpa only [endpointCommits, List.append_nil] using dependency
        | logout => simpa only [endpointCommits, List.append_nil] using dependency
        | _ =>
            simp only [dependencyCommits, List.nil_append]
            exact endpointCommits_oneCommit libs _ _ _
      · rw [List.append_nil]
        exact dependency

end OneCommit

/-- **Every row that comes or goes with a request is one the matrix lets it bring in or
take out**, in every run. -/
theorem rows_authorised {V : Type} (libs : Libraries V) (steps : List Step) :
    EachStep (fun earlier s =>
      Allowed libs.toTokenLib ((application libs).run earlier).db s
        ((application libs).run earlier).db ((application libs).run (earlier ++ [s])).db) steps := by
  intro earlier s _
  have sound : Sound ((application libs).run earlier).db := by
    rw [application_db]
    exact reachable _
  have entitled : ∀ op ∈ committed libs ((application libs).run earlier) s,
      Entitled libs.toTokenLib ((application libs).run earlier).db s op :=
    fun op listed => committed_entitled listed
  rw [System.run_snoc]
  show Allowed _ _ s _ (serve libs ((application libs).run earlier) s).1.db
  rw [serve_committed]
  generalize (application libs).run earlier = st at *
  rcases committed_oneCommit libs st s with ⟨call, one⟩ | ⟨bundle, u, prekeys, both⟩
  · rw [one] at entitled ⊢
    cases call with
    | none => exact .refl _
    | some op => exact commit_allowed sound (entitled op (List.mem_singleton_self op))
  · rw [both] at entitled ⊢
    have first := commit_allowed sound (entitled _ List.mem_cons_self)
    have who := entitled _ (List.mem_cons_of_mem _ (List.mem_singleton_self _))
    exact first.trans (prekeys_allowed who _ prekeys)

end SecureMsg.App
