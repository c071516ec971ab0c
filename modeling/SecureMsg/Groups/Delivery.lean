/-
# Groups.Delivery — every reader gets every message once

A `Journal` is kept beside the run: what was stored and who was a member then,
what was acknowledged, what was revoked.  `Recorded` ties the database to it:
a receipt row is there exactly when its reader still awaits the message
(`Recorded.receipt`).  Messages disappear in five ways (last receipt, revoke, sender's account,
dissolved group, reader's account) and each is shown to take no receipt somebody
still waits on.

`getGroupMessages_exact`: what a reader fetches is the journal, filtered.
-/
import SecureMsg.Repository.Operation

namespace SecureMsg.Groups

open SecureMsg.Theory SecureMsg.Store SecureMsg.Repository

set_option autoImplicit false

/-! ## The journal -/

/-- A stored message with the members its group had at that moment. -/
structure Sent where
  message : GroupMessage
  members : List UserId
  deriving DecidableEq, Repr

structure Journal where
  sent : List Sent := []
  acknowledged : List (MessageId × UserId) := []
  revoked : List MessageId := []
  deriving DecidableEq, Repr

/-- A message is noted with what its caller passed, under the id the method returned. -/
def noteMessages (db : Database) (op : Operation) (journal : Journal) : Journal :=
  match op with
  | .storeGroupMessage groupId senderId epoch ciphertext =>
      match storeGroupMessage db groupId senderId epoch ciphertext with
      | .ok (_, msg) => { journal with
          sent := journal.sent ++
            [⟨⟨msg.id, senderId, groupId, epoch, ciphertext⟩, db.membersOf groupId⟩] }
      | .error _ => journal
  | .recordGroupReceipt messageId userId =>
      match recordGroupReceipt db messageId userId with
      | .ok _ => { journal with acknowledged := (messageId, userId) :: journal.acknowledged }
      | .error _ => journal
  | .revokeGroupMessage messageId senderId =>
      if (revokeGroupMessage db messageId senderId).2 then
        { journal with revoked := messageId :: journal.revoked }
      else journal
  | _ => journal

def journalOf (ops : List Operation) : Journal := service.observe noteMessages {} ops

/-- `u` was a member when somebody else sent it, has not acknowledged it since,
and the sender has neither revoked it nor deleted the account. -/
def Awaits (db : Database) (journal : Journal) (u : UserId) (s : Sent) : Prop :=
  u ∈ s.members ∧ s.message.senderId ≠ u ∧ (s.message.id, u) ∉ journal.acknowledged ∧
    s.message.id ∉ journal.revoked ∧ s.message.senderId ∈ db.userIds

instance (db : Database) (journal : Journal) (u : UserId) : DecidablePred (Awaits db journal u) :=
  fun _ => inferInstanceAs (Decidable (_ ∧ _))

/-- The messages of `g` that `u` awaits, in the order they were sent. -/
def awaited (db : Database) (journal : Journal) (g : GroupId) (u : UserId) : List GroupMessage :=
  (journal.sent.filter fun s => s.message.groupId = g ∧ Awaits db journal u s).map Sent.message

/-! ## The journal tells the receipts -/

/-- The group and the reader are still there. -/
def StillThere (db : Database) (u : UserId) (s : Sent) : Prop :=
  u ∈ db.userIds ∧ s.message.groupId ∈ db.groupIds

structure Recorded (db : Database) (journal : Journal) : Prop where
  ascending : Ascending (fun s => s.message.id) journal.sent
  oldIds : ∀ s ∈ journal.sent, s.message.id < db.sequences.groupMessages
  oldGroups : ∀ s ∈ journal.sent, s.message.groupId < db.sequences.groups
  oldSenders : ∀ s ∈ journal.sent, s.message.senderId < db.sequences.users
  oldMembers : ∀ s ∈ journal.sent, ∀ u ∈ s.members, u < db.sequences.users
  oldAcknowledged : ∀ a ∈ journal.acknowledged, a.1 < db.sequences.groupMessages
  oldRevoked : ∀ id ∈ journal.revoked, id < db.sequences.groupMessages
  stored : ∀ msg ∈ db.groupMessages, ∃ s ∈ journal.sent, s.message = msg
  receipt : ∀ s ∈ journal.sent, ∀ u, ⟨s.message.id, u⟩ ∈ db.groupMessageReceipts ↔
    Awaits db journal u s ∧ StillThere db u s

variable {db after : Database} {journal : Journal} {op : Operation}

namespace Recorded

/-- The journal entry of a stored row. -/
theorem entry (r : Recorded db journal) {msg : GroupMessage} (inTable : msg ∈ db.groupMessages)
    {s : Sent} (listed : s ∈ journal.sent) (same : s.message.id = msg.id) : s.message = msg := by
  obtain ⟨other, otherListed, rfl⟩ := r.stored msg inTable
  rw [r.ascending.unique listed otherListed same]

/-- A receipt is for a journal entry. -/
theorem receiptEntry (r : Recorded db journal) (c : Constraints db)
    {receipt : GroupMessageReceipt} (waiting : receipt ∈ db.groupMessageReceipts) :
    ∃ s ∈ journal.sent, s.message ∈ db.groupMessages ∧ s.message.id = receipt.messageId := by
  obtain ⟨msg, inTable, named⟩ := List.mem_map.mp (c.receipt_exists waiting).1
  obtain ⟨s, listed, rfl⟩ := r.stored msg inTable
  exact ⟨s, listed, inTable, named⟩

/-- Nothing names the id of the next message yet. -/
theorem unusedId (r : Recorded db journal) (c : Constraints db) {id : MessageId}
    (isNew : id = db.sequences.groupMessages) (u : UserId) :
    (⟨id, u⟩ : GroupMessageReceipt) ∉ db.groupMessageReceipts ∧
      (id, u) ∉ journal.acknowledged ∧ id ∉ journal.revoked := by
  subst isNew
  refine ⟨fun waiting => ?_, fun acked => ?_, fun revoked => ?_⟩
  · exact lt_irrefl _ (c.groupMessageId_lt (c.receipt_exists waiting).1)
  · exact lt_irrefl _ (r.oldAcknowledged _ acked)
  · exact lt_irrefl _ (r.oldRevoked _ revoked)

/-- The rule for calls that write no journal: users and groups may come and go,
and a receipt stays exactly while sender, reader and group do. -/
theorem transfer (r : Recorded db journal) (forward : db.sequences.Within after.sequences)
    (users : ∀ id ∈ after.userIds, id ∈ db.userIds ∨ db.sequences.users ≤ id)
    (groups : ∀ g ∈ after.groupIds, g ∈ db.groupIds ∨ db.sequences.groups ≤ g)
    (messages : ∀ msg ∈ after.groupMessages, msg ∈ db.groupMessages)
    (receipts : ∀ s ∈ journal.sent, ∀ u, ⟨s.message.id, u⟩ ∈ after.groupMessageReceipts ↔
      ⟨s.message.id, u⟩ ∈ db.groupMessageReceipts ∧ s.message.senderId ∈ after.userIds ∧
        StillThere after u s) : Recorded after journal where
  ascending := r.ascending
  oldIds := fun s listed => lt_of_lt_of_le (r.oldIds s listed) forward.groupMessages
  oldGroups := fun s listed => lt_of_lt_of_le (r.oldGroups s listed) forward.groups
  oldSenders := fun s listed => lt_of_lt_of_le (r.oldSenders s listed) forward.users
  oldMembers := fun s listed u member => lt_of_lt_of_le (r.oldMembers s listed u member) forward.users
  oldAcknowledged := fun a listed => lt_of_lt_of_le (r.oldAcknowledged a listed) forward.groupMessages
  oldRevoked := fun id listed => lt_of_lt_of_le (r.oldRevoked id listed) forward.groupMessages
  stored := fun msg inTable => r.stored msg (messages msg inTable)
  receipt := by
    intro s listed u
    rw [receipts s listed u, r.receipt s listed u]
    -- an id that was given out before is not a new one
    have oldUser : ∀ id, id < db.sequences.users → id ∈ after.userIds → id ∈ db.userIds := by
      intro id older there
      rcases users id there with old | new
      · exact old
      · exact absurd older (not_lt_of_ge new)
    have oldGroup : s.message.groupId ∈ after.groupIds → s.message.groupId ∈ db.groupIds := by
      intro there
      rcases groups _ there with old | new
      · exact old
      · exact absurd (r.oldGroups s listed) (not_lt_of_ge new)
    constructor
    · rintro ⟨⟨⟨member, other, unacked, unrevoked, -⟩, -⟩, sender, reach⟩
      exact ⟨⟨member, other, unacked, unrevoked, sender⟩, reach⟩
    · rintro ⟨⟨member, other, unacked, unrevoked, sender⟩, reach⟩
      refine ⟨⟨⟨member, other, unacked, unrevoked, ?_⟩, ?_, oldGroup reach.2⟩, sender, reach⟩
      · exact oldUser _ (r.oldSenders s listed) sender
      · exact oldUser u (r.oldMembers s listed u member) reach.1

/-- Nobody and no group went, no receipt changed. -/
theorem transfer_same (r : Recorded db journal) (forward : db.sequences.Within after.sequences)
    (users : ∀ id ∈ after.userIds, id ∈ db.userIds ∨ db.sequences.users ≤ id)
    (usersKept : ∀ id ∈ db.userIds, id ∈ after.userIds)
    (groups : ∀ g ∈ after.groupIds, g ∈ db.groupIds ∨ db.sequences.groups ≤ g)
    (groupsKept : ∀ g ∈ db.groupIds, g ∈ after.groupIds)
    (messages : after.groupMessages = db.groupMessages)
    (receipts : after.groupMessageReceipts = db.groupMessageReceipts) :
    Recorded after journal := by
  refine r.transfer forward users groups (fun msg inTable => messages ▸ inTable) ?_
  intro s listed u
  rw [receipts]
  refine (and_iff_left_of_imp ?_).symm
  intro waiting
  obtain ⟨awaits, reach⟩ := (r.receipt s listed u).mp waiting
  exact ⟨usersKept _ awaits.2.2.2.2, usersKept _ reach.1, groupsKept _ reach.2⟩

/-- The same users, groups, messages and receipts. -/
theorem transfer_ids (r : Recorded db journal) (forward : db.sequences.Within after.sequences)
    (users : after.userIds = db.userIds) (groups : after.groupIds = db.groupIds)
    (messages : after.groupMessages = db.groupMessages)
    (receipts : after.groupMessageReceipts = db.groupMessageReceipts) :
    Recorded after journal := by
  refine r.transfer_same forward ?_ ?_ ?_ ?_ messages receipts
  · exact fun id there => Or.inl (users ▸ there)
  · exact fun id there => users ▸ there
  · exact fun g there => Or.inl (groups ▸ there)
  · exact fun g there => groups ▸ there

end Recorded

/-! ## Every call keeps the record -/

theorem accountDeleted_groupIds {u : UserId} (gone : AccountDeleted db u after)
    {g : GroupId} : g ∈ after.groupIds ↔ g ∈ db.groupIds ∧ ¬ OnlyMember db g u := by
  constructor
  · intro listed
    obtain ⟨row, kept, rfl⟩ := List.mem_map.mp listed
    obtain ⟨old, inTable, stays, rfl⟩ := (gone.groups row).mp kept
    rw [withoutUser_id]
    exact ⟨List.mem_map_of_mem inTable, stays⟩
  · rintro ⟨listed, stays⟩
    obtain ⟨old, inTable, rfl⟩ := List.mem_map.mp listed
    have kept := (gone.groups _).mpr ⟨old, inTable, stays, rfl⟩
    have same := List.mem_map_of_mem (f := Group.id) kept
    rwa [withoutUser_id] at same

theorem accountDeleted_userIds {u : UserId} (gone : AccountDeleted db u after) {id : UserId} :
    id ∈ after.userIds ↔ id ∈ db.userIds ∧ id ≠ u := by
  constructor
  · intro listed
    obtain ⟨row, kept, rfl⟩ := List.mem_map.mp listed
    obtain ⟨inTable, other⟩ := (gone.users row).mp kept
    exact ⟨List.mem_map_of_mem inTable, other⟩
  · rintro ⟨listed, other⟩
    obtain ⟨row, inTable, rfl⟩ := List.mem_map.mp listed
    exact List.mem_map_of_mem ((gone.users row).mpr ⟨inTable, other⟩)

theorem recorded_accountDeleted (c : Constraints db) (r : Recorded db journal) {u : UserId}
    (gone : AccountDeleted db u after) : Recorded after journal := by
  refine r.transfer (gone.sequences ▸ within_refl _) ?_ ?_ ?_ ?_
  · exact fun id there => Or.inl ((accountDeleted_userIds gone).mp there).1
  · exact fun g there => Or.inl ((accountDeleted_groupIds gone).mp there).1
  · exact fun msg kept => ((gone.groupMessages msg).mp kept).1
  · intro s listed v
    rw [gone.groupMessageReceipts]
    refine and_congr_right fun waiting => ?_
    obtain ⟨awaits, reach⟩ := (r.receipt s listed v).mp waiting
    have inTable : s.message ∈ db.groupMessages := by
      obtain ⟨other, otherListed, stored, same⟩ := r.receiptEntry c waiting
      rwa [r.ascending.unique otherListed listed same] at stored
    have messageKept : s.message.id ∈ after.groupMessageIds ↔
        s.message.senderId ≠ u ∧ ¬ OnlyMember db s.message.groupId u := by
      constructor
      · intro kept
        obtain ⟨msg, msgKept, same⟩ := List.mem_map.mp kept
        obtain ⟨msgStored, stays⟩ := (gone.groupMessages msg).mp msgKept
        rwa [c.groupMessages.unique msgStored inTable same] at stays
      · intro stays
        exact List.mem_map_of_mem ((gone.groupMessages s.message).mpr ⟨inTable, stays⟩)
    rw [messageKept, StillThere, accountDeleted_userIds gone, accountDeleted_userIds gone,
      accountDeleted_groupIds gone]
    constructor
    · rintro ⟨reader, sender, group⟩
      exact ⟨⟨awaits.2.2.2.2, sender⟩, ⟨reach.1, reader⟩, reach.2, group⟩
    · rintro ⟨⟨-, sender⟩, ⟨-, reader⟩, -, group⟩
      exact ⟨reader, sender, group⟩

theorem recorded_groupDissolved (c : Constraints db) (r : Recorded db journal) {row : Group}
    (rowStored : row ∈ db.groups) (u : UserId) :
    Recorded ((db.deleteGroupMember row.id u).deleteGroupsWhere fun other => other.id = row.id)
      journal := by
  have left := c.deleteGroupMember row.id u
  have goneIff : ∀ g, (db.deleteGroupMember row.id u).groupGone
      (fun other => decide (other.id = row.id)) g = true ↔ g = row.id := by
    intro g
    rw [Database.groupGone_iff]
    constructor
    · rintro ⟨other, -, chosen, rfl⟩
      exact of_decide_eq_true chosen
    · rintro rfl
      exact ⟨row, rowStored, decide_eq_true rfl, rfl⟩
  refine r.transfer (within_refl _) (fun id there => Or.inl there) ?_ ?_ ?_
  · intro g there
    obtain ⟨other, kept, same⟩ := List.mem_map.mp there
    exact Or.inl (List.mem_map.mpr ⟨other, List.mem_of_mem_filter kept, same⟩)
  · exact fun msg kept => List.mem_of_mem_filter kept
  · intro s listed v
    show _ ∈ db.groupMessageReceipts.filter _ ↔ _
    rw [List.mem_filter]
    refine and_congr_right fun waiting => ?_
    obtain ⟨awaits, reach⟩ := (r.receipt s listed v).mp waiting
    have inTable : s.message ∈ (db.deleteGroupMember row.id u).groupMessages := by
      obtain ⟨other, otherListed, stored, same⟩ := r.receiptEntry c waiting
      rwa [r.ascending.unique otherListed listed same] at stored
    have messageGone := left.groupMessageGone_eq
      (p := fun msg => (db.deleteGroupMember row.id u).groupGone
        (fun other => decide (other.id = row.id)) msg.groupId) inTable
    dsimp only
    rw [messageGone]
    have groupKept : s.message.groupId ∈ ((db.deleteGroupMember row.id u).deleteGroupsWhere
        fun other => other.id = row.id).groupIds ↔ s.message.groupId ≠ row.id := by
      constructor
      · intro there same
        obtain ⟨other, kept, sameId⟩ := List.mem_map.mp there
        have stays := (List.mem_filter.mp kept).2
        simp [sameId.trans same] at stays
      · intro different
        obtain ⟨other, otherStored, sameId⟩ := List.mem_map.mp reach.2
        exact List.mem_map.mpr ⟨other, List.mem_filter.mpr ⟨otherStored, by
          simpa [sameId] using different⟩, sameId⟩
    rw [Bool.not_eq_true', ← Bool.not_eq_true, goneIff, StillThere, groupKept]
    constructor
    · intro different
      exact ⟨awaits.2.2.2.2, reach.1, different⟩
    · exact fun facts => facts.2.2

theorem recorded_messageStored (c : Constraints db) (r : Recorded db journal) {msg : GroupMessage}
    (isNew : msg.id = db.sequences.groupMessages) (senderKnown : msg.senderId ∈ db.userIds)
    (groupKnown : msg.groupId ∈ db.groupIds) :
    Recorded { db with
      groupMessages := db.groupMessages ++ [msg]
      groupMessageReceipts :=
        db.groupMessageReceipts ++ receiptRows db msg.groupId msg.senderId msg.id
      sequences := { db.sequences with groupMessages := db.sequences.groupMessages + 1 } }
      { journal with sent := journal.sent ++ [⟨msg, db.membersOf msg.groupId⟩] } := by
  have step : ∀ {n : Int}, n < db.sequences.groupMessages → n < db.sequences.groupMessages + 1 :=
    fun before => by omega
  constructor
  case ascending =>
    refine r.ascending.snoc fun s listed => ?_
    show s.message.id < msg.id
    rw [isNew]
    exact r.oldIds s listed
  case oldIds =>
    intro s listed
    rcases List.mem_append.mp listed with old | new
    · exact step (r.oldIds s old)
    · rw [List.mem_singleton.mp new]
      show msg.id < db.sequences.groupMessages + 1
      rw [isNew]
      exact Int.lt_succ _
  case oldGroups =>
    intro s listed
    rcases List.mem_append.mp listed with old | new
    · exact r.oldGroups s old
    · rw [List.mem_singleton.mp new]
      exact c.groupId_lt groupKnown
  case oldSenders =>
    intro s listed
    rcases List.mem_append.mp listed with old | new
    · exact r.oldSenders s old
    · rw [List.mem_singleton.mp new]
      exact c.userId_lt senderKnown
  case oldMembers =>
    intro s listed v member
    rcases List.mem_append.mp listed with old | new
    · exact r.oldMembers s old v member
    · rw [List.mem_singleton.mp new] at member
      exact c.userId_lt (c.member_exists (Database.mem_membersOf.mp member)).2
  case oldAcknowledged => exact fun a listed => step (r.oldAcknowledged a listed)
  case oldRevoked => exact fun id listed => step (r.oldRevoked id listed)
  case stored =>
    intro row inTable
    rcases List.mem_append.mp inTable with old | new
    · obtain ⟨s, listed, same⟩ := r.stored row old
      exact ⟨s, List.mem_append_left _ listed, same⟩
    · exact ⟨_, List.mem_append_right _ (List.mem_singleton_self _),
        (List.mem_singleton.mp new).symm⟩
  case receipt =>
    intro s listed v
    show _ ∈ db.groupMessageReceipts ++ receiptRows db msg.groupId msg.senderId msg.id ↔ _
    rw [List.mem_append, mem_receiptRows]
    rcases List.mem_append.mp listed with old | new
    · have older := r.oldIds s old
      have different : s.message.id ≠ msg.id := isNew ▸ ne_of_lt older
      rw [or_iff_left (fun isNewRow => different isNewRow.1)]
      exact r.receipt s old v
    · rw [List.mem_singleton.mp new]
      obtain ⟨noReceipt, unacked, unrevoked⟩ := r.unusedId c isNew v
      rw [or_iff_right noReceipt]
      constructor
      · rintro ⟨-, member, other⟩
        exact ⟨⟨Database.mem_membersOf.mpr member, other.symm, unacked, unrevoked, senderKnown⟩,
          (c.member_exists member).2, groupKnown⟩
      · rintro ⟨⟨member, other, -⟩, -⟩
        exact ⟨rfl, Database.mem_membersOf.mp member, Ne.symm other⟩

/-- Acknowledging takes one receipt; when it was the last, the message goes with it. -/
theorem mem_receipts_recorded {messageId : MessageId} {userId : UserId}
    {receipt : GroupMessageReceipt} :
    receipt ∈ (deleteMessageIfRead (db.deleteReceipt messageId userId)
        messageId).groupMessageReceipts ↔
      receipt ∈ db.groupMessageReceipts ∧ receipt ≠ ⟨messageId, userId⟩ := by
  show receipt ∈ (db.groupMessageReceipts.filter _).filter _ ↔ _
  rw [List.mem_filter, List.mem_filter, decide_eq_true_eq]
  refine and_iff_left_of_imp ?_
  rintro ⟨waiting, other⟩
  rw [Bool.not_eq_true', ← Bool.not_eq_true, Database.groupMessageGone_iff]
  rintro ⟨msg, -, chosen, same⟩
  simp only [Bool.and_eq_true, decide_eq_true_eq, Bool.not_eq_true', List.any_eq_false] at chosen
  refine chosen.2 receipt ?_ (same.symm.trans chosen.1)
  exact List.mem_filter.mpr ⟨waiting, decide_eq_true other⟩

theorem recorded_receiptRecorded (c : Constraints db) (r : Recorded db journal)
    {messageId : MessageId} {userId : UserId}
    (waiting : ⟨messageId, userId⟩ ∈ db.groupMessageReceipts) :
    Recorded (deleteMessageIfRead (db.deleteReceipt messageId userId) messageId)
      { journal with acknowledged := (messageId, userId) :: journal.acknowledged } :=
  { r with
    oldAcknowledged := by
      intro a listed
      rcases List.mem_cons.mp listed with rfl | old
      · exact c.groupMessageId_lt (c.receipt_exists waiting).1
      · exact r.oldAcknowledged a old
    stored := fun msg kept => r.stored msg (List.mem_of_mem_filter kept)
    receipt := by
      intro s listed v
      rw [mem_receipts_recorded, r.receipt s listed v, Ne, GroupMessageReceipt.mk.injEq]
      show _ ↔ (_ ∧ _ ∧ (s.message.id, v) ∉ (messageId, userId) :: journal.acknowledged ∧ _) ∧ _
      rw [List.mem_cons, Prod.mk.injEq, not_or]
      constructor
      · rintro ⟨⟨⟨member, other, unacked, rest⟩, reach⟩, different⟩
        exact ⟨⟨member, other, ⟨different, unacked⟩, rest⟩, reach⟩
      · rintro ⟨⟨member, other, ⟨different, unacked⟩, rest⟩, reach⟩
        exact ⟨⟨⟨member, other, unacked, rest⟩, reach⟩, different⟩ }

theorem recorded_messageRevoked (c : Constraints db) (r : Recorded db journal)
    {messageId : MessageId} {senderId : UserId}
    (sent : db.groupMessages.any (sentAs messageId senderId) = true) :
    Recorded (db.deleteGroupMessagesWhere (sentAs messageId senderId))
      { journal with revoked := messageId :: journal.revoked } := by
  obtain ⟨row, inTable, chosen⟩ := List.any_eq_true.mp sent
  have named : row.id = messageId := by
    simp only [sentAs, Bool.and_eq_true, decide_eq_true_eq] at chosen
    exact chosen.1
  have goneIff : ∀ id ∈ db.groupMessageIds,
      db.groupMessageGone (sentAs messageId senderId) id = false ↔ id ≠ messageId := by
    intro id known
    obtain ⟨msg, stored, rfl⟩ := List.mem_map.mp known
    rw [c.groupMessageGone_eq stored]
    constructor
    · intro stays same
      rw [c.groupMessages.unique stored inTable (same.trans named.symm), chosen] at stays
      cases stays
    · intro different
      simp [sentAs, different]
  exact { r with
    oldRevoked := by
      intro id listed
      rcases List.mem_cons.mp listed with rfl | old
      · have older := c.nextGroupMessage row inTable
        rwa [named] at older
      · exact r.oldRevoked id old
    stored := fun msg kept => r.stored msg (List.mem_of_mem_filter kept)
    receipt := by
      intro s listed v
      show _ ∈ db.groupMessageReceipts.filter _ ↔
        (_ ∧ _ ∧ _ ∧ s.message.id ∉ messageId :: journal.revoked ∧ _) ∧ _
      rw [List.mem_filter, Bool.not_eq_true', List.mem_cons, not_or]
      constructor
      · rintro ⟨waiting, stays⟩
        obtain ⟨⟨member, other, unacked, unrevoked, sender⟩, reach⟩ :=
          (r.receipt s listed v).mp waiting
        have different := (goneIff _ (c.receipt_exists waiting).1).mp stays
        exact ⟨⟨member, other, unacked, ⟨different, unrevoked⟩, sender⟩, reach⟩
      · rintro ⟨⟨member, other, unacked, ⟨different, unrevoked⟩, sender⟩, reach⟩
        have waiting := (r.receipt s listed v).mpr
          ⟨⟨member, other, unacked, unrevoked, sender⟩, reach⟩
        exact ⟨waiting, (goneIff _ (c.receipt_exists waiting).1).mpr different⟩ }

/-- A call that raises is not journalled. -/
theorem noteMessages_error {e : Error} (failed : perform db op = .error e) :
    noteMessages db op journal = journal := by
  cases op with
  | storeGroupMessage groupId senderId epoch ciphertext =>
      unfold noteMessages
      cases stored : storeGroupMessage db groupId senderId epoch ciphertext with
      | error e' => simp only [stored]
      | ok result =>
          rw [perform, stored] at failed
          cases failed
  | recordGroupReceipt messageId userId =>
      unfold noteMessages
      have raised : recordGroupReceipt db messageId userId = .error e := failed
      simp only [raised]
  | revokeGroupMessage messageId senderId => cases failed
  | _ => rfl

theorem noteMessages_other (other : ¬ op.OnGroupMessages) : noteMessages db op journal = journal := by
  cases op with
  | storeGroupMessage => exact absurd trivial other
  | recordGroupReceipt => exact absurd trivial other
  | revokeGroupMessage => exact absurd trivial other
  | _ => rfl

theorem recorded_kept (sound : Sound db) (r : Recorded db journal) (op : Operation) :
    Recorded (commit db op) (noteMessages db op journal) := by
  have c := sound.constraints
  cases done : perform db op with
  | error e =>
      rw [commit_error done, noteMessages_error done]
      exact r
  | ok after =>
      rw [commit_ok done]
      have sameGroups : ∀ (g : GroupId) (f : Group → Group), (∀ row, (f row).id = row.id) →
          after.groups = (db.updateGroup g f).groups → after.groupIds = db.groupIds := by
        intro g f keeps groups
        have ids : (db.updateGroup g f).groupIds = db.groupIds := Database.updateGroup_groupIds keeps
        unfold Database.groupIds at ids ⊢
        rw [groups, ids]
      cases sound.effect done with
      | accountDeleted u _ _ gone => exact recorded_accountDeleted c r gone
      | groupCreated name creatorId initialMembers row isRow =>
          refine r.transfer_same ⟨le_refl _, le_of_lt (Int.lt_succ _), le_refl _, le_refl _,
            le_refl _⟩ (fun _ there => Or.inl there) (fun _ there => there) ?_ ?_ rfl rfl
          · intro g there
            obtain ⟨other, listed, rfl⟩ := List.mem_map.mp there
            rcases List.mem_append.mp listed with old | new
            · exact Or.inl (List.mem_map_of_mem old)
            · rw [List.mem_singleton.mp new, isRow]
              exact Or.inr (le_refl _)
          · intro g there
            obtain ⟨other, listed, rfl⟩ := List.mem_map.mp there
            exact List.mem_map_of_mem (List.mem_append_left _ listed)
      | memberAdded g =>
          exact r.transfer_ids (within_refl _) rfl (sameGroups g bumpEpoch bumpEpoch_id rfl) rfl rfl
      | groupDissolved g requesterId u skdmCiphertexts row found =>
          obtain ⟨rowStored, rfl⟩ := Database.findGroup_some found
          exact recorded_groupDissolved c r rowStored u
      | memberRemoved g _ u _ _ _ _ _ _ _ transfer =>
          exact r.transfer_ids (within_refl _) rfl
            (sameGroups g (departed transfer) (departed_id transfer) rfl) rfl rfl
      | skdmsStored g =>
          exact r.transfer_ids (within_refl _) rfl (sameGroups g bumpEpoch bumpEpoch_id rfl) rfl rfl
      | skdmsPopped => exact r.transfer_ids (within_refl _) rfl rfl rfl rfl
      | messageStored g senderId epoch ciphertext row isRow senderKnown groupKnown =>
          obtain ⟨msg, stored⟩ := dropResult_ok done
          obtain ⟨-, -, -, isMsg, -⟩ := storeGroupMessage_ok stored
          have same : msg = row := isMsg.trans isRow.symm
          subst same
          have noted : (⟨msg.id, senderId, g, epoch, ciphertext⟩ : GroupMessage) = msg := by
            rw [isMsg]
          simp only [noteMessages, stored, noted]
          have isNew : msg.id = db.sequences.groupMessages := by rw [isMsg]
          have sender : msg.senderId = senderId := by rw [isMsg]
          have group : msg.groupId = g := by rw [isMsg]
          have recorded := recorded_messageStored c r isNew (sender ▸ senderKnown)
            (group ▸ groupKnown)
          rw [sender, group] at recorded
          exact recorded
      | messageRevoked messageId senderId =>
          unfold noteMessages revokeGroupMessage
          by_cases sent : db.groupMessages.any (sentAs messageId senderId) = true
          · simp only [sent, if_true]
            exact recorded_messageRevoked c r sent
          · have quiet : (revokeGroupMessage db messageId senderId).1 =
                db.deleteGroupMessagesWhere (sentAs messageId senderId) :=
              revokeGroupMessage_fst messageId
            rw [revokeGroupMessage, if_neg sent] at quiet
            simp only [sent, ← quiet]
            exact r
      | receiptRecorded messageId userId waiting =>
          unfold noteMessages
          have recorded : recordGroupReceipt db messageId userId = .ok _ := done
          simp only [recorded]
          exact recorded_receiptRecorded c r waiting
      | elsewhere _ _ other same =>
          rw [noteMessages_other other]
          have groups : after.groupIds = db.groupIds := by
            unfold Database.groupIds
            rw [same.groups]
          refine r.transfer_same same.sequences same.newUsers same.users ?_ ?_ same.groupMessages
            same.groupMessageReceipts
          · exact fun g there => Or.inl (groups ▸ there)
          · exact fun g there => groups ▸ there

theorem recorded (ops : List Operation) : Recorded (service.run ops) (journalOf ops) := by
  have both : Sound (service.run ops) ∧ Recorded (service.run ops) (journalOf ops) := by
    refine service.observe_invariant
      (P := fun db journal => Sound db ∧ Recorded db journal) ?_ ?_ ops
    · refine ⟨sound_empty, ?_⟩
      constructor
      case ascending => exact List.Pairwise.nil
      all_goals exact fun _ listed => absurd listed List.not_mem_nil
    · intro db op journal ⟨sound, r⟩
      exact ⟨sound.commit op, recorded_kept sound r op⟩
  exact both.2

/-! ## What a reader fetches -/

theorem mem_getGroupMessages {g : GroupId} {u : UserId} {msg : GroupMessage} :
    msg ∈ getGroupMessages db g u ↔ msg ∈ db.groupMessages ∧ msg.groupId = g ∧
      ⟨msg.id, u⟩ ∈ db.groupMessageReceipts := by
  simp only [getGroupMessages, List.mem_map, mem_orderBy, List.mem_filter, mem_joinOn,
    Bool.and_eq_true, decide_eq_true_eq]
  constructor
  · rintro ⟨⟨row, receipt⟩, ⟨⟨inTable, waiting, named, reader⟩, inGroup⟩, rfl⟩
    have same : receipt = ⟨row.id, u⟩ := by rw [← named, ← reader]
    exact ⟨inTable, inGroup, same ▸ waiting⟩
  · rintro ⟨inTable, inGroup, waiting⟩
    exact ⟨(msg, ⟨msg.id, u⟩), ⟨⟨inTable, waiting, rfl, rfl⟩, inGroup⟩, rfl⟩

/-- A reader has at most one receipt of a message, so the join repeats nothing. -/
theorem getGroupMessages_ascending (c : Constraints db) (g : GroupId) (u : UserId) :
    Ascending GroupMessage.id (getGroupMessages db g u) := by
  have single : ∀ row ∈ db.groupMessages, (db.groupMessageReceipts.filter fun receipt =>
      decide (receipt.messageId = row.id) && decide (receipt.userId = u)).length ≤ 1 := by
    intro row _
    have onlyThis : ∀ receipt ∈ db.groupMessageReceipts.filter (fun receipt =>
        decide (receipt.messageId = row.id) && decide (receipt.userId = u)),
        receipt = ⟨row.id, u⟩ := by
      intro receipt listed
      have chosen := (List.mem_filter.mp listed).2
      simp only [Bool.and_eq_true, decide_eq_true_eq] at chosen
      rw [← chosen.1, ← chosen.2]
    have repeats := List.eq_replicate_of_mem onlyThis
    have once : (db.groupMessageReceipts.filter fun receipt =>
        decide (receipt.messageId = row.id) && decide (receipt.userId = u)).Nodup :=
      c.groupMessageReceipts.filter _
    rw [repeats] at once
    exact List.nodup_replicate.mp once
  have joined := (c.groupMessages.joinOn single).filter fun pair =>
    decide (pair.1.groupId = g)
  unfold getGroupMessages
  rw [joined.orderBy_eq]
  exact List.pairwise_map.mpr joined

theorem awaited_ascending (r : Recorded db journal) (g : GroupId) (u : UserId) :
    Ascending GroupMessage.id (awaited db journal g u) :=
  List.pairwise_map.mpr (r.ascending.filter _)

/-- **Exactly-once delivery**: for a group and a user that exist, fetching gives the
messages the user awaits there, in ascending id order and without repetition. -/
theorem getGroupMessages_exact (ops : List Operation) (g : GroupId) (u : UserId)
    (groupThere : g ∈ (service.run ops).groupIds) (userThere : u ∈ (service.run ops).userIds) :
    getGroupMessages (service.run ops) g u = awaited (service.run ops) (journalOf ops) g u ∧
      Ascending GroupMessage.id (getGroupMessages (service.run ops) g u) := by
  have c := (reachable ops).constraints
  have r := recorded ops
  have sorted := getGroupMessages_ascending c g u
  refine ⟨sorted.ext (awaited_ascending r g u) ?_, sorted⟩
  intro msg
  rw [mem_getGroupMessages, awaited, List.mem_map]
  constructor
  · rintro ⟨inTable, inGroup, waiting⟩
    obtain ⟨s, listed, rfl⟩ := r.stored msg inTable
    have awaits := ((r.receipt s listed u).mp waiting).1
    exact ⟨s, List.mem_filter.mpr ⟨listed, decide_eq_true ⟨inGroup, awaits⟩⟩, rfl⟩
  · rintro ⟨s, chosen, rfl⟩
    obtain ⟨listed, facts⟩ := List.mem_filter.mp chosen
    obtain ⟨inGroup, awaits⟩ := of_decide_eq_true facts
    have waiting := (r.receipt s listed u).mpr ⟨awaits, userThere, inGroup ▸ groupThere⟩
    obtain ⟨other, otherListed, stored, same⟩ := r.receiptEntry c waiting
    rw [r.ascending.unique otherListed listed same] at stored
    exact ⟨stored, inGroup, waiting⟩

/-- Three members; one message each way, one acknowledged, and the sender of the
other still there. -/
def conversation : List Operation :=
  [.createUser "ada" "5a" [1] [2], .createUser "bob" "5b" [3] [4], .createUser "cyd" "5c" [5] [6],
    .createGroup "team" 1 Dict.empty, .addMember 1 1 2 [7], .storeGroupMessage 1 1 1 [10],
    .addMember 1 1 3 [8], .storeGroupMessage 1 1 2 [11], .recordGroupReceipt 1 2]

theorem getGroupMessages_exact_conversation :
    getGroupMessages (service.run conversation) 1 3 =
        awaited (service.run conversation) (journalOf conversation) 1 3 ∧
      Ascending GroupMessage.id (getGroupMessages (service.run conversation) 1 3) :=
  getGroupMessages_exact conversation 1 3 (by decide) (by decide)

end SecureMsg.Groups
