/-
# Groups.Readers — a stored message has somebody left to read it

`SomebodyReads`: every stored message that was sent to at least one reader has a
receipt of a current member.  The test "no receipt left" that deletes a message
stands in `record_group_receipt` only, so the law is broken by exactly three
steps (`LeavesReader`): a removal or an account deletion that takes the last
member still waiting, and an acknowledgement after which only former members
wait.
-/
import SecureMsg.Repository.Isolation
import SecureMsg.Groups.Delivery

namespace SecureMsg.Groups

open SecureMsg.Theory SecureMsg.Store SecureMsg.Repository

set_option autoImplicit false

/-- Some current member of the message's group has a receipt for it. -/
def HasReader (db : Database) (msg : GroupMessage) : Prop :=
  ∃ receipt ∈ db.groupMessageReceipts,
    receipt.messageId = msg.id ∧ db.IsMember msg.groupId receipt.userId

instance (db : Database) : DecidablePred (HasReader db) := fun msg =>
  inferInstanceAs (Decidable (∃ receipt ∈ db.groupMessageReceipts,
    receipt.messageId = msg.id ∧ db.IsMember msg.groupId receipt.userId))

/-- It was sent while somebody besides the sender was a member. -/
def HadRecipient (s : Sent) : Prop := ∃ uid ∈ s.members, uid ≠ s.message.senderId

instance : DecidablePred HadRecipient := fun s =>
  inferInstanceAs (Decidable (∃ uid ∈ s.members, uid ≠ s.message.senderId))

def SomebodyReads (db : Database) (journal : Journal) : Prop :=
  ∀ s ∈ journal.sent, s.message ∈ db.groupMessages → HadRecipient s → HasReader db s.message

instance (db : Database) (journal : Journal) : Decidable (SomebodyReads db journal) :=
  inferInstanceAs (Decidable (∀ s ∈ journal.sent,
    s.message ∈ db.groupMessages → HadRecipient s → HasReader db s.message))

/-- Somebody other than `u` who is a member of the message's group waits for it. -/
def AnotherReads (db : Database) (u : UserId) (msg : GroupMessage) : Prop :=
  ∃ uid, uid ≠ u ∧ db.IsMember msg.groupId uid ∧ ⟨msg.id, uid⟩ ∈ db.groupMessageReceipts

/-- The step leaves a reader: a member who goes while waiting is not the last
member waiting, and an acknowledgement that is not the last one leaves a member. -/
def LeavesReader (db : Database) : Operation → Prop
  | .removeMember g r u skdmCiphertexts =>
      ∀ row ∈ db.groups, row.id = g → (r = u ∨ row.creatorId = r) → db.IsMember g u →
        1 < (remaining db g u).length → (∀ uid ∈ skdmCiphertexts.keys, uid ∈ db.userIds) →
        ∀ msg ∈ db.groupMessages, msg.groupId = g → ⟨msg.id, u⟩ ∈ db.groupMessageReceipts →
          AnotherReads db u msg
  | .deleteUser u =>
      ∀ msg ∈ db.groupMessages, msg.senderId ≠ u → db.IsMember msg.groupId u →
        ¬ OnlyMember db msg.groupId u → ⟨msg.id, u⟩ ∈ db.groupMessageReceipts →
          AnotherReads db u msg
  | .recordGroupReceipt id u =>
      ∀ msg ∈ db.groupMessages, msg.id = id → ⟨id, u⟩ ∈ db.groupMessageReceipts →
        (∃ uid, uid ≠ u ∧ ⟨id, uid⟩ ∈ db.groupMessageReceipts) → AnotherReads db u msg
  | _ => True

variable {db after : Database} {journal : Journal} {op : Operation}

theorem hasReader_iff {msg : GroupMessage} : HasReader db msg ↔
    ∃ uid, db.IsMember msg.groupId uid ∧ ⟨msg.id, uid⟩ ∈ db.groupMessageReceipts := by
  constructor
  · rintro ⟨⟨id, uid⟩, waiting, rfl, member⟩
    exact ⟨uid, member, waiting⟩
  · rintro ⟨uid, member, waiting⟩
    exact ⟨⟨msg.id, uid⟩, waiting, rfl, member⟩

/-- A reader who stays a member and keeps the receipt is still a reader. -/
theorem HasReader.stays {msg : GroupMessage} (reader : HasReader db msg)
    (kept : ∀ uid, db.IsMember msg.groupId uid → ⟨msg.id, uid⟩ ∈ db.groupMessageReceipts →
      after.IsMember msg.groupId uid ∧ ⟨msg.id, uid⟩ ∈ after.groupMessageReceipts) :
    HasReader after msg := by
  obtain ⟨uid, member, waiting⟩ := hasReader_iff.mp reader
  exact hasReader_iff.mpr ⟨uid, kept uid member waiting⟩

/-- A reader of a group whose rows a call left alone. -/
theorem HasReader.of_rowsOf {msg : GroupMessage} (stored : msg ∈ db.groupMessages)
    (reader : HasReader db msg) (same : rowsOf after msg.groupId = rowsOf db msg.groupId) :
    HasReader after msg := by
  refine reader.stays fun uid member waiting => ⟨?_, ?_⟩
  · have listed : (⟨msg.groupId, uid⟩ : GroupMember) ∈ (rowsOf db msg.groupId).members :=
      List.mem_filter.mpr ⟨member, decide_eq_true rfl⟩
    rw [← same] at listed
    exact (List.mem_filter.mp listed).1
  · have listed : (⟨msg.id, uid⟩ : GroupMessageReceipt) ∈ (rowsOf db msg.groupId).receipts :=
      List.mem_filter.mpr ⟨waiting, receiptIn_iff.mpr ⟨msg, stored, rfl, rfl⟩⟩
    rw [← same] at listed
    exact (List.mem_filter.mp listed).1

/-- With a reader among the members, either `u` is not one of them or another is. -/
theorem HasReader.another {msg : GroupMessage} (reader : HasReader db msg) {u : UserId}
    (law : db.IsMember msg.groupId u → ⟨msg.id, u⟩ ∈ db.groupMessageReceipts →
      AnotherReads db u msg) : AnotherReads db u msg := by
  obtain ⟨uid, member, waiting⟩ := hasReader_iff.mp reader
  by_cases same : uid = u
  · subst same
    exact law member waiting
  · exact ⟨uid, same, member, waiting⟩

/-- Membership only grows, messages go whole. -/
theorem somebodyReads_grow (reads : SomebodyReads db journal)
    (messages : ∀ msg ∈ after.groupMessages, msg ∈ db.groupMessages)
    (members : ∀ row ∈ db.groupMembers, row ∈ after.groupMembers)
    (receipts : after.groupMessageReceipts = db.groupMessageReceipts) :
    SomebodyReads after journal := by
  intro s listed stored recipient
  refine (reads s listed (messages _ stored) recipient).stays fun uid member waiting => ?_
  exact ⟨members _ member, receipts ▸ waiting⟩

/-! ## Step by step -/

theorem somebodyReads_accountDeleted {u : UserId} (gone : AccountDeleted db u after)
    (reads : SomebodyReads db journal) (leaves : LeavesReader db (.deleteUser u)) :
    SomebodyReads after journal := by
  intro s listed stored recipient
  obtain ⟨before, sender, stays⟩ := (gone.groupMessages s.message).mp stored
  obtain ⟨uid, different, member, waiting⟩ := (reads s listed before recipient).another
    fun member waiting => leaves s.message before sender member stays waiting
  refine hasReader_iff.mpr ⟨uid, (gone.groupMembers _).mpr ⟨member, different⟩, ?_⟩
  exact (gone.groupMessageReceipts _).mpr ⟨waiting, different, List.mem_map_of_mem stored⟩

theorem somebodyReads_dissolved (c : Constraints db) {row : Group} (rowStored : row ∈ db.groups)
    {u : UserId} (reads : SomebodyReads db journal) :
    SomebodyReads ((db.deleteGroupMember row.id u).deleteGroupsWhere fun r => r.id = row.id)
      journal := by
  intro s listed stored recipient
  obtain ⟨before, stays⟩ := List.mem_filter.mp stored
  have other : s.message.groupId ≠ row.id := by
    intro same
    have gone : (db.deleteGroupMember row.id u).groupGone (fun r => r.id = row.id)
        s.message.groupId = true :=
      Database.groupGone_iff.mpr ⟨row, rowStored, decide_eq_true rfl, same.symm⟩
    simp [gone] at stays
  have inTable : s.message ∈ db.groupMessages := before
  have reader := reads s listed inTable recipient
  exact reader.of_rowsOf inTable (rowsOf_dissolved c other)

/-- The leaver's receipts stay behind, so another member has to be waiting. -/
theorem somebodyReads_departure {row : Group} {u : UserId} {transfer : Option UserId}
    {skdmCiphertexts : Ciphertexts} (reads : SomebodyReads db journal)
    (leaves : ∀ msg ∈ db.groupMessages, msg.groupId = row.id →
      ⟨msg.id, u⟩ ∈ db.groupMessageReceipts → AnotherReads db u msg) :
    SomebodyReads (departure db row.id u transfer row.epoch skdmCiphertexts) journal := by
  intro s listed stored recipient
  have reader := reads s listed stored recipient
  by_cases here : s.message.groupId = row.id
  · obtain ⟨uid, different, isMember, waiting⟩ := reader.another fun _ waiting =>
      leaves s.message stored here waiting
    refine hasReader_iff.mpr ⟨uid, ?_, waiting⟩
    rw [departure_isMember]
    exact ⟨isMember, fun leaver => different leaver.2⟩
  · refine reader.stays fun uid isMember waiting => ⟨?_, waiting⟩
    rw [departure_isMember]
    exact ⟨isMember, fun leaver => here leaver.1⟩

/-- A new message is awaited by everybody it was sent to. -/
theorem somebodyReads_messageStored (r : Recorded db journal) (reads : SomebodyReads db journal)
    {msg : GroupMessage} (isNew : msg.id = db.sequences.groupMessages) {sequences : Sequences} :
    SomebodyReads { db with
      groupMessages := db.groupMessages ++ [msg]
      groupMessageReceipts :=
        db.groupMessageReceipts ++ receiptRows db msg.groupId msg.senderId msg.id
      sequences := sequences }
      { journal with sent := journal.sent ++ [⟨msg, db.membersOf msg.groupId⟩] } := by
  intro s listed stored recipient
  rcases List.mem_append.mp listed with old | new
  · have before : s.message ∈ db.groupMessages := by
      rcases List.mem_append.mp stored with inTable | isMsg
      · exact inTable
      · have older := r.oldIds s old
        rw [List.mem_singleton.mp isMsg, isNew] at older
        exact absurd older (lt_irrefl _)
    exact (reads s old before recipient).stays fun uid member waiting =>
      ⟨member, List.mem_append_left _ waiting⟩
  · rw [List.mem_singleton.mp new] at recipient ⊢
    obtain ⟨uid, member, different⟩ := recipient
    have inGroup := Database.mem_membersOf.mp member
    refine hasReader_iff.mpr ⟨uid, inGroup, List.mem_append_right _ ?_⟩
    exact mem_receiptRows.mpr ⟨rfl, inGroup, different⟩

theorem somebodyReads_messageRevoked (c : Constraints db) {p : GroupMessage → Bool}
    (reads : SomebodyReads db journal) :
    SomebodyReads (db.deleteGroupMessagesWhere p) journal := by
  intro s listed stored recipient
  obtain ⟨before, stays⟩ := List.mem_filter.mp stored
  refine (reads s listed before recipient).stays fun uid member waiting => ⟨member, ?_⟩
  refine List.mem_filter.mpr ⟨waiting, ?_⟩
  rw [c.groupMessageGone_eq before]
  exact stays

theorem somebodyReads_receiptRecorded {messageId : MessageId} {u : UserId}
    (waiting : ⟨messageId, u⟩ ∈ db.groupMessageReceipts) (reads : SomebodyReads db journal)
    (leaves : LeavesReader db (.recordGroupReceipt messageId u)) :
    SomebodyReads (deleteMessageIfRead (db.deleteReceipt messageId u) messageId) journal := by
  intro s listed stored recipient
  obtain ⟨before, stays⟩ := List.mem_filter.mp stored
  have reader := reads s listed before recipient
  by_cases this : s.message.id = messageId
  · -- the message stayed, so some other receipt did
    have remains : ∃ uid, uid ≠ u ∧ ⟨messageId, uid⟩ ∈ db.groupMessageReceipts := by
      simp only [this, decide_true, Bool.true_and, Bool.not_not, List.any_eq_true,
        decide_eq_true_eq] at stays
      obtain ⟨⟨id, uid⟩, kept, rfl⟩ := stays
      obtain ⟨inTable, other⟩ := List.mem_filter.mp kept
      exact ⟨uid, fun same => of_decide_eq_true other (by rw [same]), inTable⟩
    obtain ⟨uid, different, member, waits⟩ := leaves s.message before this waiting remains
    refine hasReader_iff.mpr ⟨uid, member, mem_receipts_recorded.mpr ⟨waits, ?_⟩⟩
    intro same
    cases same
    exact different rfl
  · refine reader.stays fun uid member waits => ⟨member, ?_⟩
    refine mem_receipts_recorded.mpr ⟨waits, ?_⟩
    intro same
    cases same
    exact this rfl

theorem somebodyReads_kept (sound : Sound db) (r : Recorded db journal)
    (reads : SomebodyReads db journal) (leaves : LeavesReader db op) :
    SomebodyReads (commit db op) (noteMessages db op journal) := by
  have c := sound.constraints
  cases done : perform db op with
  | error e =>
      rw [commit_error done, noteMessages_error done]
      exact reads
  | ok after =>
      rw [commit_ok done]
      cases sound.effect done with
      | accountDeleted u _ _ gone => exact somebodyReads_accountDeleted gone reads leaves
      | groupCreated =>
          exact somebodyReads_grow reads (fun _ stored => stored)
            (fun _ inTable => List.mem_append_left _ inTable) rfl
      | memberAdded g _ u =>
          exact somebodyReads_grow reads (fun _ stored => stored)
            (fun _ inTable => mem_groupMembers_added.mpr (Or.inl inTable)) rfl
      | groupDissolved g requesterId u skdmCiphertexts row found =>
          obtain ⟨rowStored, rfl⟩ := Database.findGroup_some found
          exact somebodyReads_dissolved c rowStored reads
      | memberRemoved g requesterId u skdmCiphertexts row found authorised member many known =>
          obtain ⟨rowStored, rfl⟩ := Database.findGroup_some found
          exact somebodyReads_departure reads (leaves row rowStored rfl authorised member many known)
      | skdmsStored =>
          exact somebodyReads_grow reads (fun _ stored => stored) (fun _ inTable => inTable) rfl
      | skdmsPopped =>
          exact somebodyReads_grow reads (fun _ stored => stored) (fun _ inTable => inTable) rfl
      | messageStored g senderId epoch ciphertext row isRow =>
          obtain ⟨msg, isStored⟩ := dropResult_ok done
          obtain ⟨-, -, -, isMsg, -⟩ := storeGroupMessage_ok isStored
          have same : msg = row := isMsg.trans isRow.symm
          subst same
          simp only [noteMessages, isStored]
          subst isMsg
          exact somebodyReads_messageStored r reads rfl
      | messageRevoked messageId senderId =>
          have removed := somebodyReads_messageRevoked c (p := sentAs messageId senderId) reads
          simp only [noteMessages]
          split
          · exact removed
          · exact removed
      | receiptRecorded messageId userId waiting =>
          have recorded : recordGroupReceipt db messageId userId = .ok _ := done
          simp only [noteMessages, recorded]
          exact somebodyReads_receiptRecorded waiting reads leaves
      | elsewhere _ _ other same =>
          rw [noteMessages_other other]
          exact somebodyReads_grow reads (fun _ stored => same.groupMessages ▸ stored)
            (fun _ inTable => same.groupMembers ▸ inTable) same.groupMessageReceipts

/-! ## The steps that break it -/

/-- A message that `u` has a receipt for was sent to somebody. -/
theorem Recorded.hadRecipient (r : Recorded db journal) {msg : GroupMessage}
    (stored : msg ∈ db.groupMessages) {u : UserId}
    (waiting : ⟨msg.id, u⟩ ∈ db.groupMessageReceipts) :
    ∃ s ∈ journal.sent, s.message = msg ∧ HadRecipient s := by
  obtain ⟨s, listed, rfl⟩ := r.stored msg stored
  obtain ⟨⟨member, other, -⟩, -⟩ := (r.receipt s listed u).mp waiting
  exact ⟨s, listed, rfl, u, member, Ne.symm other⟩

theorem leavesReader_of_reads (sound : Sound db) (r : Recorded db journal)
    (reads : SomebodyReads (commit db op) (noteMessages db op journal)) : LeavesReader db op := by
  have c := sound.constraints
  cases op with
  | removeMember g requesterId u skdmCiphertexts =>
      rintro row rowStored rfl authorised member many known msg stored here waiting
      have found := c.findGroup_eq_some.mpr rowStored
      have selected : Session.fresh.selectGroup db row.id = some row := by
        rw [Session.selectGroup_fresh]
        exact found
      obtain ⟨after, goes⟩ := removeMember_succeeds c selected authorised member many known
      have done : perform db (.removeMember row.id requesterId u skdmCiphertexts) = .ok after := by
        rw [perform, goes]
        rfl
      rw [commit_ok done] at reads
      obtain ⟨s, listed, rfl, recipient⟩ := r.hadRecipient stored waiting
      cases removeMember_ok goes with
      | removed =>
          obtain ⟨uid, isMember, waits⟩ := hasReader_iff.mp (reads s listed stored recipient)
          obtain ⟨before, notLeaver⟩ := departure_isMember.mp isMember
          exact ⟨uid, fun same => notLeaver ⟨here, same⟩, before, waits⟩
  | deleteUser u =>
      intro msg stored sender member stays waiting
      have exists_ := (c.member_exists member).2
      have done := perform_deleteUser c exists_
      have gone := deleteUser_deleted c sound.creators exists_
      rw [commit_ok done] at reads
      obtain ⟨s, listed, rfl, recipient⟩ := r.hadRecipient stored waiting
      have kept := (gone.groupMessages s.message).mpr ⟨stored, sender, stays⟩
      obtain ⟨uid, isMember, waits⟩ := hasReader_iff.mp (reads s listed kept recipient)
      obtain ⟨before, other⟩ := (gone.groupMembers _).mp isMember
      exact ⟨uid, other, before, ((gone.groupMessageReceipts _).mp waits).1⟩
  | recordGroupReceipt id u =>
      rintro msg stored rfl waiting ⟨other, different, otherWaits⟩
      have recorded : recordGroupReceipt db msg.id u =
          .ok (deleteMessageIfRead (db.deleteReceipt msg.id u) msg.id) := if_pos waiting
      have done : perform db (.recordGroupReceipt msg.id u) =
          .ok (deleteMessageIfRead (db.deleteReceipt msg.id u) msg.id) := recorded
      rw [commit_ok done] at reads
      simp only [noteMessages, recorded] at reads
      obtain ⟨s, listed, rfl, recipient⟩ := r.hadRecipient stored waiting
      have otherKept : (⟨s.message.id, other⟩ : GroupMessageReceipt) ≠ ⟨s.message.id, u⟩ := by
        intro same
        cases same
        exact different rfl
      have messageKept : s.message ∈
          (deleteMessageIfRead (db.deleteReceipt s.message.id u) s.message.id).groupMessages := by
        have left : (⟨s.message.id, other⟩ : GroupMessageReceipt) ∈
            (db.deleteReceipt s.message.id u).groupMessageReceipts :=
          List.mem_filter.mpr ⟨otherWaits, decide_eq_true otherKept⟩
        refine List.mem_filter.mpr ⟨stored, ?_⟩
        simp only [decide_true, Bool.true_and, Bool.not_not, List.any_eq_true, decide_eq_true_eq]
        exact ⟨_, left, rfl⟩
      obtain ⟨uid, isMember, waits⟩ := hasReader_iff.mp (reads s listed messageKept recipient)
      obtain ⟨before, notThis⟩ := mem_receipts_recorded.mp waits
      refine ⟨uid, ?_, isMember, before⟩
      rintro rfl
      exact notThis rfl
  | _ => trivial

/-- **Stored messages keep a reader exactly in the runs whose steps leave one.** -/
theorem somebodyReads_iff (ops : List Operation) :
    Throughout (fun earlier => SomebodyReads (service.run earlier) (journalOf earlier)) ops ↔
      EachStep (fun earlier op => LeavesReader (service.run earlier) op) ops := by
  refine throughout_iff_eachStep ?_ ?_ ops
  · exact fun s listed => absurd listed List.not_mem_nil
  · intro earlier op reads
    have sound := reachable earlier
    have r := recorded earlier
    unfold journalOf at reads r ⊢
    rw [System.run_snoc, System.observe_snoc]
    exact ⟨leavesReader_of_reads sound r, somebodyReads_kept sound r reads⟩

/-- Bob has acknowledged; Cyd, the last one waiting, leaves the group. -/
def lastReaderLeaves : List Operation :=
  [.createUser "ada" "5a" [1] [2], .createUser "bob" "5b" [3] [4], .createUser "cyd" "5c" [5] [6],
    .createGroup "team" 1 Dict.empty, .addMember 1 1 2 [7], .addMember 1 1 3 [8],
    .storeGroupMessage 1 1 2 [9], .recordGroupReceipt 1 2, .removeMember 1 3 3 Dict.empty]

theorem last_reader_leaves :
    ¬ Throughout (fun earlier => SomebodyReads (service.run earlier) (journalOf earlier))
      lastReaderLeaves := by
  decide

end SecureMsg.Groups
