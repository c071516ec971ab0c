/-
# Messages.Inbox — what is in an inbox

A `Journal` is kept beside the run: what was accepted, what its recipient
acknowledged and what its sender revoked.  `Recorded` ties the table to it: a row
is stored exactly while neither happened and both accounts exist.

`inbox_contract`: after every run the full inbox is the journal, filtered, and
`store_message` and `delete_message` do what their callers are told.
-/
import SecureMsg.Repository.Personal

namespace SecureMsg.Messages

open SecureMsg.Theory SecureMsg.Store SecureMsg.Repository

set_option autoImplicit false

/-! ## The journal -/

structure Journal where
  accepted : List Message := []
  acknowledged : List (MessageId × UserId) := []
  revoked : List (MessageId × UserId) := []
  deriving DecidableEq, Repr

/-- An accepted message is noted with what the caller passed, under the id the
method returned. -/
def noteMail (db : Database) (op : Operation) (journal : Journal) : Journal :=
  match op with
  | .storeMessage senderId recipientId ciphertext ratchetHeaderEnc =>
      match storeMessage db senderId recipientId ciphertext ratchetHeaderEnc with
      | .ok (_, id) => { journal with
          accepted := journal.accepted ++ [⟨id, senderId, recipientId, ciphertext, ratchetHeaderEnc⟩] }
      | .error _ => journal
  | .deleteMessage messageId .recipientId userId =>
      if (deleteMessage db messageId .recipientId userId).2 then
        { journal with acknowledged := (messageId, userId) :: journal.acknowledged }
      else journal
  | .deleteMessage messageId .senderId userId =>
      if (deleteMessage db messageId .senderId userId).2 then
        { journal with revoked := (messageId, userId) :: journal.revoked }
      else journal
  | _ => journal

def journalOf (ops : List Operation) : Journal := service.observe noteMail {} ops

/-- Its recipient has not acknowledged it, its sender has not revoked it, and the
sender's account exists. -/
def Stands (db : Database) (journal : Journal) (row : Message) : Prop :=
  (row.id, row.recipientId) ∉ journal.acknowledged ∧ (row.id, row.senderId) ∉ journal.revoked ∧
    row.senderId ∈ db.userIds

instance (db : Database) (journal : Journal) : DecidablePred (Stands db journal) :=
  fun _ => inferInstanceAs (Decidable (_ ∧ _))

/-- The messages accepted for `u` that still stand, in the order of acceptance. -/
def awaited (db : Database) (journal : Journal) (u : UserId) : List Message :=
  journal.accepted.filter fun row => row.recipientId = u ∧ Stands db journal row

structure Recorded (db : Database) (journal : Journal) : Prop where
  ascending : Ascending Message.id journal.accepted
  oldIds : ∀ row ∈ journal.accepted, row.id < db.sequences.messages
  oldSenders : ∀ row ∈ journal.accepted, row.senderId < db.sequences.users
  oldRecipients : ∀ row ∈ journal.accepted, row.recipientId < db.sequences.users
  oldAcknowledged : ∀ a ∈ journal.acknowledged, a.1 < db.sequences.messages
  oldRevoked : ∀ a ∈ journal.revoked, a.1 < db.sequences.messages
  stored : ∀ row, row ∈ db.messages ↔
    row ∈ journal.accepted ∧ Stands db journal row ∧ row.recipientId ∈ db.userIds

variable {db after : Database} {journal : Journal} {op : Operation}

/-! ## Every call keeps the record -/

namespace Recorded

/-- The rule for calls that write no journal: a message stays exactly while its
two accounts do. -/
theorem transfer (r : Recorded db journal) (forward : db.sequences.Within after.sequences)
    (users : ∀ id ∈ after.userIds, id ∈ db.userIds ∨ db.sequences.users ≤ id)
    (messages : ∀ row, row ∈ after.messages ↔
      row ∈ db.messages ∧ row.senderId ∈ after.userIds ∧ row.recipientId ∈ after.userIds) :
    Recorded after journal where
  ascending := r.ascending
  oldIds := fun row listed => lt_of_lt_of_le (r.oldIds row listed) forward.messages
  oldSenders := fun row listed => lt_of_lt_of_le (r.oldSenders row listed) forward.users
  oldRecipients := fun row listed => lt_of_lt_of_le (r.oldRecipients row listed) forward.users
  oldAcknowledged := fun a listed => lt_of_lt_of_le (r.oldAcknowledged a listed) forward.messages
  oldRevoked := fun a listed => lt_of_lt_of_le (r.oldRevoked a listed) forward.messages
  stored := by
    intro row
    rw [messages, r.stored]
    -- an account that could be named before is not a new one
    have oldUser : ∀ id, id < db.sequences.users → id ∈ after.userIds → id ∈ db.userIds := by
      intro id older there
      rcases users id there with old | new
      · exact old
      · exact absurd older (not_lt_of_ge new)
    constructor
    · rintro ⟨⟨listed, ⟨unacked, unrevoked, -⟩, -⟩, sender, recipient⟩
      exact ⟨listed, ⟨unacked, unrevoked, sender⟩, recipient⟩
    · rintro ⟨listed, ⟨unacked, unrevoked, sender⟩, recipient⟩
      refine ⟨⟨listed, ⟨unacked, unrevoked, ?_⟩, ?_⟩, sender, recipient⟩
      · exact oldUser _ (r.oldSenders row listed) sender
      · exact oldUser _ (r.oldRecipients row listed) recipient

/-- Accounts may have come, none went, no message changed. -/
theorem transfer_same (r : Recorded db journal) (forward : db.sequences.Within after.sequences)
    (users : ∀ id ∈ after.userIds, id ∈ db.userIds ∨ db.sequences.users ≤ id)
    (usersKept : ∀ id ∈ db.userIds, id ∈ after.userIds) (messages : after.messages = db.messages) :
    Recorded after journal := by
  apply r.transfer forward users
  intro row
  rw [messages]
  refine (and_iff_left_of_imp ?_).symm
  intro inTable
  obtain ⟨-, stands, recipient⟩ := (r.stored row).mp inTable
  exact ⟨usersKept _ stands.2.2, usersKept _ recipient⟩

theorem accountDeleted (r : Recorded db journal) {u : UserId} (gone : PersonalDeleted db u after) :
    Recorded after journal := by
  apply r.transfer
  · exact gone.sequences ▸ within_refl _
  · exact fun id there => Or.inl (gone.userIds.mp there).1
  · intro row
    rw [gone.messages, List.mem_filter, decide_eq_true_eq, gone.userIds, gone.userIds]
    refine and_congr_right fun inTable => ?_
    obtain ⟨-, stands, recipient⟩ := (r.stored row).mp inTable
    constructor
    · rintro ⟨sender, other⟩
      exact ⟨⟨stands.2.2, sender⟩, recipient, other⟩
    · rintro ⟨⟨-, sender⟩, -, other⟩
      exact ⟨sender, other⟩

theorem messageStored (r : Recorded db journal) (c : Constraints db) {row : Message}
    (isNew : row.id = db.sequences.messages) (sender : row.senderId ∈ db.userIds)
    (recipient : row.recipientId ∈ db.userIds) :
    Recorded { db with
        messages := db.messages ++ [row]
        sequences := { db.sequences with messages := db.sequences.messages + 1 } }
      { journal with accepted := journal.accepted ++ [row] } := by
  have older : ∀ {n : Int}, n < db.sequences.messages → n < db.sequences.messages + 1 :=
    fun before => by omega
  constructor
  case ascending =>
    apply r.ascending.snoc
    intro other listed
    rw [isNew]
    exact r.oldIds other listed
  case oldIds =>
    intro other listed
    rcases List.mem_append.mp listed with old | new
    · exact older (r.oldIds other old)
    · rw [List.mem_singleton.mp new, isNew]
      exact Int.lt_succ _
  case oldSenders =>
    intro other listed
    rcases List.mem_append.mp listed with old | new
    · exact r.oldSenders other old
    · rw [List.mem_singleton.mp new]
      exact c.userId_lt sender
  case oldRecipients =>
    intro other listed
    rcases List.mem_append.mp listed with old | new
    · exact r.oldRecipients other old
    · rw [List.mem_singleton.mp new]
      exact c.userId_lt recipient
  case oldAcknowledged => exact fun a listed => older (r.oldAcknowledged a listed)
  case oldRevoked => exact fun a listed => older (r.oldRevoked a listed)
  case stored =>
    intro other
    show other ∈ db.messages ++ [row] ↔
      other ∈ journal.accepted ++ [row] ∧ Stands db journal other ∧ other.recipientId ∈ db.userIds
    rw [List.mem_append, List.mem_append, List.mem_singleton, r.stored]
    constructor
    · rintro (⟨listed, facts⟩ | rfl)
      · exact ⟨Or.inl listed, facts⟩
      · -- nobody can have answered under an id that was not given out
        have unacked : (other.id, other.recipientId) ∉ journal.acknowledged := by
          intro acked
          have before : other.id < db.sequences.messages := r.oldAcknowledged _ acked
          rw [isNew] at before
          exact lt_irrefl _ before
        have unrevoked : (other.id, other.senderId) ∉ journal.revoked := by
          intro revoked
          have before : other.id < db.sequences.messages := r.oldRevoked _ revoked
          rw [isNew] at before
          exact lt_irrefl _ before
        exact ⟨Or.inr rfl, ⟨unacked, unrevoked, sender⟩, recipient⟩
    · rintro ⟨listed | rfl, facts⟩
      · exact Or.inl ⟨listed, facts⟩
      · exact Or.inr rfl

/-- What `delete_message` leaves, under either column. -/
theorem mem_deleted {messageId : MessageId} {owner : OwnerField} {userId : UserId} {row : Message} :
    row ∈ (db.deleteMessagesWhere (ownedBy messageId owner userId)).messages ↔
      row ∈ db.messages ∧ (row.id, owner.of row) ≠ (messageId, userId) := by
  simp only [Database.deleteMessagesWhere, ownedBy, List.mem_filter, Bool.not_eq_true',
    Bool.and_eq_false_iff, decide_eq_false_iff_not, ne_eq, Prod.mk.injEq, not_and_or]

theorem oldId (c : Constraints db) {messageId : MessageId} {owner : OwnerField} {userId : UserId}
    (hit : db.messages.any (ownedBy messageId owner userId) = true) :
    messageId < db.sequences.messages := by
  obtain ⟨row, inTable, chosen⟩ := List.any_eq_true.mp hit
  simp only [ownedBy, Bool.and_eq_true, decide_eq_true_eq] at chosen
  rw [← chosen.1]
  exact c.nextMessage row inTable

theorem messageAcknowledged (r : Recorded db journal) (c : Constraints db) {messageId : MessageId}
    {userId : UserId} (hit : db.messages.any (ownedBy messageId .recipientId userId) = true) :
    Recorded (db.deleteMessagesWhere (ownedBy messageId .recipientId userId))
      { journal with acknowledged := (messageId, userId) :: journal.acknowledged } :=
  { r with
    oldAcknowledged := by
      intro a listed
      rcases List.mem_cons.mp listed with rfl | old
      · exact oldId c hit
      · exact r.oldAcknowledged a old
    stored := by
      intro row
      rw [mem_deleted, r.stored]
      simp only [Stands, List.mem_cons, not_or, OwnerField.of]
      tauto }

theorem messageRevoked (r : Recorded db journal) (c : Constraints db) {messageId : MessageId}
    {userId : UserId} (hit : db.messages.any (ownedBy messageId .senderId userId) = true) :
    Recorded (db.deleteMessagesWhere (ownedBy messageId .senderId userId))
      { journal with revoked := (messageId, userId) :: journal.revoked } :=
  { r with
    oldRevoked := by
      intro a listed
      rcases List.mem_cons.mp listed with rfl | old
      · exact oldId c hit
      · exact r.oldRevoked a old
    stored := by
      intro row
      rw [mem_deleted, r.stored]
      simp only [Stands, List.mem_cons, not_or, OwnerField.of]
      tauto }

end Recorded

/-- A call that raises is not journalled. -/
theorem noteMail_error {e : Error} (failed : perform db op = .error e) :
    noteMail db op journal = journal := by
  cases op with
  | storeMessage senderId recipientId ciphertext ratchetHeaderEnc =>
      unfold noteMail
      cases stored : storeMessage db senderId recipientId ciphertext ratchetHeaderEnc with
      | error e' => simp only [stored]
      | ok result =>
          rw [perform, stored] at failed
          cases failed
  | deleteMessage messageId owner userId => cases failed
  | _ => rfl

theorem noteMail_other (other : ¬ op.OnPersonal) : noteMail db op journal = journal := by
  cases op with
  | storeMessage => exact absurd trivial other
  | deleteMessage => exact absurd trivial other
  | _ => rfl

theorem deleteMessagesWhere_none {p : Message → Bool} (none_ : db.messages.any p = false) :
    db.deleteMessagesWhere p = db := by
  have kept : db.messages.filter (fun row => !p row) = db.messages := by
    rw [List.filter_eq_self]
    intro row inTable
    simpa using List.any_eq_false.mp none_ row inTable
  rw [Database.deleteMessagesWhere, kept]

theorem recorded_kept (c : Constraints db) (r : Recorded db journal) (op : Operation) :
    Recorded (commit db op) (noteMail db op journal) := by
  cases done : perform db op with
  | error e =>
      rw [commit_error done, noteMail_error done]
      exact r
  | ok after =>
      rw [commit_ok done]
      cases perform_personal c done with
      | userCreated username srpSalt srpVerifierEnc totpSecretEnc =>
          refine r.transfer_same ⟨le_of_lt (Int.lt_succ _), le_refl _, le_refl _, le_refl _,
            le_refl _⟩ ?_ ?_ rfl
          · intro id there
            obtain ⟨row, listed, rfl⟩ := List.mem_map.mp there
            rcases List.mem_append.mp listed with old | new
            · exact Or.inl (List.mem_map_of_mem old)
            · rw [List.mem_singleton.mp new]
              exact Or.inr (le_refl _)
          · intro id there
            obtain ⟨row, listed, rfl⟩ := List.mem_map.mp there
            exact List.mem_map_of_mem (List.mem_append_left _ listed)
      | accountUnknown => exact r
      | accountDeleted userId _ _ gone => exact r.accountDeleted gone
      | messageStored senderId recipientId ciphertext ratchetHeaderEnc room sender recipient =>
          obtain ⟨id, stored⟩ := dropResult_ok done
          obtain ⟨-, row, inserted, rfl⟩ := storeMessage_ok stored
          obtain ⟨-, rfl, -⟩ := Database.insertMessage_ok.mp inserted
          simp only [noteMail, stored]
          exact r.messageStored c rfl sender recipient
      | messageDeleted messageId owner userId =>
          cases hit : db.messages.any (ownedBy messageId owner userId) with
          | false =>
              rw [deleteMessagesWhere_none hit]
              cases owner <;> simpa [noteMail, deleteMessage, hit] using r
          | true =>
              cases owner with
              | senderId => simpa [noteMail, deleteMessage, hit] using r.messageRevoked c hit
              | recipientId =>
                  simpa [noteMail, deleteMessage, hit] using r.messageAcknowledged c hit
      | prekeyPopped userId =>
          obtain ⟨rows, popped⟩ := popOneTimePrekey_fst db userId
          rw [popped]
          exact { r with }
      | prekeysAdded => exact { r with }
      | tokenBlocked => exact { r with }
      | bundleReplaced => exact { r with }
      | bundleStored => exact { r with }
      | elsewhere _ _ other same =>
          rw [noteMail_other other]
          have users : after.userIds = db.userIds := by rw [Database.userIds, same.users]; rfl
          apply r.transfer_same same.sequences
          · exact fun id there => Or.inl (users ▸ there)
          · exact fun id there => users ▸ there
          · exact same.messages

theorem recorded (ops : List Operation) : Recorded (service.run ops) (journalOf ops) := by
  have both : Constraints (service.run ops) ∧ Recorded (service.run ops) (journalOf ops) := by
    refine service.observe_invariant
      (P := fun db journal => Constraints db ∧ Recorded db journal) ?_ ?_ ops
    · refine ⟨sound_empty.constraints, ?_⟩
      constructor
      case ascending => exact List.Pairwise.nil
      case stored => simp [service]
      all_goals exact fun _ listed => absurd listed List.not_mem_nil
    · intro db op journal ⟨c, r⟩
      exact ⟨commit_keeps c fun _ done => perform_constraints c done, recorded_kept c r op⟩
  exact both.2

/-! ## What the methods promise -/

/-- `get_messages_for_user` orders rows that are in order already. -/
theorem getMessagesForUser_eq (c : Constraints db) (u : UserId) (limit offset : Nat) :
    getMessagesForUser db u limit offset =
      if FitsBigint limit ∧ FitsBigint offset then .ok (((inbox db u).drop offset).take limit)
      else .error .dataError := by
  have sorted : Ascending Message.id (inbox db u) := c.messages.filter _
  rw [getMessagesForUser, sorted.orderBy_eq]

theorem getMessagesForUser_ok (c : Constraints db) {u : UserId} {limit offset : Nat}
    {page : List Message} (read : getMessagesForUser db u limit offset = .ok page) :
    page = ((inbox db u).drop offset).take limit := by
  rw [getMessagesForUser_eq c] at read
  split at read
  · cases read
    rfl
  · cases read

theorem inbox_eq_awaited (c : Constraints db) (r : Recorded db journal) {u : UserId}
    (there : u ∈ db.userIds) : inbox db u = awaited db journal u := by
  apply Ascending.ext (c.messages.filter _) (r.ascending.filter _)
  intro row
  rw [List.mem_filter, List.mem_filter, decide_eq_true_eq, decide_eq_true_eq, r.stored]
  constructor
  · rintro ⟨⟨listed, stands, -⟩, mine⟩
    exact ⟨listed, mine, stands⟩
  · rintro ⟨listed, mine, stands⟩
    exact ⟨⟨listed, stands, mine ▸ there⟩, mine⟩

theorem deleteMessage_found {messageId : MessageId} {owner : OwnerField} {userId : UserId} :
    (deleteMessage db messageId owner userId).2 = true ↔
      ∃ row ∈ db.messages, row.id = messageId ∧ owner.of row = userId := by
  simp [deleteMessage, ownedBy]

/-- Ids are unique, so whoever may delete the row deletes it alone. -/
theorem deleteMessage_removes (c : Constraints db) {messageId : MessageId} {owner : OwnerField}
    {userId : UserId} (found : (deleteMessage db messageId owner userId).2 = true) :
    (deleteMessage db messageId owner userId).1 =
      { db with messages := db.messages.filter fun row => row.id ≠ messageId } := by
  obtain ⟨row, inTable, named, owned⟩ := deleteMessage_found.mp found
  have same : db.messages.filter (fun other => !ownedBy messageId owner userId other) =
      db.messages.filter fun other => other.id ≠ messageId := by
    apply List.filter_congr
    intro other otherIn
    by_cases hit : other.id = messageId
    · rw [c.messages.unique otherIn inTable (hit.trans named.symm)]
      simp [ownedBy, named, owned]
    · simp [ownedBy, hit]
  rw [deleteMessage, Database.deleteMessagesWhere, same]

theorem deleteMessage_quiet {messageId : MessageId} {owner : OwnerField} {userId : UserId}
    (absent : (deleteMessage db messageId owner userId).2 = false) :
    (deleteMessage db messageId owner userId).1 = db :=
  deleteMessagesWhere_none absent

theorem storeMessage_full (senderId : UserId) {recipientId : UserId}
    (ciphertext ratchetHeaderEnc : Bytes)
    (full : inboxMaxMessages ≤ (inbox db recipientId).length) :
    storeMessage db senderId recipientId ciphertext ratchetHeaderEnc =
      .error (.overflowError ("inbox full recipient_id=" ++ toString recipientId)) := by
  rw [storeMessage, if_neg (not_lt_of_ge full)]

theorem storeMessage_room {senderId recipientId : UserId} (ciphertext ratchetHeaderEnc : Bytes)
    (sender : senderId ∈ db.userIds) (recipient : recipientId ∈ db.userIds)
    (room : (inbox db recipientId).length < inboxMaxMessages) :
    storeMessage db senderId recipientId ciphertext ratchetHeaderEnc =
      .ok ({ db with
        messages := db.messages ++
          [⟨db.sequences.messages, senderId, recipientId, ciphertext, ratchetHeaderEnc⟩]
        sequences := { db.sequences with messages := db.sequences.messages + 1 } },
        db.sequences.messages) := by
  rw [storeMessage, if_pos room, Database.insertMessage, if_pos ⟨sender, recipient⟩]
  rfl

/-- The contract of the message store, in a state with its journal. -/
structure Contract (db : Database) (journal : Journal) : Prop where
  full : ∀ u ∈ db.userIds, ∀ limit, (inbox db u).length ≤ limit → FitsBigint limit →
    getMessagesForUser db u limit 0 = .ok (awaited db journal u)
  ordered : ∀ u, Ascending Message.id (awaited db journal u)
  deletable : ∀ messageId owner userId, (deleteMessage db messageId owner userId).2 = true ↔
    ∃ row ∈ db.messages, row.id = messageId ∧ owner.of row = userId
  deletes : ∀ messageId owner userId, (deleteMessage db messageId owner userId).2 = true →
    (deleteMessage db messageId owner userId).1 =
      { db with messages := db.messages.filter fun row => row.id ≠ messageId }
  refuses : ∀ messageId owner userId, (deleteMessage db messageId owner userId).2 = false →
    (deleteMessage db messageId owner userId).1 = db
  rejected : ∀ senderId recipientId ciphertext ratchetHeaderEnc,
    inboxMaxMessages ≤ (inbox db recipientId).length →
      storeMessage db senderId recipientId ciphertext ratchetHeaderEnc =
          .error (.overflowError ("inbox full recipient_id=" ++ toString recipientId)) ∧
        commit db (.storeMessage senderId recipientId ciphertext ratchetHeaderEnc) = db
  accepted : ∀ senderId ∈ db.userIds, ∀ recipientId ∈ db.userIds, ∀ ciphertext ratchetHeaderEnc,
    (inbox db recipientId).length < inboxMaxMessages →
      ∃ after id, storeMessage db senderId recipientId ciphertext ratchetHeaderEnc = .ok (after, id) ∧
        commit db (.storeMessage senderId recipientId ciphertext ratchetHeaderEnc) = after ∧
        inbox after recipientId = inbox db recipientId ++
          [⟨id, senderId, recipientId, ciphertext, ratchetHeaderEnc⟩]

/-- **The inbox contract** holds after every run: the full inbox of an account is what
was accepted for it and still stands, each message with the bytes it was sent with,
in ascending id order; a deletion answers yes exactly to the owner in the named
column and removes that message only; a full inbox refuses and changes nothing, any
other accepts. -/
theorem inbox_contract (ops : List Operation) : Contract (service.run ops) (journalOf ops) := by
  have c := (reachable ops).constraints
  have r := recorded ops
  constructor
  case full =>
    intro u there limit whole fits
    rw [getMessagesForUser_eq c, if_pos ⟨fits, by decide⟩, List.drop_zero,
      List.take_of_length_le whole, inbox_eq_awaited c r there]
  case ordered => exact fun u => r.ascending.filter _
  case deletable => exact fun messageId owner userId => deleteMessage_found
  case deletes => exact fun messageId owner userId found => deleteMessage_removes c found
  case refuses => exact fun messageId owner userId absent => deleteMessage_quiet absent
  case rejected =>
    intro senderId recipientId ciphertext ratchetHeaderEnc full
    have refused := storeMessage_full senderId ciphertext ratchetHeaderEnc full
    have raised : perform (service.run ops)
        (.storeMessage senderId recipientId ciphertext ratchetHeaderEnc) =
          .error (.overflowError ("inbox full recipient_id=" ++ toString recipientId)) := by
      rw [perform, refused]
      rfl
    exact ⟨refused, commit_error raised⟩
  case accepted =>
    intro senderId sender recipientId recipient ciphertext ratchetHeaderEnc room
    have stored := storeMessage_room ciphertext ratchetHeaderEnc sender recipient room
    refine ⟨_, _, stored, commit_ok ?_, ?_⟩
    · rw [perform, stored]
      rfl
    · simp [inbox]

end SecureMsg.Messages
