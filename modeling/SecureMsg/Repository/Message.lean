/-
# Repository.Message — `SQLMessageRepository`

Direct messages.  The inbox cap is part of the `INSERT ... SELECT`: a full inbox
makes the statement insert nothing, and only then is `OverflowError` raised.
-/
import SecureMsg.Store.Statements

namespace SecureMsg.Repository

open SecureMsg.Theory SecureMsg.Store

set_option autoImplicit false

/-- `messaging.inbox_max_messages` of the configuration. -/
def inboxMaxMessages : Nat := 50000

/-- Which column `delete_message` compares with the user. -/
inductive OwnerField where
  | senderId
  | recipientId
  deriving DecidableEq, Repr

def OwnerField.of (owner : OwnerField) (row : Message) : UserId :=
  match owner with
  | .senderId => row.senderId
  | .recipientId => row.recipientId

def inbox (db : Database) (userId : UserId) : List Message :=
  db.messages.filter fun row => row.recipientId = userId

def storeMessage (db : Database) (senderId recipientId : UserId)
    (ciphertext ratchetHeaderEnc : Bytes) : Except Error (Database × MessageId) :=
  if (inbox db recipientId).length < inboxMaxMessages then do
    let (db, row) ← db.insertMessage senderId recipientId ciphertext ratchetHeaderEnc
    return (db, row.id)
  else .error (.overflowError ("inbox full recipient_id=" ++ toString recipientId))

/-- What `LIMIT` and `OFFSET` take: eight bytes. -/
def FitsBigint (n : Nat) : Prop := n < 9223372036854775808

instance : DecidablePred FitsBigint := fun _ => inferInstanceAs (Decidable (_ < _))

def getMessagesForUser (db : Database) (userId : UserId) (limit offset : Nat) :
    Except Error (List Message) :=
  if FitsBigint limit ∧ FitsBigint offset then
    .ok (((orderBy Message.id (inbox db userId)).drop offset).take limit)
  else .error .dataError

/-- The row `delete_message` deletes, if it is there. -/
def ownedBy (messageId : MessageId) (owner : OwnerField) (userId : UserId) (row : Message) : Bool :=
  row.id = messageId && owner.of row = userId

def deleteMessage (db : Database) (messageId : MessageId) (owner : OwnerField) (userId : UserId) :
    Database × Bool :=
  (db.deleteMessagesWhere (ownedBy messageId owner userId),
    db.messages.any (ownedBy messageId owner userId))

theorem storeMessage_ok {db after : Database} {senderId recipientId : UserId}
    {ciphertext ratchetHeaderEnc : Bytes} {id : MessageId}
    (done : storeMessage db senderId recipientId ciphertext ratchetHeaderEnc = .ok (after, id)) :
    (inbox db recipientId).length < inboxMaxMessages ∧
      ∃ row, db.insertMessage senderId recipientId ciphertext ratchetHeaderEnc = .ok (after, row) ∧
        id = row.id := by
  unfold storeMessage at done
  by_cases room : (inbox db recipientId).length < inboxMaxMessages
  · rw [if_pos room] at done
    obtain ⟨⟨stored, row⟩, inserted, returned⟩ := bind_eq_ok.mp done
    cases returned
    exact ⟨room, row, inserted, rfl⟩
  · rw [if_neg room] at done
    cases done

/-- It fails on a full inbox, or when an id is no account's. -/
theorem storeMessage_error {db : Database} {senderId recipientId : UserId}
    {ciphertext ratchetHeaderEnc : Bytes} {e : Error}
    (failed : storeMessage db senderId recipientId ciphertext ratchetHeaderEnc = .error e) :
    ((inbox db recipientId).length ≥ inboxMaxMessages ∧
        e = .overflowError ("inbox full recipient_id=" ++ toString recipientId)) ∨
      (¬ (senderId ∈ db.userIds ∧ recipientId ∈ db.userIds) ∧
        e = refusal [recipientId] .foreignKey) := by
  unfold storeMessage at failed
  by_cases room : (inbox db recipientId).length < inboxMaxMessages
  · rw [if_pos room] at failed
    rcases bind_eq_error.mp failed with insert | ⟨stored, -, returned⟩
    · unfold Database.insertMessage at insert
      by_cases known : senderId ∈ db.userIds ∧ recipientId ∈ db.userIds
      · rw [if_pos known] at insert
        cases insert
      · rw [if_neg known] at insert
        cases insert
        exact Or.inr ⟨known, rfl⟩
    · cases returned
  · rw [if_neg room] at failed
    cases failed
    exact Or.inl ⟨Nat.le_of_not_lt room, rfl⟩

end SecureMsg.Repository
