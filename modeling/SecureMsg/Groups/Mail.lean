/-
# Groups.Mail — the transactions of group mail

The four methods of `SQLGroupRepository` that touch `group_messages`, statement by
statement.  A `DELETE` on `group_messages` takes the message and then, one by one,
the receipts that the foreign key cascades to.  A row that another transaction has
deleted and not committed is waited for, and no two open transactions ever have
deleted the same row (`mail_locking`).

A call ends here with its transaction.  What `store_group_message` does after its
commit, a `refresh` of the row it returns, is not modelled.
-/
import SecureMsg.Theory.Locks
import SecureMsg.Groups.Acknowledge

namespace SecureMsg.Groups

open SecureMsg.Theory SecureMsg.Store SecureMsg.Repository

set_option autoImplicit false

namespace Mail

/-! ## The transactions -/

inductive Call where
  | storeGroupMessage (groupId : GroupId) (senderId : UserId) (epoch : Int) (ciphertext : Bytes)
  | getGroupMessages (groupId : GroupId) (userId : UserId)
  | revokeGroupMessage (messageId : MessageId) (senderId : UserId)
  | recordGroupReceipt (messageId : MessageId) (userId : UserId)
  deriving DecidableEq, Repr

/-- What the method returned or raised. -/
inductive Answer where
  | stored (row : GroupMessage)
  | messages (rows : List GroupMessage)
  | revoked (found : Bool)
  | recorded
  | raised (e : Error)
  deriving DecidableEq, Repr

inductive Point where
  | statement (call : Call)
  /-- The message is inserted, its receipts are not. -/
  | inserted (row : GroupMessage)
  /-- Chosen on the snapshot; the row may be locked. -/
  | revoking (messageId : MessageId)
  /-- The receipt is deleted, the message not yet looked at. -/
  | acknowledged (messageId : MessageId) (userId : UserId)
  /-- The message is deleted; the receipts that the cascade has still to delete. -/
  | cascading (messageId : MessageId) (pending : List UserId) (answer : Answer)
  | committing (answer : Answer)
  deriving DecidableEq, Repr

inductive Write where
  | insertMessage (row : GroupMessage)
  | insertReceipts (rows : List GroupMessageReceipt)
  | deleteMessage (messageId : MessageId)
  | deleteReceipt (messageId : MessageId) (userId : UserId)
  deriving DecidableEq, Repr

def writeMail (db : Database) : Write → Database
  | .insertMessage row => { db with groupMessages := db.groupMessages ++ [row] }
  | .insertReceipts rows => { db with groupMessageReceipts := db.groupMessageReceipts ++ rows }
  | .deleteMessage messageId =>
      { db with groupMessages := db.groupMessages.filter fun row => row.id ≠ messageId }
  | .deleteReceipt messageId userId => db.deleteReceipt messageId userId

def drawMessageId (db : Database) : Database :=
  { db with sequences := { db.sequences with groupMessages := db.sequences.groupMessages + 1 } }

/-- The receipts that a deleted message cascades to. -/
def pendingReceipts (view : Database) (messageId : MessageId) : List UserId :=
  (view.groupMessageReceipts.filter fun receipt => receipt.messageId = messageId).map
    GroupMessageReceipt.userId

abbrev Next := Action Database Point Write Answer

def nextStatement (call : Call) (own : List Write) (view : Database) (held : List Write) : Next :=
  match call with
  | .storeGroupMessage groupId senderId epoch ciphertext =>
      match view.insertGroupMessage senderId groupId epoch ciphertext with
      | .ok (_, row) => .proceed drawMessageId (.inserted row) (own ++ [.insertMessage row])
      | .error e => .rollback (.raised e)
  -- nothing is written: the session is closed
  | .getGroupMessages groupId userId => .rollback (.messages (getGroupMessages view groupId userId))
  | .revokeGroupMessage messageId senderId =>
      if view.groupMessages.any (sentAs messageId senderId) then
        .proceed id (.revoking messageId) own
      else .rollback (.revoked false)
  | .recordGroupReceipt messageId userId =>
      if .deleteReceipt messageId userId ∈ held then .wait
      else if ⟨messageId, userId⟩ ∈ view.groupMessageReceipts then
        .proceed id (.acknowledged messageId userId) (own ++ [.deleteReceipt messageId userId])
      else .rollback
        (.raised (.lookupError ("group message " ++ toString messageId ++ " not found")))

def nextMail (point : Point) (own : List Write) (view : Database) (held : List Write) : Next :=
  match point with
  | .statement call => nextStatement call own view held
  | .inserted row =>
      let rows := receiptRows view row.groupId row.senderId row.id
      match view.insertGroupMessageReceipts rows with
      | .ok _ => .proceed id (.committing (.stored row)) (own ++ [.insertReceipts rows])
      | .error e => .rollback (.raised e)
  | .revoking messageId =>
      if .deleteMessage messageId ∈ held then .wait
      else if messageId ∈ view.groupMessageIds then
        .proceed id (.cascading messageId (pendingReceipts view messageId) (.revoked true))
          (own ++ [.deleteMessage messageId])
      else .rollback (.revoked false)
  | .acknowledged messageId _ =>
      if messageId ∈ view.groupMessageIds ∧ Acknowledge.Read view messageId then
        if .deleteMessage messageId ∈ held then .wait
        else .proceed id (.cascading messageId (pendingReceipts view messageId) .recorded)
          (own ++ [.deleteMessage messageId])
      else .proceed id (.committing .recorded) own
  | .cascading messageId (userId :: pending) answer =>
      -- a receipt deleted while the cascade waited for it is skipped
      if ⟨messageId, userId⟩ ∉ view.groupMessageReceipts then
        .proceed id (.cascading messageId pending answer) own
      else if .deleteReceipt messageId userId ∈ held then .wait
      else .proceed id (.cascading messageId pending answer)
        (own ++ [.deleteReceipt messageId userId])
  | .cascading _ [] answer => .commit answer
  | .committing answer => .commit answer

def mailProgram : Program Database Point Write Answer := ⟨writeMail, nextMail⟩

abbrev MailWorld := World Database Point Write Answer

/-- One session for each call, none of which has started. -/
def opened (db : Database) (calls : List Call) : MailWorld :=
  ⟨db, calls.map fun call => .running (.statement call) []⟩

def mail (db : Database) (calls : List Call) : System MailWorld Nat :=
  mailProgram.system (opened db calls)

/-! ## Locks -/

/-- The write that excludes others: a deletion holds the row. -/
inductive Write.Deletes : Write → Prop where
  | message (messageId : MessageId) : Deletes (.deleteMessage messageId)
  | receipt (messageId : MessageId) (userId : UserId) : Deletes (.deleteReceipt messageId userId)

def conflicts (wr other : Write) : Prop := wr = other ∧ wr.Deletes

/-- One write more, which nobody else holds. -/
theorem free_snoc {own held : List Write} {added : Write} (free : added ∉ held) :
    ∀ wr ∈ own ++ [added], wr ∈ own ∨ ∀ other ∈ held, ¬ conflicts wr other := by
  intro wr holds
  rcases List.mem_append.mp holds with before | isNew
  · exact Or.inl before
  · rw [List.mem_singleton.mp isNew]
    refine Or.inr fun other isHeld clash => ?_
    exact free (clash.1 ▸ isHeld)

/-- Rows that go in exclude nobody. -/
theorem insert_snoc {own held : List Write} {added : Write} (inserts : ¬ added.Deletes) :
    ∀ wr ∈ own ++ [added], wr ∈ own ∨ ∀ other ∈ held, ¬ conflicts wr other := by
  intro wr holds
  rcases List.mem_append.mp holds with before | isNew
  · exact Or.inl before
  · rw [List.mem_singleton.mp isNew]
    exact Or.inr fun other _ clash => inserts clash.2

theorem mail_locking : mailProgram.Locking conflicts where
  symm := by
    rintro wr other ⟨rfl, deletes⟩
    exact ⟨rfl, deletes⟩
  respects := by
    intro point own view held draw point' own' did
    have same : ∀ wr ∈ own, wr ∈ own ∨ ∀ other ∈ held, ¬ conflicts wr other :=
      fun wr holds => Or.inl holds
    cases point with
    | statement call =>
        cases call with
        | storeGroupMessage groupId senderId epoch ciphertext =>
            simp only [mailProgram, nextMail, nextStatement] at did
            split at did <;> cases did
            apply insert_snoc
            rintro ⟨⟩
        | getGroupMessages groupId userId => cases did
        | revokeGroupMessage messageId senderId =>
            simp only [mailProgram, nextMail, nextStatement] at did
            split at did <;> cases did
            exact same
        | recordGroupReceipt messageId userId =>
            simp only [mailProgram, nextMail, nextStatement] at did
            split at did
            · cases did
            · rename_i free
              split at did <;> cases did
              exact free_snoc free
    | inserted row =>
        simp only [mailProgram, nextMail] at did
        split at did <;> cases did
        apply insert_snoc
        rintro ⟨⟩
    | revoking messageId =>
        simp only [mailProgram, nextMail] at did
        split at did
        · cases did
        · rename_i free
          split at did <;> cases did
          exact free_snoc free
    | acknowledged messageId userId =>
        simp only [mailProgram, nextMail] at did
        split at did
        · split at did
          · cases did
          · rename_i free
            cases did
            exact free_snoc free
        · cases did
          exact same
    | cascading messageId pending answer =>
        cases pending with
        | nil => cases did
        | cons userId pending =>
            simp only [mailProgram, nextMail] at did
            split at did
            · cases did
              exact same
            · split at did
              · cases did
              · rename_i free
                cases did
                exact free_snoc free
    | committing answer => cases did

end Mail

end SecureMsg.Groups
