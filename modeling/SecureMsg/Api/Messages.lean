/-
# Api.Messages — the direct-message endpoints

Sending to oneself is refused, and a full inbox answers 429 with a text of its
own; a receipt deletes as the recipient, a revocation as the sender, through the
same repository call.

Bodies and query parameters are taken after validation, so ciphertexts are bytes
within the size limit and a page is within its bounds.  There is none for its offset
from above: one that no `OFFSET` takes is not answered.
-/
import SecureMsg.Api.Groups

namespace SecureMsg.Api

open SecureMsg.Theory SecureMsg.Store SecureMsg.Repository

set_option autoImplicit false

/-! ## Requests and responses -/

/-- `crypto.max_message_bytes` of the configuration. -/
def maxMessageBytes : Nat := 102400

structure SendMessageRequest where
  recipientId : UserId
  ciphertext : Bytes
  ratchetHeaderEnc : Bytes
  bounded : ciphertext.length ≤ maxMessageBytes

/-- `messaging.page_default` and `messaging.page_max` of the configuration. -/
def pageDefault : Nat := 50
def pageMax : Nat := 100

/-- The query parameters of `list_messages`. -/
structure Page where
  limit : Nat := pageDefault
  offset : Nat := 0
  nonempty : 1 ≤ limit := by decide
  bounded : limit ≤ pageMax := by decide

theorem Page.limit_fits (page : Page) : FitsBigint page.limit :=
  lt_of_le_of_lt page.bounded (by decide)

inductive MessagesRequest where
  | sendMessage (body : SendMessageRequest)
  | listMessages (page : Page)
  | markReceipt (messageId : MessageId)
  | revoke (messageId : MessageId)

structure MessageResponse where
  id : MessageId
  senderId : UserId
  ciphertext : Bytes
  ratchetHeaderEnc : Bytes
  deriving DecidableEq

inductive MessagesResponse where
  | created (id : MessageId)
  | messages (rows : List MessageResponse)
  | noContent
  | httpException (status : Nat) (detail : String)
  /-- An exception no handler catches: the framework answers 500. -/
  | unhandled (raised : Error)
  deriving DecidableEq

/-! ## Endpoints -/

def sendMessage (db : Database) (currentUser : User) (body : SendMessageRequest) :
    Database × MessagesResponse :=
  if body.recipientId = currentUser.id then
    (db, .httpException 403 "Cannot send a message to yourself")
  else
    match storeMessage db currentUser.id body.recipientId body.ciphertext body.ratchetHeaderEnc with
    | .ok (after, id) => (after, .created id)
    | .error (.overflowError _) => (db, .httpException 429 "Recipient inbox is full")
    | .error e => (db, .unhandled e)

def listMessages (db : Database) (currentUser : User) (page : Page) : MessagesResponse :=
  match getMessagesForUser db currentUser.id page.limit page.offset with
  | .ok rows => .messages (rows.map fun row =>
      ⟨row.id, row.senderId, row.ciphertext, row.ratchetHeaderEnc⟩)
  | .error e => .unhandled e

/-- What the two deletions share: they differ in the column compared and in the answer
to a message that is not there. -/
def deleteOrElse (db : Database) (messageId : MessageId) (owner : OwnerField) (currentUser : User)
    (notFound : MessagesResponse) : Database × MessagesResponse :=
  let (after, deleted) := deleteMessage db messageId owner currentUser.id
  (after, if deleted then .noContent else notFound)

def markReceipt (db : Database) (currentUser : User) (messageId : MessageId) :
    Database × MessagesResponse :=
  deleteOrElse db messageId .recipientId currentUser (.httpException 404 "Message not found")

def revoke (db : Database) (currentUser : User) (messageId : MessageId) :
    Database × MessagesResponse :=
  deleteOrElse db messageId .senderId currentUser (.httpException 403 "Cannot revoke this message")

def handleMessages (db : Database) (currentUser : User) :
    MessagesRequest → Database × MessagesResponse
  | .sendMessage body => sendMessage db currentUser body
  | .listMessages page => (db, listMessages db currentUser page)
  | .markReceipt messageId => markReceipt db currentUser messageId
  | .revoke messageId => revoke db currentUser messageId

/-! ## An endpoint is one repository call -/

/-- The call an endpoint makes, if it writes. -/
def MessagesRequest.call (requesterId : UserId) : MessagesRequest → Option Operation
  | .sendMessage body =>
      if body.recipientId = requesterId then none
      else some (.storeMessage requesterId body.recipientId body.ciphertext body.ratchetHeaderEnc)
  | .listMessages _ => none
  | .markReceipt messageId => some (.deleteMessage messageId .recipientId requesterId)
  | .revoke messageId => some (.deleteMessage messageId .senderId requesterId)

theorem handleMessages_fst (db : Database) (currentUser : User) (request : MessagesRequest) :
    (handleMessages db currentUser request).1 = commitCall db (request.call currentUser.id) := by
  cases request with
  | sendMessage body =>
      simp only [handleMessages, sendMessage, MessagesRequest.call]
      by_cases self : body.recipientId = currentUser.id
      · rw [if_pos self, if_pos self]
        rfl
      · rw [if_neg self, if_neg self]
        simp only [commitCall, commit, perform]
        cases storeMessage db currentUser.id body.recipientId body.ciphertext
            body.ratchetHeaderEnc with
        | ok stored => rfl
        | error e => cases e with | _ => rfl
  | _ => rfl

end SecureMsg.Api
