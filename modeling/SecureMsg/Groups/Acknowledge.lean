/-
# Groups.Acknowledge — the readers of a message acknowledge it at the same time

`record_group_receipt` is one transaction of two statements: it deletes the
caller's receipt, then the message if no receipt is left in sight.  In sight are
the committed rows and the transaction's own changes, so two readers who both
delete their receipt before either commits each see the other's, and the message
stays behind with no receipt.

This module runs the readers' transactions statement by statement
(`acknowledging`).  `cleanup_iff`: once all have committed the message is gone,
and was not gone before, iff some reader checked after all the others had
committed.
-/
import SecureMsg.Theory.Transactions
import SecureMsg.Repository.Group

namespace SecureMsg.Groups

open SecureMsg.Theory SecureMsg.Store SecureMsg.Repository

set_option autoImplicit false

namespace Acknowledge

/-! ## The transaction -/

inductive Point where
  /-- Before the first statement. -/
  | acknowledge (messageId : MessageId) (userId : UserId)
  /-- The receipt is deleted, the message not yet looked at. -/
  | acknowledged (messageId : MessageId) (userId : UserId)
  /-- The message is deleted if read; not committed. -/
  | checked (messageId : MessageId) (userId : UserId) (read : Bool)
  deriving DecidableEq, Repr

inductive Write where
  | deleteReceipt (messageId : MessageId) (userId : UserId)
  | deleteMessage (messageId : MessageId)
  deriving DecidableEq, Repr

inductive Answer where
  | recorded
  | raised (e : Error)
  deriving DecidableEq, Repr

def writeReceipts (db : Database) : Write → Database
  | .deleteReceipt messageId userId => db.deleteReceipt messageId userId
  | .deleteMessage messageId => db.deleteGroupMessagesWhere fun msg => msg.id = messageId

/-- No receipt is left for the message. -/
def Read (db : Database) (messageId : MessageId) : Prop :=
  ∀ receipt ∈ db.groupMessageReceipts, receipt.messageId ≠ messageId

instance (db : Database) (messageId : MessageId) : Decidable (Read db messageId) :=
  inferInstanceAs (Decidable (∀ receipt ∈ db.groupMessageReceipts, receipt.messageId ≠ messageId))

def nextReceipt (point : Point) (own : List Write) (view : Database) (held : List Write) :
    Action Database Point Write Answer :=
  match point with
  | .acknowledge messageId userId =>
      if .deleteReceipt messageId userId ∈ held then .wait
      else if ⟨messageId, userId⟩ ∈ view.groupMessageReceipts then
        .proceed id (.acknowledged messageId userId) (own ++ [.deleteReceipt messageId userId])
      else .rollback (.raised (.lookupError ("group message " ++ toString messageId ++ " not found")))
  | .acknowledged messageId userId =>
      if messageId ∈ view.groupMessageIds ∧ Read view messageId then
        if .deleteMessage messageId ∈ held then .wait
        else .proceed id (.checked messageId userId true) (own ++ [.deleteMessage messageId])
      else .proceed id (.checked messageId userId false) own
  | .checked _ _ _ => .commit .recorded

def receiptProgram : Program Database Point Write Answer := ⟨writeReceipts, nextReceipt⟩

abbrev ReceiptWorld := World Database Point Write Answer

/-- One session for each reader, none of which has started. -/
def opened (db : Database) (messageId : MessageId) (readers : List UserId) : ReceiptWorld :=
  ⟨db, readers.map fun userId => .running (.acknowledge messageId userId) []⟩

def acknowledging (db : Database) (messageId : MessageId) (readers : List UserId) :
    System ReceiptWorld Nat :=
  receiptProgram.system (opened db messageId readers)

/-! ## A session on its own -/

section Alone

variable {db after : Database} {messageId : MessageId} {userId : UserId}

theorem deleteGroupMessagesWhere_none {p : GroupMessage → Bool}
    (none_ : ∀ msg ∈ db.groupMessages, p msg = false) : db.deleteGroupMessagesWhere p = db := by
  have noneGone : ∀ id, db.groupMessageGone p id = false := by
    intro id
    simp only [Database.groupMessageGone, List.any_eq_false]
    intro msg stored
    simp [none_ msg stored]
  have messages : (db.groupMessages.filter fun msg => !p msg) = db.groupMessages :=
    List.filter_eq_self.mpr fun msg stored => by simp [none_ msg stored]
  simp [Database.deleteGroupMessagesWhere, noneGone, messages]

/-- What the second statement does, by what it sees. -/
theorem deleteMessageIfRead_read (read : Read db messageId) :
    deleteMessageIfRead db messageId =
      db.deleteGroupMessagesWhere fun msg => msg.id = messageId := by
  have noReceipt : (db.groupMessageReceipts.any fun receipt => receipt.messageId = messageId) =
      false := by
    simpa [Read] using read
  simp [deleteMessageIfRead, noReceipt]

theorem deleteMessageIfRead_kept (kept : ¬ (messageId ∈ db.groupMessageIds ∧ Read db messageId)) :
    deleteMessageIfRead db messageId = db := by
  apply deleteGroupMessagesWhere_none
  intro msg stored
  by_cases named : msg.id = messageId
  · have unread : ¬ Read db messageId := fun read =>
      kept ⟨named ▸ List.mem_map_of_mem stored, read⟩
    have receipt : (db.groupMessageReceipts.any fun receipt => receipt.messageId = messageId) =
        true := by
      simpa [Read] using unread
    simp [receipt]
  · simp [named]

theorem acknowledge_alone
    (records : recordGroupReceipt db messageId userId = .ok after) :
    (acknowledging db messageId [userId]).run [0, 0, 0] = ⟨after, [.ended .recorded]⟩ := by
  obtain ⟨waiting, rfl⟩ := recordGroupReceipt_ok records
  by_cases deletes : messageId ∈ (db.deleteReceipt messageId userId).groupMessageIds ∧
      Read (db.deleteReceipt messageId userId) messageId
  · rw [deleteMessageIfRead_read deletes.2]
    simp [acknowledging, System.run, opened, Program.advance, receiptProgram, nextReceipt, waiting,
      Program.heldBesides, writeReceipts, deletes]
  · rw [deleteMessageIfRead_kept deletes]
    simp [acknowledging, System.run, opened, Program.advance, receiptProgram, nextReceipt, waiting,
      Program.heldBesides, writeReceipts, deletes]

theorem acknowledge_alone_refused {e : Error}
    (refused : recordGroupReceipt db messageId userId = .error e) :
    (acknowledging db messageId [userId]).run [0] = ⟨db, [.ended (.raised e)]⟩ := by
  unfold recordGroupReceipt at refused
  by_cases waiting : (⟨messageId, userId⟩ : GroupMessageReceipt) ∈ db.groupMessageReceipts
  · rw [if_pos waiting] at refused
    cases refused
  · rw [if_neg waiting] at refused
    cases refused
    simp [acknowledging, System.run, opened, Program.advance, receiptProgram, nextReceipt, waiting,
      Program.heldBesides]

end Alone

/-! ## The readers of one message -/

section Readers

variable (db : Database) (messageId : MessageId) (readers : List UserId)

/-- The message is stored, and `readers` are those whose receipt is. -/
structure Awaited : Prop where
  stored : messageId ∈ db.groupMessageIds
  once : readers.Nodup
  receipts : ∀ userId, ⟨messageId, userId⟩ ∈ db.groupMessageReceipts ↔ userId ∈ readers

/-- Where the session of a reader can be. -/
inductive Stage (userId : UserId) : Session Point Write Answer → Prop where
  | opened : Stage userId (.running (.acknowledge messageId userId) [])
  | acknowledged :
      Stage userId
        (.running (.acknowledged messageId userId) [.deleteReceipt messageId userId])
  | unread :
      Stage userId
        (.running (.checked messageId userId false) [.deleteReceipt messageId userId])
  | read :
      Stage userId (.running (.checked messageId userId true)
        [.deleteReceipt messageId userId, .deleteMessage messageId])
  | recorded : Stage userId (.ended .recorded)

/-- Session `n` has not committed. -/
def Outstanding (W : ReceiptWorld) (n : Nat) : Prop :=
  ∃ point own, W.sessions[n]? = some (.running point own)

def OthersEnded (W : ReceiptWorld) (n : Nat) : Prop := ∀ m ≠ n, ¬ Outstanding W m

/-- A committed receipt is one whose reader has not committed, and who has seen
the message read is the last. -/
structure Acknowledging (W : ReceiptWorld) : Prop where
  length : W.sessions.length = readers.length
  stages : ∀ (n : Nat) session, W.sessions[n]? = some session →
    ∃ userId, readers[n]? = some userId ∧ Stage messageId userId session
  receipts : ∀ userId, ⟨messageId, userId⟩ ∈ W.committed.groupMessageReceipts ↔
    ∃ n : Nat, readers[n]? = some userId ∧ Outstanding W n
  message : (∃ n, Outstanding W n) → messageId ∈ W.committed.groupMessageIds
  last : ∀ (n : Nat) userId own,
    W.sessions[n]? = some (.running (.checked messageId userId true) own) → OthersEnded W n

/-- What one step of session `n` can be. -/
inductive ReceiptStep (W : ReceiptWorld) (n : Nat) : ReceiptWorld → Prop where
  | stayed (ended : ¬ Outstanding W n) : ReceiptStep W n W
  | acknowledges (userId : UserId)
      (at_ : W.sessions[n]? = some (.running (.acknowledge messageId userId) [])) :
      ReceiptStep W n ⟨W.committed, W.sessions.set n
        (.running (.acknowledged messageId userId) [.deleteReceipt messageId userId])⟩
  | seesReceipts (userId : UserId)
      (at_ : W.sessions[n]? =
        some (.running (.acknowledged messageId userId) [.deleteReceipt messageId userId]))
      (others : ¬ OthersEnded W n) :
      ReceiptStep W n ⟨W.committed, W.sessions.set n
        (.running (.checked messageId userId false) [.deleteReceipt messageId userId])⟩
  | seesNone (userId : UserId)
      (at_ : W.sessions[n]? =
        some (.running (.acknowledged messageId userId) [.deleteReceipt messageId userId]))
      (last : OthersEnded W n) :
      ReceiptStep W n ⟨W.committed, W.sessions.set n
        (.running (.checked messageId userId true)
          [.deleteReceipt messageId userId, .deleteMessage messageId])⟩
  | commits (userId : UserId)
      (at_ : W.sessions[n]? =
        some (.running (.checked messageId userId false) [.deleteReceipt messageId userId])) :
      ReceiptStep W n
        ⟨W.committed.deleteReceipt messageId userId, W.sessions.set n (.ended .recorded)⟩
  | deletes (userId : UserId)
      (at_ : W.sessions[n]? = some (.running (.checked messageId userId true)
        [.deleteReceipt messageId userId, .deleteMessage messageId])) :
      ReceiptStep W n
        ⟨(W.committed.deleteReceipt messageId userId).deleteGroupMessagesWhere
          fun msg => msg.id = messageId, W.sessions.set n (.ended .recorded)⟩

variable {db messageId readers} {W : ReceiptWorld} {n : Nat}

theorem reader_unique (once : readers.Nodup) {m n : Nat} {userId : UserId}
    (one : readers[m]? = some userId) (other : readers[n]? = some userId) : m = n := by
  obtain ⟨inside, -⟩ := List.getElem?_eq_some_iff.mp one
  exact (List.getElem?_inj inside once).mp (one.trans other.symm)

/-- After its own receipt is out of sight, what a reader sees is the others'. -/
theorem Acknowledging.read_iff (inv : Acknowledging messageId readers W) (once : readers.Nodup)
    {userId : UserId} (reader : readers[n]? = some userId) :
    Read (W.committed.deleteReceipt messageId userId) messageId ↔ OthersEnded W n := by
  constructor
  · intro read m other outstanding
    obtain ⟨point, own, at_⟩ := outstanding
    obtain ⟨otherId, otherReader, -⟩ := inv.stages m _ at_
    have waiting := (inv.receipts otherId).mpr ⟨m, otherReader, point, own, at_⟩
    have distinct : otherId ≠ userId := by
      rintro rfl
      exact other (reader_unique once otherReader reader)
    exact read ⟨messageId, otherId⟩ (List.mem_filter.mpr ⟨waiting, by simp [distinct]⟩) rfl
  · rintro last ⟨id, otherId⟩ left rfl
    obtain ⟨waiting, distinct⟩ := List.mem_filter.mp left
    obtain ⟨m, otherReader, outstanding⟩ := (inv.receipts otherId).mp waiting
    by_cases same : m = n
    · subst same
      cases otherReader.symm.trans reader
      simp at distinct
    · exact last m same outstanding

/-- Nobody else holds a row of a reader. -/
theorem Acknowledging.receipt_free (inv : Acknowledging messageId readers W) (once : readers.Nodup)
    {userId : UserId} (reader : readers[n]? = some userId) :
    .deleteReceipt messageId userId ∉ Program.heldBesides W.sessions n := by
  intro held
  obtain ⟨m, point, own, other, at_, mine⟩ := Program.mem_heldBesides.mp held
  obtain ⟨otherId, otherReader, stage⟩ := inv.stages m _ at_
  have same : otherId = userId := by
    cases stage <;> simp_all
  subst same
  exact other (reader_unique once otherReader reader)

theorem message_free (last : OthersEnded W n) :
    .deleteMessage messageId ∉ Program.heldBesides W.sessions n := by
  intro held
  obtain ⟨m, point, own, other, at_, -⟩ := Program.mem_heldBesides.mp held
  exact last m other ⟨point, own, at_⟩

theorem advance_receiptStep (inv : Acknowledging messageId readers W) (once : readers.Nodup)
    (n : Nat) : ReceiptStep messageId W n (receiptProgram.advance W n) := by
  cases at_ : W.sessions[n]? with
  | none =>
      simp only [Program.advance, at_]
      exact .stayed fun ⟨point, own, running⟩ => by simp [at_] at running
  | some session =>
      obtain ⟨userId, reader, stage⟩ := inv.stages n session at_
      cases stage with
      | opened =>
          have free := inv.receipt_free once reader
          have waiting := (inv.receipts userId).mpr ⟨n, reader, _, _, at_⟩
          simp only [Program.advance, at_, receiptProgram, nextReceipt, free, waiting,
            Program.view_nil, if_false, if_true]
          exact .acknowledges userId at_
      | acknowledged =>
          have there : messageId ∈ (W.committed.deleteReceipt messageId userId).groupMessageIds :=
            inv.message ⟨n, _, _, at_⟩
          have sees := inv.read_iff once reader
          simp only [Program.advance, at_, receiptProgram, nextReceipt, Program.view_cons,
            Program.view_nil, writeReceipts]
          by_cases last : OthersEnded W n
          · have read := sees.mpr last
            simp only [there, read, and_self, if_true, message_free last, if_false]
            exact .seesNone userId at_ last
          · have unread := mt sees.mp last
            simp only [unread, and_false, if_false]
            exact .seesReceipts userId at_ last
      | unread =>
          simp only [Program.advance, at_]
          exact .commits userId at_
      | read =>
          simp only [Program.advance, at_]
          exact .deletes userId at_
      | recorded =>
          simp only [Program.advance, at_]
          exact .stayed fun ⟨point, own, running⟩ => by simp [at_] at running

/-- A session replaced by one that has not ended leaves outstanding who was. -/
theorem outstanding_onward {s : Session Point Write Answer} (at_ : W.sessions[n]? = some s)
    {after : Database} {point point' : Point} {own own' : List Write} (from_ : s = .running point own)
    (m : Nat) :
    Outstanding ⟨after, W.sessions.set n (.running point' own')⟩ m ↔ Outstanding W m := by
  subst from_
  simp only [Outstanding, getElem?_replaced at_]
  by_cases same : m = n
  · subst same
    simp [at_]
  · simp [same]

/-- One that ends is outstanding no more. -/
theorem outstanding_ended {s : Session Point Write Answer} (at_ : W.sessions[n]? = some s)
    {after : Database} {answer : Answer} (m : Nat) :
    Outstanding ⟨after, W.sessions.set n (.ended answer)⟩ m ↔ m ≠ n ∧ Outstanding W m := by
  simp only [Outstanding, getElem?_replaced at_]
  simp

/-- A statement keeps the invariant if what it sees is right. -/
theorem Acknowledging.onward (inv : Acknowledging messageId readers W) {point point' : Point}
    {own own' : List Write} (at_ : W.sessions[n]? = some (.running point own)) {userId : UserId}
    (reader : readers[n]? = some userId) (stage : Stage messageId userId (.running point' own'))
    (right : point' = .checked messageId userId true → OthersEnded W n) :
    Acknowledging messageId readers
      ⟨W.committed, W.sessions.set n (.running point' own')⟩ where
  length := by rw [List.length_set, inv.length]
  stages := by
    intro m session found
    rcases (getElem?_replaced at_).mp found with ⟨rfl, rfl⟩ | ⟨other, before⟩
    · exact ⟨userId, reader, stage⟩
    · exact inv.stages m session before
  receipts := by
    intro otherId
    simp only [outstanding_onward at_ rfl]
    exact inv.receipts otherId
  message := by
    simp only [outstanding_onward at_ rfl]
    exact inv.message
  last := by
    intro m otherId own'' found k other
    rw [outstanding_onward at_ rfl]
    rcases (getElem?_replaced at_).mp found with ⟨rfl, same⟩ | ⟨-, before⟩
    · cases same
      cases stage
      exact right rfl k other
    · exact inv.last m otherId own'' before k other

/-- A commit takes the reader's receipt, and the message only if nobody is left. -/
theorem Acknowledging.commit (inv : Acknowledging messageId readers W) (once : readers.Nodup)
    {point : Point} {own : List Write} (at_ : W.sessions[n]? = some (.running point own))
    {userId : UserId} (reader : readers[n]? = some userId) {after : Database}
    (receipts : ∀ otherId, ⟨messageId, otherId⟩ ∈ after.groupMessageReceipts ↔
      ⟨messageId, otherId⟩ ∈ W.committed.groupMessageReceipts ∧ otherId ≠ userId)
    (message : ¬ OthersEnded W n → after.groupMessageIds = W.committed.groupMessageIds) :
    Acknowledging messageId readers ⟨after, W.sessions.set n (.ended .recorded)⟩ where
  length := by rw [List.length_set, inv.length]
  stages := by
    intro m session found
    rcases (getElem?_replaced at_).mp found with ⟨rfl, rfl⟩ | ⟨other, before⟩
    · exact ⟨userId, reader, .recorded⟩
    · exact inv.stages m session before
  receipts := by
    intro otherId
    simp only [outstanding_ended at_, receipts, inv.receipts]
    constructor
    · rintro ⟨⟨m, otherReader, outstanding⟩, distinct⟩
      refine ⟨m, otherReader, ?_, outstanding⟩
      rintro rfl
      exact distinct (Option.some.inj (otherReader.symm.trans reader))
    · rintro ⟨m, otherReader, other, outstanding⟩
      refine ⟨⟨m, otherReader, outstanding⟩, ?_⟩
      rintro rfl
      exact other (reader_unique once otherReader reader)
  message := by
    rintro ⟨m, outstanding⟩
    obtain ⟨other, outstanding⟩ := (outstanding_ended at_ m).mp outstanding
    rw [message fun last => last m other outstanding]
    exact inv.message ⟨m, outstanding⟩
  last := by
    intro m otherId own' found k other outstanding
    rcases (getElem?_replaced at_).mp found with ⟨rfl, same⟩ | ⟨-, before⟩
    · cases same
    · exact inv.last m otherId own' before k other ((outstanding_ended at_ k).mp outstanding).2

theorem mem_deleteReceipt {db : Database} {userId otherId : UserId} :
    ⟨messageId, otherId⟩ ∈ (db.deleteReceipt messageId userId).groupMessageReceipts ↔
      ⟨messageId, otherId⟩ ∈ db.groupMessageReceipts ∧ otherId ≠ userId := by
  simp [Database.deleteReceipt]

/-- The message goes with every receipt of it. -/
theorem not_mem_deleteMessage {db : Database} (stored : messageId ∈ db.groupMessageIds)
    (userId : UserId) :
    ⟨messageId, userId⟩ ∉
      (db.deleteGroupMessagesWhere fun msg => msg.id = messageId).groupMessageReceipts := by
  obtain ⟨msg, inTable, named⟩ := List.mem_map.mp stored
  have gone : db.groupMessageGone (fun msg => msg.id = messageId) messageId = true :=
    Database.groupMessageGone_iff.mpr ⟨msg, inTable, decide_eq_true named, named⟩
  intro left
  have kept := (List.mem_filter.mp left).2
  rw [gone] at kept
  cases kept

theorem deleteMessage_gone (db : Database) (messageId : MessageId) :
    messageId ∉ (db.deleteGroupMessagesWhere fun msg => msg.id = messageId).groupMessageIds := by
  simp [Database.groupMessageIds, Database.deleteGroupMessagesWhere]

theorem acknowledging_step (inv : Acknowledging messageId readers W) (once : readers.Nodup)
    (n : Nat) : Acknowledging messageId readers (receiptProgram.advance W n) := by
  have step := advance_receiptStep inv once n
  generalize receiptProgram.advance W n = W' at step ⊢
  cases step with
  | stayed ended => exact inv
  | acknowledges userId at_ =>
      obtain ⟨readerId, reader, stage⟩ := inv.stages n _ at_
      cases stage
      exact inv.onward at_ reader .acknowledged fun read => nomatch read
  | seesReceipts userId at_ others =>
      obtain ⟨readerId, reader, stage⟩ := inv.stages n _ at_
      cases stage
      exact inv.onward at_ reader .unread fun read => nomatch read
  | seesNone userId at_ last =>
      obtain ⟨readerId, reader, stage⟩ := inv.stages n _ at_
      cases stage
      exact inv.onward at_ reader .read fun _ => last
  | commits userId at_ =>
      obtain ⟨readerId, reader, stage⟩ := inv.stages n _ at_
      cases stage
      exact inv.commit once at_ reader (fun otherId => mem_deleteReceipt) fun _ => rfl
  | deletes userId at_ =>
      obtain ⟨readerId, reader, stage⟩ := inv.stages n _ at_
      cases stage
      have last := inv.last n userId _ at_
      have stored : messageId ∈ (W.committed.deleteReceipt messageId userId).groupMessageIds :=
        inv.message ⟨n, _, _, at_⟩
      refine inv.commit once at_ reader (fun otherId => ?_) fun others => absurd last others
      -- nobody but this reader has a receipt left
      constructor
      · exact fun left => absurd left (not_mem_deleteMessage stored otherId)
      · rintro ⟨waiting, distinct⟩
        obtain ⟨m, otherReader, outstanding⟩ := (inv.receipts otherId).mp waiting
        have other : m ≠ n := by
          rintro rfl
          exact distinct (Option.some.inj (otherReader.symm.trans reader))
        exact absurd outstanding (last m other)

theorem opened_outstanding (n : Nat) :
    Outstanding (opened db messageId readers) n ↔ ∃ userId, readers[n]? = some userId := by
  simp [Outstanding, opened, List.getElem?_map, Option.map_eq_some_iff]

theorem acknowledging_opened (awaited : Awaited db messageId readers) :
    Acknowledging messageId readers (opened db messageId readers) where
  length := by simp [opened]
  stages := by
    intro n session at_
    simp only [opened, List.getElem?_map, Option.map_eq_some_iff] at at_
    obtain ⟨userId, reader, rfl⟩ := at_
    exact ⟨userId, reader, .opened⟩
  receipts := by
    intro userId
    simp only [opened_outstanding]
    refine (awaited.receipts userId).trans (List.mem_iff_getElem?.trans ?_)
    exact exists_congr fun n => ⟨fun reader => ⟨reader, userId, reader⟩, And.left⟩
  message := fun _ => awaited.stored
  last := by
    intro n userId own at_
    simp [opened, List.getElem?_map, Option.map_eq_some_iff] at at_

theorem acknowledging_run (awaited : Awaited db messageId readers) (schedule : List Nat) :
    Acknowledging messageId readers ((acknowledging db messageId readers).run schedule) :=
  (acknowledging db messageId readers).invariant (P := Acknowledging messageId readers)
    (acknowledging_opened awaited) (fun _ n inv => acknowledging_step inv awaited.once n) schedule

/-! ## When the message goes -/

/-- The message is gone, or a transaction that has deleted it will commit. -/
def Going (messageId : MessageId) (W : ReceiptWorld) : Prop :=
  messageId ∉ W.committed.groupMessageIds ∨
    ∃ (n : Nat) (userId : UserId) (own : List Write),
      W.sessions[n]? = some (.running (.checked messageId userId true) own)

/-- Session `n` is about to look at the message, and all the others have ended. -/
def LooksLast (messageId : MessageId) (W : ReceiptWorld) (n : Nat) : Prop :=
  (∃ userId own, W.sessions[n]? = some (.running (.acknowledged messageId userId) own)) ∧
    OthersEnded W n

/-- A step that neither sees the message read nor commits having seen it. -/
theorem going_replace {s s' : Session Point Write Answer} (at_ : W.sessions[n]? = some s)
    {after : Database} (ids : after.groupMessageIds = W.committed.groupMessageIds)
    (before : ∀ userId own, s ≠ .running (.checked messageId userId true) own)
    (then_ : ∀ userId own, s' ≠ .running (.checked messageId userId true) own) :
    Going messageId ⟨after, W.sessions.set n s'⟩ ↔ Going messageId W := by
  refine or_congr (by rw [ids]) (exists_congr fun m => exists_congr fun userId =>
    exists_congr fun own => ?_)
  rw [getElem?_replaced at_]
  constructor
  · rintro (⟨-, same⟩ | ⟨-, kept⟩)
    · exact absurd same.symm (then_ userId own)
    · exact kept
  · intro kept
    refine Or.inr ⟨?_, kept⟩
    rintro rfl
    exact before userId own (Option.some.inj (at_.symm.trans kept))

theorem going_step (inv : Acknowledging messageId readers W) (once : readers.Nodup) (n : Nat) :
    Going messageId (receiptProgram.advance W n) ↔ Going messageId W ∨ LooksLast messageId W n := by
  have step := advance_receiptStep inv once n
  generalize receiptProgram.advance W n = W' at step ⊢
  cases step with
  | stayed ended =>
      have notLast : ¬ LooksLast messageId W n := fun ⟨⟨userId, own, at_⟩, _⟩ =>
        ended ⟨_, _, at_⟩
      simp [notLast]
  | acknowledges userId at_ =>
      have notLast : ¬ LooksLast messageId W n := fun ⟨⟨_, _, other⟩, _⟩ => by
        simp [at_] at other
      rw [going_replace at_ rfl (by simp) (by simp), or_iff_left notLast]
  | seesReceipts userId at_ others =>
      have notLast : ¬ LooksLast messageId W n := fun ⟨_, last⟩ => others last
      rw [going_replace at_ rfl (by simp) (by simp), or_iff_left notLast]
  | seesNone userId at_ last =>
      have now : Going messageId ⟨W.committed, W.sessions.set n
          (.running (.checked messageId userId true)
            [.deleteReceipt messageId userId, .deleteMessage messageId])⟩ :=
        Or.inr ⟨n, userId, _, (getElem?_replaced at_).mpr (Or.inl ⟨rfl, rfl⟩)⟩
      exact iff_of_true now (Or.inr ⟨⟨userId, _, at_⟩, last⟩)
  | commits userId at_ =>
      have notLast : ¬ LooksLast messageId W n := fun ⟨⟨_, _, other⟩, _⟩ => by
        simp [at_] at other
      have ids : (W.committed.deleteReceipt messageId userId).groupMessageIds =
          W.committed.groupMessageIds := rfl
      rw [going_replace at_ ids (by simp) (by simp), or_iff_left notLast]
  | deletes userId at_ =>
      exact iff_of_true (Or.inl (deleteMessage_gone _ messageId)) (Or.inl (Or.inr ⟨n, userId, _, at_⟩))

theorem going_iff (awaited : Awaited db messageId readers) (schedule : List Nat) :
    Going messageId ((acknowledging db messageId readers).run schedule) ↔
      SomeStep (fun earlier n =>
        LooksLast messageId ((acknowledging db messageId readers).run earlier) n) schedule := by
  induction schedule using List.reverseRecOn with
  | nil =>
      refine iff_of_false ?_ (someStep_nil _)
      rintro (gone | ⟨n, userId, own, at_⟩)
      · exact gone awaited.stored
      · simp [acknowledging, System.run, opened, Option.map_eq_some_iff] at at_
  | append_singleton schedule n ih =>
      rw [System.run_snoc, someStep_snoc, ← ih]
      exact going_step (acknowledging_run awaited schedule) awaited.once n

/-- Every reader's transaction has committed. -/
def AllRecorded (W : ReceiptWorld) : Prop := ∀ session ∈ W.sessions, session = .ended .recorded

instance (W : ReceiptWorld) : Decidable (AllRecorded W) :=
  inferInstanceAs (Decidable (∀ session ∈ W.sessions, session = .ended .recorded))

theorem Acknowledging.allRecorded (inv : Acknowledging messageId readers W) :
    AllRecorded W ↔ ∀ n, ¬ Outstanding W n := by
  constructor
  · rintro all n ⟨point, own, at_⟩
    cases all _ (List.mem_of_getElem? at_)
  · intro none_ session listed
    obtain ⟨n, at_⟩ := List.mem_iff_getElem?.mp listed
    obtain ⟨userId, -, stage⟩ := inv.stages n session at_
    cases stage with
    | recorded => rfl
    | opened | acknowledged | unread | read => exact absurd ⟨_, _, at_⟩ (none_ n)

variable (db messageId readers)

/-- The message is gone after the run, and at no committed state on the way was it
gone before every reader's transaction had committed. -/
def CleansUp (schedule : List Nat) : Prop :=
  messageId ∉ ((acknowledging db messageId readers).run schedule).committed.groupMessageIds ∧
    Throughout (fun earlier =>
      messageId ∉ ((acknowledging db messageId readers).run earlier).committed.groupMessageIds →
        AllRecorded ((acknowledging db messageId readers).run earlier)) schedule

variable {db messageId readers}

/-- **When acknowledging cleans up**: iff some reader looks at the message after all
the others have committed. -/
theorem cleanup_iff (awaited : Awaited db messageId readers) {schedule : List Nat}
    (complete : AllRecorded ((acknowledging db messageId readers).run schedule)) :
    CleansUp db messageId readers schedule ↔
      SomeStep (fun earlier n =>
        LooksLast messageId ((acknowledging db messageId readers).run earlier) n) schedule := by
  have inv := acknowledging_run awaited schedule
  have ended := inv.allRecorded.mp complete
  have never : Throughout (fun earlier =>
      messageId ∉ ((acknowledging db messageId readers).run earlier).committed.groupMessageIds →
        AllRecorded ((acknowledging db messageId readers).run earlier)) schedule := by
    intro earlier _ gone
    have inv := acknowledging_run awaited earlier
    exact inv.allRecorded.mpr fun n outstanding => gone (inv.message ⟨n, outstanding⟩)
  rw [← going_iff awaited schedule]
  constructor
  · exact fun cleans => Or.inl cleans.1
  · rintro (gone | ⟨n, userId, own, at_⟩)
    · exact ⟨gone, never⟩
    · exact absurd ⟨_, _, at_⟩ (ended n)

/-- Ada has sent to a group of three; bob and cyd have not acknowledged. -/
def sent : Database where
  users := [⟨1, "ada", "5a", [1], [2]⟩, ⟨2, "bob", "5b", [3], [4]⟩, ⟨3, "cyd", "5c", [5], [6]⟩]
  groups := [⟨1, "trio", 1, 0⟩]
  groupMembers := [⟨1, 1⟩, ⟨1, 2⟩, ⟨1, 3⟩]
  groupMessages := [⟨1, 1, 1, 0, [9]⟩]
  groupMessageReceipts := [⟨1, 2⟩, ⟨1, 3⟩]
  sequences := { users := 4, groups := 2, groupMessages := 2 }

theorem sent_awaited : Awaited sent 1 [2, 3] where
  stored := by decide
  once := by decide
  receipts := by simp [sent]

/-- One reader after the other. -/
theorem cleanup_iff_in_turn :
    CleansUp sent 1 [2, 3] [0, 0, 0, 1, 1, 1] ↔
      SomeStep (fun earlier n => LooksLast 1 ((acknowledging sent 1 [2, 3]).run earlier) n)
        [0, 0, 0, 1, 1, 1] :=
  cleanup_iff sent_awaited (by decide)

/-- Both delete their receipts, both look, both commit: the message is still there. -/
theorem message_left_behind :
    Awaited sent 1 [2, 3] ∧ AllRecorded ((acknowledging sent 1 [2, 3]).run [0, 1, 0, 1, 0, 1]) ∧
      ¬ CleansUp sent 1 [2, 3] [0, 1, 0, 1, 0, 1] := by
  refine ⟨sent_awaited, by decide, fun cleans => ?_⟩
  have left : 1 ∈ ((acknowledging sent 1 [2, 3]).run [0, 1, 0, 1, 0, 1]).committed.groupMessageIds := by
    decide
  exact cleans.1 left

end Readers

end Acknowledge

end SecureMsg.Groups
