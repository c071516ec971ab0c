/-
# Groups.MailLinear — group messages sent, read, revoked and acknowledged at the same time

`Noticeboard` is what the four methods of `Groups.Mail` do one after the other.

`groupMail_linearized`: in every run of their transactions each call takes effect
at one moment between its first statement and its answer, and in the order of these
moments the answers are those of the methods called one after the other, but for
one thing: a message may stay behind when its last receipt goes (`Groups.Acknowledge`
says when).
-/
import SecureMsg.Theory.Linearization
import SecureMsg.Theory.Sequences
import SecureMsg.Repository.Operation
import SecureMsg.Groups.Mail

namespace SecureMsg.Groups

open SecureMsg.Theory SecureMsg.Store SecureMsg.Repository

set_option autoImplicit false

namespace Mail

/-! ## One call after the other -/

/-- The rows the four methods work on. -/
structure Board where
  messages : List GroupMessage
  receipts : List GroupMessageReceipt

def Board.of (db : Database) : Board := ⟨db.groupMessages, db.groupMessageReceipts⟩

/-- The database with these rows. -/
def Board.on (board : Board) (db : Database) : Database :=
  { db with groupMessages := board.messages, groupMessageReceipts := board.receipts }

/-- The methods, one call at a time, among the users and groups of `db`. -/
inductive Noticeboard (db : Database) : Serial Board Call Answer where
  | stores (board : Board) (groupId : GroupId) (senderId : UserId) (epoch : Int)
      (ciphertext : Bytes) (id : MessageId)
      (known : (senderId ∈ db.userIds ∧ groupId ∈ db.groupIds) ∧ FitsInteger epoch)
      (new : db.sequences.groupMessages ≤ id) (fresh : id ∉ board.messages.map GroupMessage.id) :
      Noticeboard db board (.storeGroupMessage groupId senderId epoch ciphertext)
        (.stored ⟨id, senderId, groupId, epoch, ciphertext⟩)
        ⟨board.messages ++ [⟨id, senderId, groupId, epoch, ciphertext⟩],
          board.receipts ++ receiptRows db groupId senderId id⟩
  | refuses (board : Board) (groupId : GroupId) (senderId : UserId) (epoch : Int)
      (ciphertext : Bytes) (e : Error)
      (refused : storeGroupMessage (board.on db) groupId senderId epoch ciphertext = .error e) :
      Noticeboard db board (.storeGroupMessage groupId senderId epoch ciphertext) (.raised e) board
  | fetches (board : Board) (groupId : GroupId) (userId : UserId) :
      Noticeboard db board (.getGroupMessages groupId userId)
        (.messages (getGroupMessages (board.on db) groupId userId)) board
  | revokes (board : Board) (messageId : MessageId) (senderId : UserId) :
      Noticeboard db board (.revokeGroupMessage messageId senderId)
        (.revoked (revokeGroupMessage (board.on db) messageId senderId).2)
        (.of (revokeGroupMessage (board.on db) messageId senderId).1)
  | acknowledges (board : Board) (messageId : MessageId) (userId : UserId) (after : Database)
      (done : recordGroupReceipt (board.on db) messageId userId = .ok after) :
      Noticeboard db board (.recordGroupReceipt messageId userId) .recorded (.of after)
  /-- The last receipt goes and the message stays, which nobody is to read any more. -/
  | leavesMessage (board : Board) (messageId : MessageId) (userId : UserId)
      (waiting : ⟨messageId, userId⟩ ∈ board.receipts)
      (last : Acknowledge.Read ((board.on db).deleteReceipt messageId userId) messageId) :
      Noticeboard db board (.recordGroupReceipt messageId userId) .recorded
        (.of ((board.on db).deleteReceipt messageId userId))
  | unknown (board : Board) (messageId : MessageId) (userId : UserId) (e : Error)
      (refused : recordGroupReceipt (board.on db) messageId userId = .error e) :
      Noticeboard db board (.recordGroupReceipt messageId userId) (.raised e) board

/-- Every call takes effect as its session ends. -/
def settled : Session Point Write Answer → Option Answer
  | .running _ _ => none
  | .ended answer => some answer

/-! ## What holds in every run -/

/-- The id drawn for the message of a session. -/
def drawnId : Session Point Write Answer → Option MessageId
  | .running (.inserted row) _ | .running (.committing (.stored row)) _ | .ended (.stored row) =>
      some row.id
  | _ => none

/-- Where the session of a call can be. -/
inductive Serving (db : Database) (W : MailWorld) : Call → Session Point Write Answer → Prop where
  | begun (call : Call) : Serving db W call (.running (.statement call) [])
  | inserted (groupId : GroupId) (senderId : UserId) (epoch : Int) (ciphertext : Bytes)
      (id : MessageId)
      (known : (senderId ∈ db.userIds ∧ groupId ∈ db.groupIds) ∧ FitsInteger epoch) :
      Serving db W (.storeGroupMessage groupId senderId epoch ciphertext)
        (.running (.inserted ⟨id, senderId, groupId, epoch, ciphertext⟩)
          [.insertMessage ⟨id, senderId, groupId, epoch, ciphertext⟩])
  | addressed (groupId : GroupId) (senderId : UserId) (epoch : Int) (ciphertext : Bytes)
      (id : MessageId)
      (known : (senderId ∈ db.userIds ∧ groupId ∈ db.groupIds) ∧ FitsInteger epoch) :
      Serving db W (.storeGroupMessage groupId senderId epoch ciphertext)
        (.running (.committing (.stored ⟨id, senderId, groupId, epoch, ciphertext⟩))
          [.insertMessage ⟨id, senderId, groupId, epoch, ciphertext⟩,
            .insertReceipts (receiptRows db groupId senderId id)])
  | revoking (messageId : MessageId) (senderId : UserId)
      (born : Born drawnId db.sequences.groupMessages W.sessions messageId)
      (sent : ∀ row ∈ W.committed.groupMessages, row.id = messageId → row.senderId = senderId) :
      Serving db W (.revokeGroupMessage messageId senderId) (.running (.revoking messageId) [])
  | cascading (messageId : MessageId) (senderId : UserId) (row : GroupMessage)
      (there : row ∈ W.committed.groupMessages) (named : row.id = messageId)
      (sent : row.senderId = senderId) (taken : List UserId)
      (waiting : ∀ userId ∈ taken, ⟨messageId, userId⟩ ∈ W.committed.groupMessageReceipts)
      (pending : List UserId)
      (complete : ∀ receipt ∈ W.committed.groupMessageReceipts, receipt.messageId = messageId →
        receipt.userId ∈ taken ∨ receipt.userId ∈ pending) :
      Serving db W (.revokeGroupMessage messageId senderId)
        (.running (.cascading messageId pending (.revoked true))
          (.deleteMessage messageId :: taken.map (.deleteReceipt messageId)))
  | acknowledged (messageId : MessageId) (userId : UserId)
      (waiting : ⟨messageId, userId⟩ ∈ W.committed.groupMessageReceipts) :
      Serving db W (.recordGroupReceipt messageId userId)
        (.running (.acknowledged messageId userId) [.deleteReceipt messageId userId])
  | unread (messageId : MessageId) (userId : UserId)
      (waiting : ⟨messageId, userId⟩ ∈ W.committed.groupMessageReceipts) :
      Serving db W (.recordGroupReceipt messageId userId)
        (.running (.committing .recorded) [.deleteReceipt messageId userId])
  | read (messageId : MessageId) (userId : UserId)
      (waiting : ⟨messageId, userId⟩ ∈ W.committed.groupMessageReceipts)
      (last : ∀ receipt ∈ W.committed.groupMessageReceipts, receipt.messageId = messageId →
        receipt.userId = userId) :
      Serving db W (.recordGroupReceipt messageId userId)
        (.running (.cascading messageId [] .recorded)
          [.deleteReceipt messageId userId, .deleteMessage messageId])
  | ended (call : Call) (answer : Answer) : Serving db W call (.ended answer)

structure Posting (db : Database) (calls : List Call) (W : MailWorld) : Prop where
  users : W.committed.users = db.users
  groups : W.committed.groups = db.groups
  members : W.committed.groupMembers = db.groupMembers
  ids : (W.committed.groupMessages.map GroupMessage.id).Nodup
  once : W.committed.groupMessageReceipts.Nodup
  addressed : ∀ receipt ∈ W.committed.groupMessageReceipts,
    receipt.messageId ∈ W.committed.groupMessageIds
  born : ∀ row ∈ W.committed.groupMessages,
    Born drawnId db.sequences.groupMessages W.sessions row.id
  drawn : Drawn drawnId db.sequences.groupMessages W.committed.sequences.groupMessages W.sessions
  serving : ∀ (n : Nat) session, W.sessions[n]? = some session →
    ∃ call, calls[n]? = some call ∧ Serving db W call session
  compatible : Program.Compatible conflicts W.sessions

section Steps

variable {db : Database} {calls : List Call} {W : MailWorld} {n : Nat}

/-- What a step of session `n` leaves holding, and does to the board. -/
structure Stepped (db : Database) (calls : List Call) (W W' : MailWorld) (n : Nat) : Prop where
  posting : Posting db calls W'
  effect : Program.Effect settled (Noticeboard db) calls Board.of W W' n

/-- What the writes of one session may do to the committed rows. -/
structure Changes (db : Database) (W : MailWorld) (own : List Write) (after : Database) : Prop where
  users : after.users = W.committed.users
  groups : after.groups = W.committed.groups
  members : after.groupMembers = W.committed.groupMembers
  message : ∀ row ∈ W.committed.groupMessages,
    row ∈ after.groupMessages ∨ .deleteMessage row.id ∈ own
  receipt : ∀ receipt ∈ W.committed.groupMessageReceipts,
    receipt ∈ after.groupMessageReceipts ∨ .deleteReceipt receipt.messageId receipt.userId ∈ own
  newMessage : ∀ row ∈ after.groupMessages, row ∈ W.committed.groupMessages ∨
    ¬ Born drawnId db.sequences.groupMessages W.sessions row.id
  newReceipt : ∀ receipt ∈ after.groupMessageReceipts,
    receipt ∈ W.committed.groupMessageReceipts ∨
      ¬ Born drawnId db.sequences.groupMessages W.sessions receipt.messageId

theorem Changes.none_ {own : List Write} : Changes db W own W.committed where
  users := rfl
  groups := rfl
  members := rfl
  message := fun _ there => Or.inl there
  receipt := fun _ there => Or.inl there
  newMessage := fun _ there => Or.inl there
  newReceipt := fun _ there => Or.inl there

/-- A message that a receipt is for is born. -/
theorem Posting.receipt_born (p : Posting db calls W) {receipt : GroupMessageReceipt}
    (there : receipt ∈ W.committed.groupMessageReceipts) :
    Born drawnId db.sequences.groupMessages W.sessions receipt.messageId := by
  obtain ⟨row, stored, same⟩ := List.mem_map.mp (p.addressed receipt there)
  exact same ▸ p.born row stored

/-- The sessions that do not step are where they were: nobody else can have taken the
rows they hold, and what is new is of no id they have seen. -/
theorem Serving.kept (p : Posting db calls W) {point : Point} {own : List Write}
    (at_ : W.sessions[n]? = some (.running point own)) {after : Database}
    (changes : Changes db W own after) {s' : Session Point Write Answer} {k : Nat}
    (other : k ≠ n) {call : Call} {session : Session Point Write Answer}
    (there : W.sessions[k]? = some session) (serving : Serving db W call session) :
    Serving db ⟨after, W.sessions.set n s'⟩ call session := by
  -- a row that session `k` holds is not deleted by session `n`
  have free : ∀ {point' own'}, session = .running point' own' → ∀ wr ∈ own', wr.Deletes →
      wr ∉ own := by
    rintro point' own' rfl wr holds deletes held
    exact p.compatible k n _ _ _ _ other there at_ wr holds wr held ⟨rfl, deletes⟩
  cases serving with
  | begun => exact .begun _
  | inserted _ _ _ _ id known => exact .inserted _ _ _ _ id known
  | addressed _ _ _ _ id known => exact .addressed _ _ _ _ id known
  | revoking messageId senderId born sent =>
      refine .revoking _ _ (born.keep at_) fun row stored same => ?_
      rcases changes.newMessage row stored with before | unborn
      · exact sent row before same
      · exact absurd (same ▸ born) unborn
  | cascading messageId senderId row stored named sent taken waiting pending complete =>
      have kept : row ∈ after.groupMessages := by
        refine (changes.message row stored).resolve_right fun deleted => ?_
        rw [named] at deleted
        exact free rfl _ List.mem_cons_self (.message messageId) deleted
      refine .cascading _ _ row kept named sent taken (fun userId isTaken => ?_) pending
        fun receipt there isFor => ?_
      · refine (changes.receipt _ (waiting userId isTaken)).resolve_right ?_
        exact free rfl _ (List.mem_cons_of_mem _ (List.mem_map_of_mem isTaken)) (.receipt ..)
      · rcases changes.newReceipt receipt there with before | unborn
        · exact complete receipt before isFor
        · rw [isFor, ← named] at unborn
          exact absurd (p.born row stored) unborn
  | acknowledged messageId userId waiting =>
      refine .acknowledged _ _ ((changes.receipt _ waiting).resolve_right ?_)
      exact free rfl _ List.mem_cons_self (.receipt ..)
  | unread messageId userId waiting =>
      refine .unread _ _ ((changes.receipt _ waiting).resolve_right ?_)
      exact free rfl _ List.mem_cons_self (.receipt ..)
  | read messageId userId waiting last =>
      have kept := (changes.receipt _ waiting).resolve_right
        (free rfl _ List.mem_cons_self (.receipt ..))
      refine .read _ _ kept fun receipt stored same => ?_
      rcases changes.newReceipt receipt stored with before | unborn
      · exact last receipt before same
      · exact absurd (same ▸ p.receipt_born waiting) unborn
  | ended => exact .ended _ _

theorem Posting.replace (p : Posting db calls W) {point : Point} {own : List Write}
    (at_ : W.sessions[n]? = some (.running point own)) {call : Call}
    (isCall : calls[n]? = some call) {after : Database} {s' : Session Point Write Answer}
    (changes : Changes db W own after)
    (compatible : Program.Compatible conflicts (W.sessions.set n s'))
    (serving : Serving db ⟨after, W.sessions.set n s'⟩ call s')
    (drawn : Drawn drawnId db.sequences.groupMessages after.sequences.groupMessages
      (W.sessions.set n s'))
    (ids : (after.groupMessages.map GroupMessage.id).Nodup)
    (once : after.groupMessageReceipts.Nodup)
    (addressed : ∀ receipt ∈ after.groupMessageReceipts, receipt.messageId ∈ after.groupMessageIds)
    (born : ∀ row ∈ after.groupMessages, row ∈ W.committed.groupMessages ∨
      Born drawnId db.sequences.groupMessages (W.sessions.set n s') row.id) :
    Posting db calls ⟨after, W.sessions.set n s'⟩ where
  users := changes.users.trans p.users
  groups := changes.groups.trans p.groups
  members := changes.members.trans p.members
  ids := ids
  once := once
  addressed := addressed
  born := fun row stored => (born row stored).elim (fun before => (p.born row before).keep at_) id
  drawn := drawn
  serving := by
    intro k session found
    rcases (getElem?_replaced at_).mp found with ⟨rfl, rfl⟩ | ⟨other, before⟩
    · exact ⟨call, isCall, serving⟩
    · obtain ⟨call', isCall', served⟩ := p.serving k session before
      exact ⟨call', isCall', served.kept p at_ changes other before⟩
  compatible := compatible

/-- A step that leaves the committed side alone. -/
theorem Posting.onward (p : Posting db calls W) {point : Point} {own : List Write}
    (at_ : W.sessions[n]? = some (.running point own)) {call : Call}
    (isCall : calls[n]? = some call) {s' : Session Point Write Answer}
    (compatible : Program.Compatible conflicts (W.sessions.set n s'))
    (serving : Serving db ⟨W.committed, W.sessions.set n s'⟩ call s')
    (same : ∀ id, drawnId s' = some id → drawnId (.running point own) = some id) :
    Posting db calls ⟨W.committed, W.sessions.set n s'⟩ :=
  p.replace at_ isCall .none_ compatible serving (p.drawn.keep at_ same) p.ids p.once p.addressed
    fun _ stored => Or.inl stored

/-- A step that deletes rows and adds none. -/
theorem Posting.shrink (p : Posting db calls W) {point : Point} {own : List Write}
    (at_ : W.sessions[n]? = some (.running point own)) {call : Call}
    (isCall : calls[n]? = some call) {after : Database} {answer : Answer}
    (changes : Changes db W own after)
    (compatible : Program.Compatible conflicts (W.sessions.set n (.ended answer)))
    (undrawn : drawnId (.ended answer) = none)
    (sequences : after.sequences = W.committed.sequences)
    (messages : after.groupMessages.Sublist W.committed.groupMessages)
    (receipts : after.groupMessageReceipts.Sublist W.committed.groupMessageReceipts)
    (addressed : ∀ receipt ∈ after.groupMessageReceipts,
      receipt.messageId ∈ after.groupMessageIds) :
    Posting db calls ⟨after, W.sessions.set n (.ended answer)⟩ := by
  refine p.replace at_ isCall changes compatible (.ended _ _) ?_ (p.ids.sublist (messages.map _))
    (p.once.sublist receipts) addressed fun row stored => Or.inl (messages.subset stored)
  rw [sequences]
  refine p.drawn.keep at_ fun id isDrawn => ?_
  rw [undrawn] at isDrawn
  cases isDrawn

/-! ### Sends -/

theorem stepped_storeGroupMessage (p : Posting db calls W) {groupId : GroupId} {senderId : UserId}
    {epoch : Int} {ciphertext : Bytes}
    (at_ : W.sessions[n]? = some (.running
      (.statement (.storeGroupMessage groupId senderId epoch ciphertext)) []))
    (isCall : calls[n]? = some (.storeGroupMessage groupId senderId epoch ciphertext)) :
    Stepped db calls W (mailProgram.advance W n) n := by
  have compatible := Program.compatible_step mail_locking p.compatible n
  have userIds : W.committed.userIds = db.userIds := by
    rw [Database.userIds, p.users, Database.userIds]
  have groupIds : W.committed.groupIds = db.groupIds := by
    rw [Database.groupIds, p.groups, Database.groupIds]
  simp only [Program.advance, at_, mailProgram, nextMail, nextStatement, Program.view_nil,
    Database.insertGroupMessage, userIds, groupIds] at compatible ⊢
  by_cases known : (senderId ∈ db.userIds ∧ groupId ∈ db.groupIds) ∧ FitsInteger epoch
  · simp only [known, and_self, if_true] at compatible ⊢
    constructor
    · refine p.replace at_ isCall ?_ compatible (.inserted _ _ _ _ _ known) (p.drawn.draw at_ rfl)
        p.ids p.once p.addressed fun _ stored => Or.inl stored
      exact ⟨rfl, rfl, rfl, fun _ there => Or.inl there, fun _ there => Or.inl there,
        fun _ there => Or.inl there, fun _ there => Or.inl there⟩
    · exact .onward at_ rfl rfl
  · simp only [known, if_false] at compatible ⊢
    constructor
    · refine p.onward at_ isCall compatible (.ended _ _) ?_
      rintro id ⟨⟩
    · refine .settles at_ isCall rfl rfl (.refuses _ _ _ _ _ _ ?_)
      have unknown : ¬ ((senderId ∈ Database.userIds (Board.on (.of W.committed) db) ∧
          groupId ∈ Database.groupIds (Board.on (.of W.committed) db)) ∧ FitsInteger epoch) := known
      simp only [storeGroupMessage, Database.insertGroupMessage, unknown, if_false]
      rfl

theorem stepped_getGroupMessages (p : Posting db calls W) {groupId : GroupId} {userId : UserId}
    (at_ : W.sessions[n]? =
      some (.running (.statement (.getGroupMessages groupId userId)) []))
    (isCall : calls[n]? = some (.getGroupMessages groupId userId)) :
    Stepped db calls W (mailProgram.advance W n) n := by
  have compatible := Program.compatible_step mail_locking p.compatible n
  simp only [Program.advance, at_, mailProgram, nextMail, nextStatement, Program.view_nil]
    at compatible ⊢
  constructor
  · refine p.onward at_ isCall compatible (.ended _ _) ?_
    rintro id ⟨⟩
  · exact .settles at_ isCall rfl rfl (.fetches _ _ _)

/-- The receipts of a message not yet born are none of those there are. -/
theorem receipts_once (c : Constraints db) (p : Posting db calls W) {groupId : GroupId}
    {senderId : UserId} {id : MessageId}
    (unborn : ¬ Born drawnId db.sequences.groupMessages W.sessions id) :
    (W.committed.groupMessageReceipts ++ receiptRows db groupId senderId id).Nodup := by
  refine List.nodup_append.mpr ⟨p.once, ?_, ?_⟩
  · have once := (Database.membersOf_nodup c.groupMembers groupId).filter fun uid => uid ≠ senderId
    exact once.map fun uid other same => (GroupMessageReceipt.mk.injEq .. ▸ same).2
  · rintro receipt old _ listed rfl
    have isNew := (mem_receiptRows.mp listed).1
    exact unborn (isNew ▸ p.receipt_born old)

/-- The receipts of a new message go in: its id is no committed row's. -/
theorem receipts_go_in (c : Constraints db) (p : Posting db calls W) {row : GroupMessage}
    {own : List Write} (at_ : W.sessions[n]? = some (.running (.inserted row) own)) :
    ∃ after, (writeMail W.committed (.insertMessage row)).insertGroupMessageReceipts
      (receiptRows db row.groupId row.senderId row.id) = .ok after := by
  have unborn := p.drawn.unborn at_ rfl
  refine ⟨_, Database.insertGroupMessageReceipts_ok.mpr ⟨rfl, ?_, ?_⟩⟩
  · rintro ⟨id, uid⟩ listed
    obtain ⟨rfl, member, -⟩ := mem_receiptRows.mp listed
    constructor
    · simp [writeMail, Database.groupMessageIds]
    · have exists_ := (c.member_exists member).2
      rw [Database.userIds, ← p.users] at exists_
      exact exists_
  · exact receipts_once c p unborn

theorem stepped_inserted (c : Constraints db) (p : Posting db calls W) {groupId : GroupId}
    {senderId : UserId} {epoch : Int} {ciphertext : Bytes} {id : MessageId}
    (known : (senderId ∈ db.userIds ∧ groupId ∈ db.groupIds) ∧ FitsInteger epoch)
    (at_ : W.sessions[n]? = some (.running (.inserted ⟨id, senderId, groupId, epoch, ciphertext⟩)
      [.insertMessage ⟨id, senderId, groupId, epoch, ciphertext⟩]))
    (isCall : calls[n]? = some (.storeGroupMessage groupId senderId epoch ciphertext)) :
    Stepped db calls W (mailProgram.advance W n) n := by
  have compatible := Program.compatible_step mail_locking p.compatible n
  obtain ⟨after, goIn⟩ := receipts_go_in c p at_
  have rows : receiptRows (writeMail W.committed (.insertMessage
      ⟨id, senderId, groupId, epoch, ciphertext⟩)) groupId senderId id =
      receiptRows db groupId senderId id := by
    simp only [receiptRows, Database.membersOf, writeMail, p.members]
  simp only [Program.advance, at_, mailProgram, nextMail, Program.view_cons, Program.view_nil,
    rows, goIn] at compatible ⊢
  constructor
  · exact p.onward at_ isCall compatible (.addressed _ _ _ _ _ known) fun id isDrawn => isDrawn
  · exact .onward at_ rfl rfl

theorem stepped_addressed (c : Constraints db) (p : Posting db calls W) {groupId : GroupId}
    {senderId : UserId} {epoch : Int} {ciphertext : Bytes} {id : MessageId}
    (known : (senderId ∈ db.userIds ∧ groupId ∈ db.groupIds) ∧ FitsInteger epoch)
    (at_ : W.sessions[n]? = some (.running
      (.committing (.stored ⟨id, senderId, groupId, epoch, ciphertext⟩))
      [.insertMessage ⟨id, senderId, groupId, epoch, ciphertext⟩,
        .insertReceipts (receiptRows db groupId senderId id)]))
    (isCall : calls[n]? = some (.storeGroupMessage groupId senderId epoch ciphertext)) :
    Stepped db calls W (mailProgram.advance W n) n := by
  have compatible := Program.compatible_step mail_locking p.compatible n
  have unborn := p.drawn.unborn at_ rfl
  have fresh : id ∉ W.committed.groupMessages.map GroupMessage.id := by
    intro stored
    obtain ⟨row, there, same⟩ := List.mem_map.mp stored
    exact unborn (same ▸ p.born row there)
  simp only [Program.advance, at_, mailProgram, nextMail, Program.view_cons, Program.view_nil,
    writeMail] at compatible ⊢
  constructor
  · refine p.replace at_ isCall ?_ compatible (.ended _ _)
      (p.drawn.keep at_ fun id isDrawn => isDrawn) ?_ ?_ ?_ ?_
    · refine ⟨rfl, rfl, rfl, fun _ there => Or.inl (List.mem_append_left _ there),
        fun _ there => Or.inl (List.mem_append_left _ there), fun row stored => ?_,
        fun receipt stored => ?_⟩
      · rcases List.mem_append.mp stored with before | isNew
        · exact Or.inl before
        · rw [List.mem_singleton.mp isNew]
          exact Or.inr unborn
      · rcases List.mem_append.mp stored with before | isNew
        · exact Or.inl before
        · rw [(mem_receiptRows.mp isNew).1]
          exact Or.inr unborn
    · rw [List.map_append, List.nodup_append]
      refine ⟨p.ids, List.nodup_singleton _, ?_⟩
      rintro other stored _ isNew rfl
      rw [List.map_singleton, List.mem_singleton] at isNew
      subst isNew
      exact fresh stored
    · exact receipts_once c p unborn
    · intro receipt stored
      rw [Database.groupMessageIds, List.map_append, List.mem_append]
      rcases List.mem_append.mp stored with before | isNew
      · exact Or.inl (p.addressed receipt before)
      · rw [(mem_receiptRows.mp isNew).1]
        exact Or.inr List.mem_cons_self
    · intro row stored
      rcases List.mem_append.mp stored with before | isNew
      · exact Or.inl before
      · rw [List.mem_singleton.mp isNew]
        exact Or.inr (.ends at_ rfl)
  · refine .settles at_ isCall rfl rfl ?_
    exact .stores _ _ _ _ _ id known (p.drawn.within n _ id at_ rfl).1 fresh

/-! ### Revocations -/

theorem revokes_nothing {board : Board} {messageId : MessageId} {senderId : UserId}
    (none_ : board.messages.any (sentAs messageId senderId) = false) :
    Noticeboard db board (.revokeGroupMessage messageId senderId) (.revoked false) board := by
  have did : revokeGroupMessage (board.on db) messageId senderId = (board.on db, false) := by
    have unsent : ¬ ((board.on db).groupMessages.any (sentAs messageId senderId)) = true := by
      rw [Bool.not_eq_true]
      exact none_
    exact if_neg unsent
  have served : Noticeboard db board _ _ _ := .revokes board messageId senderId
  rw [did] at served
  exact served

theorem stepped_revokeGroupMessage (p : Posting db calls W) {messageId : MessageId}
    {senderId : UserId}
    (at_ : W.sessions[n]? =
      some (.running (.statement (.revokeGroupMessage messageId senderId)) []))
    (isCall : calls[n]? = some (.revokeGroupMessage messageId senderId)) :
    Stepped db calls W (mailProgram.advance W n) n := by
  have compatible := Program.compatible_step mail_locking p.compatible n
  simp only [Program.advance, at_, mailProgram, nextMail, nextStatement, Program.view_nil]
    at compatible ⊢
  cases hit : W.committed.groupMessages.any (sentAs messageId senderId) with
  | true =>
      simp only [hit, if_true] at compatible ⊢
      obtain ⟨row, there, chosen⟩ := List.any_eq_true.mp hit
      obtain ⟨named, sent⟩ : row.id = messageId ∧ row.senderId = senderId := by
        simpa [sentAs] using chosen
      constructor
      · refine p.onward at_ isCall compatible ?_ ?_
        · refine .revoking _ _ ((named ▸ p.born row there).keep at_) fun other otherIn same => ?_
          rw [List.inj_on_of_nodup_map p.ids otherIn there (same.trans named.symm)]
          exact sent
        · rintro id ⟨⟩
      · exact .onward at_ rfl rfl
  | false =>
      simp only [hit] at compatible ⊢
      constructor
      · refine p.onward at_ isCall compatible (.ended _ _) ?_
        rintro id ⟨⟩
      · exact .settles at_ isCall rfl rfl (revokes_nothing hit)

theorem stepped_revoking (p : Posting db calls W) {messageId : MessageId} {senderId : UserId}
    (sent : ∀ row ∈ W.committed.groupMessages, row.id = messageId → row.senderId = senderId)
    (at_ : W.sessions[n]? = some (.running (.revoking messageId) []))
    (isCall : calls[n]? = some (.revokeGroupMessage messageId senderId)) :
    Stepped db calls W (mailProgram.advance W n) n := by
  have compatible := Program.compatible_step mail_locking p.compatible n
  simp only [Program.advance, at_, mailProgram, nextMail, Program.view_nil] at compatible ⊢
  by_cases held : Write.deleteMessage messageId ∈ Program.heldBesides W.sessions n
  · simp only [held, if_true]
    exact ⟨p, .quiet rfl rfl⟩
  · simp only [held, if_false] at compatible ⊢
    by_cases there : messageId ∈ W.committed.groupMessageIds
    · simp only [there, if_true] at compatible ⊢
      obtain ⟨row, stored, named⟩ := List.mem_map.mp there
      constructor
      · refine p.onward at_ isCall compatible ?_ ?_
        · refine Serving.cascading (W := ⟨W.committed, W.sessions.set n _⟩) _ _ row stored named
            (sent row stored named) [] (fun userId isTaken => absurd isTaken List.not_mem_nil) _
            fun receipt there isFor => Or.inr ?_
          exact List.mem_map_of_mem (List.mem_filter.mpr ⟨there, decide_eq_true isFor⟩)
        · rintro id ⟨⟩
      · exact .onward at_ rfl rfl
    · simp only [there, if_false] at compatible ⊢
      constructor
      · refine p.onward at_ isCall compatible (.ended _ _) ?_
        rintro id ⟨⟩
      · refine .settles at_ isCall rfl rfl (revokes_nothing ?_)
        rw [List.any_eq_false]
        intro row stored chosen
        have named : row.id = messageId := by
          simp only [sentAs, Bool.and_eq_true, decide_eq_true_eq] at chosen
          exact chosen.1
        exact there (named ▸ List.mem_map_of_mem stored)

/-- The receipts a session has deleted are out of its sight. -/
theorem view_taken (messageId : MessageId) (taken : List UserId) (before : Database) :
    mailProgram.view before (taken.map (.deleteReceipt messageId)) =
      { before with groupMessageReceipts := before.groupMessageReceipts.filter fun receipt =>
          receipt.messageId ≠ messageId ∨ receipt.userId ∉ taken } := by
  induction taken generalizing before with
  | nil => simp [Program.view]
  | cons userId taken ih =>
      rw [List.map_cons, Program.view_cons, ih]
      simp only [mailProgram, writeMail, Database.deleteReceipt, List.filter_filter]
      congr 1
      apply List.filter_congr
      rintro ⟨id, uid⟩ -
      by_cases named : id = messageId <;> by_cases same : uid = userId <;> simp [named, same]

theorem view_cascading (messageId : MessageId) (taken : List UserId) (before : Database) :
    mailProgram.view before (.deleteMessage messageId :: taken.map (.deleteReceipt messageId)) =
      { before with
        groupMessages := before.groupMessages.filter fun row => row.id ≠ messageId
        groupMessageReceipts := before.groupMessageReceipts.filter fun receipt =>
          receipt.messageId ≠ messageId ∨ receipt.userId ∉ taken } := by
  rw [Program.view_cons, view_taken]
  rfl

/-- With all receipts of the message taken, the rows are as `revoke_group_message` leaves them. -/
theorem revokes_message {board : Board} (ids : (board.messages.map GroupMessage.id).Nodup)
    {messageId : MessageId} {senderId : UserId} {row : GroupMessage} (there : row ∈ board.messages)
    (named : row.id = messageId) (sent : row.senderId = senderId) :
    Noticeboard db board (.revokeGroupMessage messageId senderId) (.revoked true)
      ⟨board.messages.filter fun row => row.id ≠ messageId,
        board.receipts.filter fun receipt => receipt.messageId ≠ messageId⟩ := by
  have chosen : ∀ other ∈ board.messages,
      sentAs messageId senderId other = decide (other.id = messageId) := by
    intro other otherIn
    by_cases hit : other.id = messageId
    · have same : other = row := List.inj_on_of_nodup_map ids otherIn there (hit.trans named.symm)
      simp [sentAs, same, sent, named]
    · simp [sentAs, hit]
  have found : board.messages.any (sentAs messageId senderId) = true :=
    List.any_eq_true.mpr ⟨row, there, by rw [chosen row there, named, decide_eq_true rfl]⟩
  have gone : ∀ id, Database.groupMessageGone (board.on db) (sentAs messageId senderId) id =
      decide (id = messageId) := by
    intro id
    rw [Bool.eq_iff_iff, Database.groupMessageGone_iff, decide_eq_true_iff]
    constructor
    · rintro ⟨other, otherIn, isChosen, rfl⟩
      rw [chosen other otherIn] at isChosen
      exact of_decide_eq_true isChosen
    · rintro rfl
      exact ⟨row, there, by rw [chosen row there, named, decide_eq_true rfl], named⟩
  have did : revokeGroupMessage (board.on db) messageId senderId =
      ((board.on db).deleteGroupMessagesWhere (sentAs messageId senderId), true) :=
    if_pos found
  have served : Noticeboard db board _ _ _ := .revokes board messageId senderId
  rw [did] at served
  have messages : (board.messages.filter fun other => !sentAs messageId senderId other) =
      board.messages.filter fun other => other.id ≠ messageId :=
    List.filter_congr fun other otherIn => by rw [chosen other otherIn, decide_not]
  have receipts : (board.receipts.filter fun receipt =>
      !Database.groupMessageGone (board.on db) (sentAs messageId senderId) receipt.messageId) =
      board.receipts.filter fun receipt => receipt.messageId ≠ messageId :=
    List.filter_congr fun receipt _ => by rw [gone, decide_not]
  rw [← messages, ← receipts]
  exact served

theorem mem_view_cascading {messageId : MessageId} {taken : List UserId} {before : Database}
    {userId : UserId} :
    ⟨messageId, userId⟩ ∈ (mailProgram.view before
      (.deleteMessage messageId :: taken.map (.deleteReceipt messageId))).groupMessageReceipts ↔
      ⟨messageId, userId⟩ ∈ before.groupMessageReceipts ∧ userId ∉ taken := by
  rw [view_cascading]
  simp

/-- One receipt more is deleted, or found gone. -/
theorem stepped_cascade (p : Posting db calls W) {messageId : MessageId} {senderId : UserId}
    {row : GroupMessage} (there : row ∈ W.committed.groupMessages) (named : row.id = messageId)
    (sent : row.senderId = senderId) {taken : List UserId}
    (waiting : ∀ userId ∈ taken, ⟨messageId, userId⟩ ∈ W.committed.groupMessageReceipts)
    {userId : UserId} {pending : List UserId}
    (complete : ∀ receipt ∈ W.committed.groupMessageReceipts, receipt.messageId = messageId →
      receipt.userId ∈ taken ∨ receipt.userId ∈ userId :: pending)
    (at_ : W.sessions[n]? = some (.running
      (.cascading messageId (userId :: pending) (.revoked true))
      (.deleteMessage messageId :: taken.map (.deleteReceipt messageId))))
    (isCall : calls[n]? = some (.revokeGroupMessage messageId senderId)) :
    Stepped db calls W (mailProgram.advance W n) n := by
  have compatible := Program.compatible_step mail_locking p.compatible n
  have inSight := @mem_view_cascading messageId taken W.committed userId
  simp only [Program.advance, at_] at compatible ⊢
  generalize mailProgram.view W.committed (.deleteMessage messageId ::
    taken.map (.deleteReceipt messageId)) = view at inSight compatible ⊢
  simp only [mailProgram, nextMail, inSight] at compatible ⊢
  by_cases left : ⟨messageId, userId⟩ ∈ W.committed.groupMessageReceipts ∧ userId ∉ taken
  · simp only [left] at compatible ⊢
    by_cases held : Write.deleteReceipt messageId userId ∈ Program.heldBesides W.sessions n
    · simp only [held, if_true]
      exact ⟨p, .quiet rfl rfl⟩
    · simp only [held, if_false] at compatible ⊢
      have more : Write.deleteMessage messageId :: taken.map (.deleteReceipt messageId) ++
          [.deleteReceipt messageId userId] =
          .deleteMessage messageId :: (taken ++ [userId]).map (.deleteReceipt messageId) := by
        simp
      rw [more] at compatible ⊢
      constructor
      · refine p.onward at_ isCall compatible ?_ ?_
        · refine Serving.cascading (W := ⟨W.committed, W.sessions.set n _⟩) _ _ row there named
            sent _ (fun uid isTaken => ?_) _ fun receipt stored isFor => ?_
          · rcases List.mem_append.mp isTaken with before | isNew
            · exact waiting uid before
            · rw [List.mem_singleton.mp isNew]
              exact left.1
          · rcases complete receipt stored isFor with isTaken | isPending
            · exact Or.inl (List.mem_append_left _ isTaken)
            · rcases List.mem_cons.mp isPending with isNow | later
              · exact Or.inl (List.mem_append_right _ (isNow ▸ List.mem_cons_self))
              · exact Or.inr later
        · rintro id ⟨⟩
      · exact .onward at_ rfl rfl
  · simp only [left, not_false_eq_true, if_true] at compatible ⊢
    constructor
    · refine p.onward at_ isCall compatible ?_ ?_
      · refine Serving.cascading (W := ⟨W.committed, W.sessions.set n _⟩) _ _ row there named sent _
          waiting _ fun receipt stored isFor => ?_
        rcases complete receipt stored isFor with isTaken | isPending
        · exact Or.inl isTaken
        · rcases List.mem_cons.mp isPending with isNow | later
          · refine Or.inl ?_
            by_contra untaken
            rw [← isFor, ← isNow] at left
            exact left ⟨stored, untaken⟩
          · exact Or.inr later
      · rintro id ⟨⟩
    · exact .onward at_ rfl rfl

/-- The commit of a revocation: every receipt of the message is taken. -/
theorem stepped_revoked (p : Posting db calls W) {messageId : MessageId} {senderId : UserId}
    {row : GroupMessage} (there : row ∈ W.committed.groupMessages) (named : row.id = messageId)
    (sent : row.senderId = senderId) {taken : List UserId}
    (complete : ∀ receipt ∈ W.committed.groupMessageReceipts, receipt.messageId = messageId →
      receipt.userId ∈ taken)
    (at_ : W.sessions[n]? = some (.running (.cascading messageId [] (.revoked true))
      (.deleteMessage messageId :: taken.map (.deleteReceipt messageId))))
    (isCall : calls[n]? = some (.revokeGroupMessage messageId senderId)) :
    Stepped db calls W (mailProgram.advance W n) n := by
  have compatible := Program.compatible_step mail_locking p.compatible n
  have allTaken : (W.committed.groupMessageReceipts.filter fun receipt =>
      receipt.messageId ≠ messageId ∨ receipt.userId ∉ taken) =
      W.committed.groupMessageReceipts.filter fun receipt => receipt.messageId ≠ messageId := by
    apply List.filter_congr
    intro receipt stored
    by_cases isFor : receipt.messageId = messageId
    · simp [isFor, complete receipt stored isFor]
    · simp [isFor]
  have seen := view_cascading messageId taken W.committed
  rw [allTaken] at seen
  simp only [Program.advance, at_, seen] at compatible ⊢
  simp only [mailProgram, nextMail] at compatible ⊢
  constructor
  · refine p.shrink at_ isCall ?_ compatible rfl rfl List.filter_sublist List.filter_sublist ?_
    · refine ⟨rfl, rfl, rfl, fun other otherIn => ?_, fun receipt stored => ?_,
        fun other kept => Or.inl (List.mem_of_mem_filter kept),
        fun receipt kept => Or.inl (List.mem_of_mem_filter kept)⟩
      · by_cases hit : other.id = messageId
        · exact Or.inr (hit ▸ List.mem_cons_self)
        · exact Or.inl (List.mem_filter.mpr ⟨otherIn, by simpa using hit⟩)
      · by_cases isFor : receipt.messageId = messageId
        · refine Or.inr (List.mem_cons_of_mem _ ?_)
          rw [isFor]
          exact List.mem_map_of_mem (complete receipt stored isFor)
        · exact Or.inl (List.mem_filter.mpr ⟨stored, by simpa using isFor⟩)
    · intro receipt kept
      obtain ⟨stored, differs⟩ := List.mem_filter.mp kept
      obtain ⟨message, inTable, same⟩ := List.mem_map.mp (p.addressed receipt stored)
      refine List.mem_map.mpr ⟨message, List.mem_filter.mpr ⟨inTable, ?_⟩, same⟩
      rw [same]
      exact differs
  · exact .settles at_ isCall rfl rfl (revokes_message p.ids there named sent)

/-! ### Receipts -/

theorem stepped_recordGroupReceipt (p : Posting db calls W) {messageId : MessageId}
    {userId : UserId}
    (at_ : W.sessions[n]? =
      some (.running (.statement (.recordGroupReceipt messageId userId)) []))
    (isCall : calls[n]? = some (.recordGroupReceipt messageId userId)) :
    Stepped db calls W (mailProgram.advance W n) n := by
  have compatible := Program.compatible_step mail_locking p.compatible n
  simp only [Program.advance, at_, mailProgram, nextMail, nextStatement, Program.view_nil]
    at compatible ⊢
  by_cases held : Write.deleteReceipt messageId userId ∈ Program.heldBesides W.sessions n
  · simp only [held, if_true]
    exact ⟨p, .quiet rfl rfl⟩
  · simp only [held, if_false] at compatible ⊢
    by_cases waiting : (⟨messageId, userId⟩ : GroupMessageReceipt) ∈
        W.committed.groupMessageReceipts
    · simp only [waiting, if_true] at compatible ⊢
      constructor
      · refine p.onward at_ isCall compatible (.acknowledged _ _ waiting) ?_
        rintro id ⟨⟩
      · exact .onward at_ rfl rfl
    · simp only [waiting, if_false] at compatible ⊢
      constructor
      · refine p.onward at_ isCall compatible (.ended _ _) ?_
        rintro id ⟨⟩
      · exact .settles at_ isCall rfl rfl (.unknown _ _ _ _ (if_neg waiting))

/-- What is left to read when one receipt is out of sight. -/
theorem read_iff {before : Database} {messageId : MessageId} {userId : UserId} :
    Acknowledge.Read (before.deleteReceipt messageId userId) messageId ↔
      ∀ receipt ∈ before.groupMessageReceipts, receipt.messageId = messageId →
        receipt.userId = userId := by
  constructor
  · intro read receipt stored isFor
    by_contra other
    refine read receipt (List.mem_filter.mpr ⟨stored, ?_⟩) isFor
    rw [decide_eq_true_iff]
    rintro rfl
    exact other rfl
  · rintro last ⟨id, uid⟩ left rfl
    obtain ⟨stored, differs⟩ := List.mem_filter.mp left
    have same : uid = userId := last _ stored rfl
    rw [same] at differs
    simp at differs

/-- A message that is read cascades to nothing. -/
theorem pendingReceipts_read {view : Database} {messageId : MessageId}
    (read : Acknowledge.Read view messageId) : pendingReceipts view messageId = [] := by
  rw [pendingReceipts, List.map_eq_nil_iff, List.filter_eq_nil_iff]
  intro receipt there isFor
  exact read receipt there (of_decide_eq_true isFor)

theorem stepped_acknowledged (p : Posting db calls W) {messageId : MessageId} {userId : UserId}
    (waiting : ⟨messageId, userId⟩ ∈ W.committed.groupMessageReceipts)
    (at_ : W.sessions[n]? = some (.running (.acknowledged messageId userId)
      [.deleteReceipt messageId userId]))
    (isCall : calls[n]? = some (.recordGroupReceipt messageId userId)) :
    Stepped db calls W (mailProgram.advance W n) n := by
  have compatible := Program.compatible_step mail_locking p.compatible n
  have there : messageId ∈ (W.committed.deleteReceipt messageId userId).groupMessageIds :=
    p.addressed _ waiting
  simp only [Program.advance, at_, mailProgram, nextMail, Program.view_cons, Program.view_nil,
    writeMail, there, true_and] at compatible ⊢
  by_cases last : Acknowledge.Read (W.committed.deleteReceipt messageId userId) messageId
  · simp only [last, if_true, pendingReceipts_read last] at compatible ⊢
    by_cases held : Write.deleteMessage messageId ∈ Program.heldBesides W.sessions n
    · simp only [held, if_true]
      exact ⟨p, .quiet rfl rfl⟩
    · simp only [held, if_false] at compatible ⊢
      constructor
      · refine p.onward at_ isCall compatible (.read _ _ waiting (read_iff.mp last)) ?_
        rintro id ⟨⟩
      · exact .onward at_ rfl rfl
  · simp only [last, if_false] at compatible ⊢
    constructor
    · refine p.onward at_ isCall compatible (.unread _ _ waiting) ?_
      rintro id ⟨⟩
    · exact .onward at_ rfl rfl

/-- One receipt goes. -/
theorem changes_receipt (messageId : MessageId) (userId : UserId) (others : List Write) :
    Changes db W (.deleteReceipt messageId userId :: others)
      (W.committed.deleteReceipt messageId userId) where
  users := rfl
  groups := rfl
  members := rfl
  message := fun _ there => Or.inl there
  receipt := by
    rintro ⟨id, uid⟩ there
    by_cases same : (⟨id, uid⟩ : GroupMessageReceipt) = ⟨messageId, userId⟩
    · cases same
      exact Or.inr List.mem_cons_self
    · exact Or.inl (List.mem_filter.mpr ⟨there, decide_eq_true same⟩)
  newMessage := fun _ there => Or.inl there
  newReceipt := fun _ there => Or.inl (List.mem_of_mem_filter there)

/-- A receipt that takes no message: there are others, or the message stays behind. -/
theorem acknowledges_one {board : Board} {messageId : MessageId} {userId : UserId}
    (waiting : ⟨messageId, userId⟩ ∈ board.receipts) :
    Noticeboard db board (.recordGroupReceipt messageId userId) .recorded
      ⟨board.messages, board.receipts.filter fun receipt => receipt ≠ ⟨messageId, userId⟩⟩ := by
  by_cases last : Acknowledge.Read ((board.on db).deleteReceipt messageId userId) messageId
  · exact .leavesMessage board messageId userId waiting last
  · have known : ⟨messageId, userId⟩ ∈ (board.on db).groupMessageReceipts := waiting
    have done : recordGroupReceipt (board.on db) messageId userId =
        .ok ((board.on db).deleteReceipt messageId userId) := by
      rw [recordGroupReceipt, if_pos known,
        Acknowledge.deleteMessageIfRead_kept fun both => last both.2]
    exact .acknowledges board messageId userId ((board.on db).deleteReceipt messageId userId) done

/-- The last receipt takes the message with it. -/
theorem acknowledges_last {board : Board} {messageId : MessageId} {userId : UserId}
    (waiting : ⟨messageId, userId⟩ ∈ board.receipts)
    (last : ∀ receipt ∈ board.receipts, receipt.messageId = messageId → receipt.userId = userId) :
    Noticeboard db board (.recordGroupReceipt messageId userId) .recorded
      ⟨board.messages.filter fun row => row.id ≠ messageId,
        board.receipts.filter fun receipt => receipt ≠ ⟨messageId, userId⟩⟩ := by
  have known : ⟨messageId, userId⟩ ∈ (board.on db).groupMessageReceipts := waiting
  have read : Acknowledge.Read ((board.on db).deleteReceipt messageId userId) messageId :=
    read_iff.mpr last
  generalize isLeft : (board.on db).deleteReceipt messageId userId = left at read
  have done : recordGroupReceipt (board.on db) messageId userId =
      .ok (left.deleteGroupMessagesWhere fun row => row.id = messageId) := by
    rw [recordGroupReceipt, if_pos known, isLeft, Acknowledge.deleteMessageIfRead_read read]
  have receipts : (left.groupMessageReceipts.filter fun receipt =>
      !left.groupMessageGone (fun row => row.id = messageId) receipt.messageId) =
      left.groupMessageReceipts := by
    apply List.filter_eq_self.mpr
    intro receipt there
    rw [Bool.not_eq_true', ← Bool.not_eq_true, Database.groupMessageGone_iff]
    rintro ⟨row, -, isNamed, same⟩
    exact read receipt there (same.symm.trans (of_decide_eq_true isNamed))
  have messages : (left.groupMessages.filter fun row => !decide (row.id = messageId)) =
      left.groupMessages.filter fun row => row.id ≠ messageId :=
    List.filter_congr fun row _ => by rw [decide_not]
  have rows : Board.of (left.deleteGroupMessagesWhere fun row => row.id = messageId) =
      ⟨left.groupMessages.filter fun row => row.id ≠ messageId, left.groupMessageReceipts⟩ := by
    rw [Board.of, Database.deleteGroupMessagesWhere, receipts, messages]
  have served : Noticeboard db board _ _ _ := .acknowledges board messageId userId _ done
  rw [rows, ← isLeft] at served
  exact served

/-- The commit of a receipt that saw others: they may have gone since, and then the
message stays. -/
theorem stepped_unread (p : Posting db calls W) {messageId : MessageId} {userId : UserId}
    (waiting : ⟨messageId, userId⟩ ∈ W.committed.groupMessageReceipts)
    (at_ : W.sessions[n]? = some (.running (.committing .recorded)
      [.deleteReceipt messageId userId]))
    (isCall : calls[n]? = some (.recordGroupReceipt messageId userId)) :
    Stepped db calls W (mailProgram.advance W n) n := by
  have compatible := Program.compatible_step mail_locking p.compatible n
  simp only [Program.advance, at_, mailProgram, nextMail, Program.view_cons, Program.view_nil,
    writeMail] at compatible ⊢
  constructor
  · refine p.shrink at_ isCall (changes_receipt messageId userId []) compatible rfl rfl
      (List.Sublist.refl _) List.filter_sublist fun receipt stored => ?_
    exact p.addressed receipt (List.mem_of_mem_filter stored)
  · exact .settles at_ isCall rfl rfl (acknowledges_one waiting)

theorem stepped_read (p : Posting db calls W) {messageId : MessageId} {userId : UserId}
    (waiting : ⟨messageId, userId⟩ ∈ W.committed.groupMessageReceipts)
    (last : ∀ receipt ∈ W.committed.groupMessageReceipts, receipt.messageId = messageId →
      receipt.userId = userId)
    (at_ : W.sessions[n]? = some (.running (.cascading messageId [] .recorded)
      [.deleteReceipt messageId userId, .deleteMessage messageId]))
    (isCall : calls[n]? = some (.recordGroupReceipt messageId userId)) :
    Stepped db calls W (mailProgram.advance W n) n := by
  have compatible := Program.compatible_step mail_locking p.compatible n
  have read := read_iff.mpr last
  simp only [Program.advance, at_, mailProgram, nextMail, Program.view_cons, Program.view_nil,
    writeMail] at compatible ⊢
  constructor
  · refine p.shrink at_ isCall ?_ compatible rfl rfl List.filter_sublist List.filter_sublist ?_
    · have goes : Changes db W [.deleteReceipt messageId userId, .deleteMessage messageId]
          (W.committed.deleteReceipt messageId userId) := changes_receipt ..
      refine { goes with message := fun row there => ?_, newMessage := fun row kept => ?_ }
      · by_cases hit : row.id = messageId
        · exact Or.inr (hit ▸ List.mem_cons_of_mem _ List.mem_cons_self)
        · exact Or.inl (List.mem_filter.mpr ⟨there, by simpa using hit⟩)
      · exact Or.inl (List.mem_of_mem_filter kept)
    · intro receipt kept
      obtain ⟨row, inTable, same⟩ :=
        List.mem_map.mp (p.addressed receipt (List.mem_of_mem_filter kept))
      refine List.mem_map.mpr ⟨row, List.mem_filter.mpr ⟨inTable, ?_⟩, same⟩
      rw [same]
      exact decide_eq_true (read receipt kept)
  · exact .settles at_ isCall rfl rfl (acknowledges_last waiting last)

/-- **Each step settles nothing, or what the methods answer one after the other.** -/
theorem stepped (c : Constraints db) (p : Posting db calls W) (n : Nat) :
    Stepped db calls W (mailProgram.advance W n) n := by
  cases at_ : W.sessions[n]? with
  | none =>
      simp only [Program.advance, at_]
      exact ⟨p, .quiet rfl rfl⟩
  | some session =>
      obtain ⟨call, isCall, served⟩ := p.serving n session at_
      cases served with
      | begun =>
          cases call with
          | storeGroupMessage => exact stepped_storeGroupMessage p at_ isCall
          | getGroupMessages => exact stepped_getGroupMessages p at_ isCall
          | revokeGroupMessage => exact stepped_revokeGroupMessage p at_ isCall
          | recordGroupReceipt => exact stepped_recordGroupReceipt p at_ isCall
      | inserted _ _ _ _ _ known => exact stepped_inserted c p known at_ isCall
      | addressed _ _ _ _ _ known => exact stepped_addressed c p known at_ isCall
      | revoking _ _ _ sent => exact stepped_revoking p sent at_ isCall
      | cascading _ _ _ there named sent _ waiting pending complete =>
          cases pending with
          | nil =>
              refine stepped_revoked p there named sent (fun receipt stored isFor => ?_) at_ isCall
              exact (complete receipt stored isFor).resolve_right List.not_mem_nil
          | cons => exact stepped_cascade p there named sent waiting complete at_ isCall
      | acknowledged _ _ waiting => exact stepped_acknowledged p waiting at_ isCall
      | unread _ _ waiting => exact stepped_unread p waiting at_ isCall
      | read _ _ waiting last => exact stepped_read p waiting last at_ isCall
      | ended =>
          simp only [Program.advance, at_]
          exact ⟨p, .quiet rfl rfl⟩

end Steps

/-! ## Every run -/

section Runs

variable {db : Database} {calls : List Call}

theorem opened_at {n : Nat} {session : Session Point Write Answer}
    (at_ : (opened db calls).sessions[n]? = some session) :
    ∃ call, calls[n]? = some call ∧ session = .running (.statement call) [] := by
  simp only [opened, List.getElem?_map, Option.map_eq_some_iff] at at_
  obtain ⟨call, isCall, rfl⟩ := at_
  exact ⟨call, isCall, rfl⟩

theorem posting_opened (c : Constraints db) : Posting db calls (opened db calls) where
  users := rfl
  groups := rfl
  members := rfl
  ids := c.groupMessages.keys_nodup
  once := c.groupMessageReceipts
  addressed := fun receipt stored => (c.receipt_exists stored).1
  born := fun row stored => Or.inl (c.nextGroupMessage row stored)
  drawn := by
    refine ⟨le_refl _, ?_, ?_⟩
    · intro n session id at_ isDrawn
      obtain ⟨call, -, rfl⟩ := opened_at at_
      cases isDrawn
    · intro n m session other id at_ _ isDrawn
      obtain ⟨call, -, rfl⟩ := opened_at at_
      cases isDrawn
  serving := by
    intro n session at_
    obtain ⟨call, isCall, rfl⟩ := opened_at at_
    exact ⟨call, isCall, .begun call⟩
  compatible := by
    intro n m point own point' own' _ at_ _ wr holds
    obtain ⟨call, -, same⟩ := opened_at at_
    cases same
    cases holds

theorem mail_linearizable (c : Constraints db) (calls : List Call) :
    mailProgram.Linearizable settled (Noticeboard db) calls Board.of (opened db calls)
      (Posting db calls) where
  ends := fun _ => rfl
  fresh := by
    refine fun n => Program.settledAt_none fun session at_ => ?_
    obtain ⟨call, -, rfl⟩ := opened_at at_
    rfl
  holds := posting_opened c
  keeps := fun _ n p => (stepped c p n).posting
  effect := fun _ n p => (stepped c p n).effect

/-- **Group mail is linearizable**, and no id is given to two messages. -/
theorem groupMail_linearized (ops : List Operation) (calls : List Call) (schedule : List Nat) :
    mailProgram.Linearized settled (Noticeboard (service.run ops)) calls Board.of
        (opened (service.run ops) calls) schedule ∧
      ∀ (n m : Nat) (row row' : GroupMessage), row.id = row'.id →
        ((mail (service.run ops) calls).run schedule).sessions[n]? = some (.ended (.stored row)) →
        ((mail (service.run ops) calls).run schedule).sessions[m]? = some (.ended (.stored row')) →
          n = m := by
  have law := mail_linearizable (reachable ops).constraints calls
  refine ⟨law.linearized schedule, fun n m row row' same one other => ?_⟩
  exact (law.reached schedule).drawn.once n m _ _ row.id one other rfl (congrArg some same.symm)

end Runs

end Mail

end SecureMsg.Groups
