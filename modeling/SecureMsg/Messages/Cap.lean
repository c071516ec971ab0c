/-
# Messages.Cap — the inbox cap under concurrent sends

`store_message` counts and inserts in one statement, but the count is of the rows
committed as the statement starts; two sends that overlap each count without the
other.  This module runs the message repository's transactions statement by
statement (`mail`) and says when the cap holds.

A `Tally` beside the run counts, per inbox, the stores and the deletions that
have committed, and notes for each send what it saw and where the counts stood.
`cap_iff`: the cap holds in every committed state iff each send that others overtook,
between its statement and its commit, still had a place: one that it saw free or one
freed since.  Of the sends that nothing overtook nothing is asked, the statement's own
count keeps them in bounds.
-/
import SecureMsg.Theory.Transactions
import SecureMsg.Messages.Inbox

namespace SecureMsg.Messages

open SecureMsg.Theory SecureMsg.Store SecureMsg.Repository

set_option autoImplicit false

/-! ## The transactions -/

inductive Call where
  | storeMessage (senderId recipientId : UserId) (ciphertext ratchetHeaderEnc : Bytes)
  | deleteMessage (messageId : MessageId) (owner : OwnerField) (userId : UserId)
  deriving DecidableEq, Repr

inductive Point where
  | statement (call : Call)
  /-- Inserted, not committed. -/
  | stored (row : Message)
  /-- Chosen on the snapshot; the row may be locked. -/
  | locking (messageId : MessageId)
  /-- Deleted, or found gone, not committed. -/
  | deleted (messageId : Option MessageId)
  deriving DecidableEq, Repr

inductive Write where
  | insertMessage (row : Message)
  | deleteMessage (messageId : MessageId)
  deriving DecidableEq, Repr

/-- What the method returned or raised. -/
inductive Answer where
  | stored (id : MessageId)
  | deleted (found : Bool)
  | raised (e : Error)
  deriving DecidableEq, Repr

def writeMail (db : Database) : Write → Database
  | .insertMessage row => { db with messages := db.messages ++ [row] }
  | .deleteMessage messageId => { db with messages := db.messages.filter fun row => row.id ≠ messageId }

def drawMessageId (db : Database) : Database :=
  { db with sequences := { db.sequences with messages := db.sequences.messages + 1 } }

@[simp] theorem drawMessageId_messages (db : Database) : (drawMessageId db).messages = db.messages :=
  rfl

def nextMail (point : Point) (own : List Write) (view : Database) (held : List Write) :
    Action Database Point Write Answer :=
  match point with
  | .statement (.storeMessage senderId recipientId ciphertext ratchetHeaderEnc) =>
      match storeMessage view senderId recipientId ciphertext ratchetHeaderEnc with
      | .ok (_, id) =>
          let row : Message := ⟨id, senderId, recipientId, ciphertext, ratchetHeaderEnc⟩
          .proceed drawMessageId (.stored row) (own ++ [.insertMessage row])
      | .error e => .rollback (.raised e)
  | .stored row => .commit (.stored row.id)
  | .statement (.deleteMessage messageId owner userId) =>
      if view.messages.any (ownedBy messageId owner userId) then .proceed id (.locking messageId) own
      else .proceed id (.deleted none) own
  | .locking messageId =>
      if .deleteMessage messageId ∈ held then .wait
      else if messageId ∈ view.messages.map Message.id then
        .proceed id (.deleted (some messageId)) (own ++ [.deleteMessage messageId])
      else .proceed id (.deleted none) own
  | .deleted messageId => .commit (.deleted messageId.isSome)

def mailProgram : Program Database Point Write Answer := ⟨writeMail, nextMail⟩

abbrev MailWorld := World Database Point Write Answer

/-- One session for each call, none of which has started. -/
def opened (db : Database) (calls : List Call) : MailWorld :=
  ⟨db, calls.map fun call => .running (.statement call) []⟩

def mail (db : Database) (calls : List Call) : System MailWorld Nat :=
  mailProgram.system (opened db calls)

/-! ## A session on its own -/

section Alone

variable {db after : Database}

theorem store_alone {senderId recipientId : UserId} {ciphertext ratchetHeaderEnc : Bytes}
    {id : MessageId}
    (stores : storeMessage db senderId recipientId ciphertext ratchetHeaderEnc = .ok (after, id)) :
    (mail db [.storeMessage senderId recipientId ciphertext ratchetHeaderEnc]).run [0, 0] =
      ⟨after, [.ended (.stored id)]⟩ := by
  obtain ⟨-, row, inserted, rfl⟩ := storeMessage_ok stores
  obtain ⟨-, rfl, rfl⟩ := Database.insertMessage_ok.mp inserted
  simp [mail, System.run, opened, Program.advance, mailProgram, nextMail, stores, writeMail,
    drawMessageId]

theorem store_alone_refused {senderId recipientId : UserId} {ciphertext ratchetHeaderEnc : Bytes}
    {e : Error}
    (refused : storeMessage db senderId recipientId ciphertext ratchetHeaderEnc = .error e) :
    (mail db [.storeMessage senderId recipientId ciphertext ratchetHeaderEnc]).run [0, 0] =
      ⟨db, [.ended (.raised e)]⟩ := by
  simp [mail, System.run, opened, Program.advance, mailProgram, nextMail, refused]

theorem delete_alone (c : Constraints db) (messageId : MessageId) (owner : OwnerField)
    (userId : UserId) :
    (mail db [.deleteMessage messageId owner userId]).run [0, 0, 0] =
      ⟨(deleteMessage db messageId owner userId).1,
        [.ended (.deleted (deleteMessage db messageId owner userId).2)]⟩ := by
  cases found : (deleteMessage db messageId owner userId).2 with
  | false =>
      have none_ : db.messages.any (ownedBy messageId owner userId) = false := found
      rw [deleteMessage_quiet found]
      simp [mail, System.run, opened, Program.advance, mailProgram, nextMail, none_]
  | true =>
      have some_ : db.messages.any (ownedBy messageId owner userId) = true := found
      obtain ⟨row, inTable, named, -⟩ := deleteMessage_found.mp found
      have listed : messageId ∈ db.messages.map Message.id := named ▸ List.mem_map_of_mem inTable
      rw [deleteMessage_removes c found]
      simp only [mail, System.run, opened, mailProgram, List.foldl_cons, List.foldl_nil]
      simp [Program.advance, nextMail, some_, Program.heldBesides, writeMail, listed]

end Alone

/-! ## Counting commits -/

/-- What a send saw as its statement started: the length of the inbox, and how many
stores and deletions in it had committed by then. -/
structure Mark where
  seen : Nat
  stored : Nat
  deleted : Nat

/-- Committed so far: the stores and deletions in each inbox; and the mark of each
session. -/
structure Tally where
  stored : UserId → Nat := fun _ => 0
  deleted : UserId → Nat := fun _ => 0
  marks : Nat → Mark := fun _ => ⟨0, 0, 0⟩

/-- The rows of a user's inbox that a deletion of `messageId` takes. -/
def taken (db : Database) (userId : UserId) (messageId : MessageId) : Nat :=
  ((inbox db userId).filter fun row => row.id = messageId).length

def noteTally (W : MailWorld) (n : Nat) (tally : Tally) : Tally :=
  match W.sessions[n]? with
  | some (.running (.statement (.storeMessage _ recipientId _ _)) _) => { tally with
      marks := Function.update tally.marks n
        ⟨(inbox W.committed recipientId).length, tally.stored recipientId,
          tally.deleted recipientId⟩ }
  | some (.running (.stored row) _) => { tally with
      stored := Function.update tally.stored row.recipientId (tally.stored row.recipientId + 1) }
  | some (.running (.deleted (some messageId)) _) => { tally with
      deleted := fun userId => tally.deleted userId + taken W.committed userId messageId }
  | _ => tally

section Cap

variable (db : Database) (calls : List Call)

def tallyOf (schedule : List Nat) : Tally := (mail db calls).observe noteTally {} schedule

/-- No inbox holds more than `inbox_max_messages`. -/
def WithinCap (db : Database) : Prop :=
  ∀ userId, (inbox db userId).length ≤ inboxMaxMessages

/-- If session `n` is about to commit a store and stores to the same inbox have committed
since its statement, they are fewer than the places it saw free and those freed since. -/
def LeavesRoom (earlier : List Nat) (n : Nat) : Prop :=
  ∀ row own, ((mail db calls).run earlier).sessions[n]? = some (.running (.stored row) own) →
    let tally := tallyOf db calls earlier
    let mark := tally.marks n
    let storedSince := tally.stored row.recipientId - mark.stored
    let deletedSince := tally.deleted row.recipientId - mark.deleted
    0 < storedSince → storedSince < (inboxMaxMessages - mark.seen) + deletedSince

/-! ## The tally is right -/

/-- The writes of a session are told by the point it is at. -/
def ownOf : Point → List Write
  | .stored row => [.insertMessage row]
  | .deleted (some messageId) => [.deleteMessage messageId]
  | .statement _ | .locking _ | .deleted none => []

/-- What the tally knows of session `n`: at a stored row the mark is of a moment when
`store_message` counted fewer rows than the cap and the balance held, and the counts have
only grown since. -/
def Marked (tally : Tally) (n : Nat) : Session Point Write Answer → Prop
  | .running point own => own = ownOf point ∧ ∀ row, point = .stored row →
      (tally.marks n).seen < inboxMaxMessages ∧
        (tally.marks n).seen + (tally.marks n).deleted =
          (inbox db row.recipientId).length + (tally.marks n).stored ∧
        (tally.marks n).stored ≤ tally.stored row.recipientId ∧
        (tally.marks n).deleted ≤ tally.deleted row.recipientId
  | .ended _ => True

structure Tallied (W : MailWorld) (tally : Tally) : Prop where
  balance : ∀ u, (inbox W.committed u).length + tally.deleted u =
    (inbox db u).length + tally.stored u
  marked : ∀ (n : Nat) session, W.sessions[n]? = some session → Marked db tally n session

variable {db calls}

theorem inbox_stored (before : Database) (row : Message) (u : UserId) :
    inbox { before with messages := before.messages ++ [row] } u =
      if row.recipientId = u then inbox before u ++ [row] else inbox before u := by
  by_cases mine : row.recipientId = u <;> simp [inbox, mine]

theorem inbox_taken (before : Database) (messageId : MessageId) (u : UserId) :
    (inbox { before with messages := before.messages.filter fun row => row.id ≠ messageId } u).length +
      taken before u messageId = (inbox before u).length := by
  have rest : inbox { before with
      messages := before.messages.filter fun row => row.id ≠ messageId } u =
      (inbox before u).filter fun row => !decide (row.id = messageId) := by
    simp only [inbox, ne_eq, decide_not]
    exact List.filter_comm _ _ _
  rw [rest, taken, List.length_eq_length_filter_add (l := inbox before u)
    fun row => decide (row.id = messageId), Nat.add_comm]

/-- One session replaced: the counts may have grown, the other marks stay. -/
theorem Tallied.replace {W : MailWorld} {tally : Tally} (t : Tallied db W tally) {n : Nat}
    {s s' : Session Point Write Answer} (at_ : W.sessions[n]? = some s) {after : Database}
    {tally' : Tally} (marks : ∀ m ≠ n, tally'.marks m = tally.marks m)
    (stored : ∀ u, tally.stored u ≤ tally'.stored u)
    (deleted : ∀ u, tally.deleted u ≤ tally'.deleted u) (new : Marked db tally' n s')
    (balance : ∀ u, (inbox after u).length + tally'.deleted u =
      (inbox db u).length + tally'.stored u) :
    Tallied db ⟨after, W.sessions.set n s'⟩ tally' := by
  refine ⟨balance, fun m session found => ?_⟩
  rcases (getElem?_replaced at_).mp found with ⟨rfl, rfl⟩ | ⟨other, before⟩
  · exact new
  · have marked := t.marked m session before
    cases session with
    | ended answer => trivial
    | running point own =>
        refine ⟨marked.1, fun row isStored => ?_⟩
        obtain ⟨counted, same, seen, gone⟩ := marked.2 row isStored
        rw [marks m other]
        exact ⟨counted, same, seen.trans (stored _), gone.trans (deleted _)⟩

/-- A step that commits nothing and takes no mark. -/
theorem Tallied.onward {W : MailWorld} {tally : Tally} (t : Tallied db W tally) {n : Nat}
    {s s' : Session Point Write Answer} (at_ : W.sessions[n]? = some s) {after : Database}
    (same : after.messages = W.committed.messages) (new : Marked db tally n s') :
    Tallied db ⟨after, W.sessions.set n s'⟩ tally := by
  apply t.replace at_ (fun _ _ => rfl) (fun _ => le_refl _) (fun _ => le_refl _) new
  intro u
  rw [← t.balance u, inbox, same]
  rfl

theorem tallied_storeMessage {W : MailWorld} {tally : Tally} (t : Tallied db W tally) {n : Nat}
    {senderId recipientId : UserId} {ciphertext ratchetHeaderEnc : Bytes}
    (at_ : W.sessions[n]? = some (.running
      (.statement (.storeMessage senderId recipientId ciphertext ratchetHeaderEnc)) [])) :
    Tallied db (mailProgram.advance W n) (noteTally W n tally) := by
  simp only [Program.advance, noteTally, at_, mailProgram, nextMail, Program.view_nil]
  -- the mark is taken whether or not the statement inserts
  have others : ∀ m ≠ n, Function.update tally.marks n
      ⟨(inbox W.committed recipientId).length, tally.stored recipientId,
        tally.deleted recipientId⟩ m = tally.marks m :=
    fun m other => Function.update_of_ne other _ _
  cases stores : storeMessage W.committed senderId recipientId ciphertext ratchetHeaderEnc with
  | error e =>
      exact t.replace at_ others (fun _ => le_refl _) (fun _ => le_refl _) trivial t.balance
  | ok result =>
      refine t.replace at_ others (fun _ => le_refl _) (fun _ => le_refl _) ?_ t.balance
      obtain ⟨counted, -⟩ := storeMessage_ok stores
      refine ⟨rfl, fun row isStored => ?_⟩
      cases isStored
      simp only [Function.update_self]
      exact ⟨counted, t.balance recipientId, le_refl _, le_refl _⟩

theorem tallied_deleteMessage {W : MailWorld} {tally : Tally} (t : Tallied db W tally) {n : Nat}
    {messageId : MessageId} {owner : OwnerField} {userId : UserId}
    (at_ : W.sessions[n]? =
      some (.running (.statement (.deleteMessage messageId owner userId)) [])) :
    Tallied db (mailProgram.advance W n) (noteTally W n tally) := by
  simp only [Program.advance, noteTally, at_, mailProgram, nextMail, Program.view_nil]
  by_cases hit : W.committed.messages.any (ownedBy messageId owner userId) = true
  · simp only [hit, if_true]
    apply t.onward at_ rfl
    exact ⟨rfl, fun row isStored => nomatch isStored⟩
  · simp only [hit]
    apply t.onward at_ rfl
    exact ⟨rfl, fun row isStored => nomatch isStored⟩

/-- The commit of a stored row: one message more in its recipient's inbox. -/
theorem tallied_stored {W : MailWorld} {tally : Tally} (t : Tallied db W tally) {n : Nat}
    {row : Message} (at_ : W.sessions[n]? = some (.running (.stored row) (ownOf (.stored row)))) :
    Tallied db (mailProgram.advance W n) (noteTally W n tally) := by
  simp only [Program.advance, noteTally, at_, mailProgram, nextMail, ownOf]
  refine t.replace at_ (fun _ _ => rfl) ?_ (fun _ => le_refl _) trivial ?_
  · intro u
    by_cases mine : u = row.recipientId
    · subst mine
      simp
    · simp [Function.update_of_ne mine]
  · intro u
    have before := t.balance u
    simp only [Program.view_cons, Program.view_nil, writeMail, inbox_stored]
    by_cases mine : u = row.recipientId
    · subst mine
      simp
      omega
    · simp [Function.update_of_ne mine, Ne.symm mine, before]

theorem tallied_locking {W : MailWorld} {tally : Tally} (t : Tallied db W tally) {n : Nat}
    {messageId : MessageId} (at_ : W.sessions[n]? = some (.running (.locking messageId) [])) :
    Tallied db (mailProgram.advance W n) (noteTally W n tally) := by
  simp only [Program.advance, noteTally, at_, mailProgram, nextMail, Program.view_nil]
  by_cases locked : Write.deleteMessage messageId ∈ Program.heldBesides W.sessions n
  · simp only [locked, if_true]
    exact t
  · simp only [locked, if_false]
    by_cases there : messageId ∈ W.committed.messages.map Message.id
    · simp only [there, if_true]
      apply t.onward at_ rfl
      exact ⟨rfl, fun row isStored => nomatch isStored⟩
    · simp only [there, if_false]
      apply t.onward at_ rfl
      exact ⟨rfl, fun row isStored => nomatch isStored⟩

/-- The commit of a deletion: what the inbox loses is counted. -/
theorem tallied_deleted {W : MailWorld} {tally : Tally} (t : Tallied db W tally) {n : Nat}
    {messageId : Option MessageId}
    (at_ : W.sessions[n]? = some (.running (.deleted messageId) (ownOf (.deleted messageId)))) :
    Tallied db (mailProgram.advance W n) (noteTally W n tally) := by
  simp only [Program.advance, noteTally, at_, mailProgram, nextMail, ownOf]
  cases messageId with
  | none => exact t.onward at_ rfl trivial
  | some messageId =>
      refine t.replace at_ (fun _ _ => rfl) (fun _ => le_refl _)
        (fun _ => Nat.le_add_right _ _) trivial ?_
      intro u
      have before := t.balance u
      have split := inbox_taken W.committed messageId u
      simp only [Program.view_cons, Program.view_nil, writeMail]
      omega

/-- **One step keeps the tally.** -/
theorem tallied_step {W : MailWorld} {tally : Tally} (t : Tallied db W tally) (n : Nat) :
    Tallied db (mailProgram.advance W n) (noteTally W n tally) := by
  cases at_ : W.sessions[n]? with
  | none => simpa only [Program.advance, noteTally, at_] using t
  | some session =>
      have marked := t.marked n session at_
      cases session with
      | ended answer => simpa only [Program.advance, noteTally, at_] using t
      | running point own =>
          obtain ⟨rfl, -⟩ := marked
          cases point with
          | statement call =>
              cases call with
              | storeMessage => exact tallied_storeMessage t at_
              | deleteMessage => exact tallied_deleteMessage t at_
          | stored row => exact tallied_stored t at_
          | locking messageId => exact tallied_locking t at_
          | deleted messageId => exact tallied_deleted t at_

variable (db calls)

theorem tallied (schedule : List Nat) :
    Tallied db ((mail db calls).run schedule) (tallyOf db calls schedule) := by
  refine (mail db calls).observe_invariant (P := Tallied db) ⟨fun u => ?_, fun n session at_ => ?_⟩
    (fun W n tally t => tallied_step t n) schedule
  · rfl
  · simp only [mail, Program.system_init, opened, List.getElem?_map, Option.map_eq_some_iff] at at_
    obtain ⟨call, -, rfl⟩ := at_
    exact ⟨rfl, fun row isStored => nomatch isStored⟩

/-! ## The cap -/

variable {db calls}

/-- A step at no stored row adds to no inbox. -/
theorem noteTally_unstored {W : MailWorld} {n : Nat} (tally : Tally)
    (unstored : ∀ row own, W.sessions[n]? ≠ some (.running (.stored row) own)) (u : UserId) :
    (noteTally W n tally).stored u = tally.stored u ∧
      tally.deleted u ≤ (noteTally W n tally).deleted u := by
  unfold noteTally
  split
  · exact ⟨rfl, le_refl _⟩
  · rename_i row own at_
    exact absurd at_ (unstored row own)
  · exact ⟨rfl, Nat.le_add_right _ _⟩
  · exact ⟨rfl, le_refl _⟩

theorem noteTally_stored {W : MailWorld} {n : Nat} (tally : Tally) {row : Message}
    {own : List Write} (at_ : W.sessions[n]? = some (.running (.stored row) own)) :
    noteTally W n tally = { tally with
      stored := Function.update tally.stored row.recipientId (tally.stored row.recipientId + 1) } := by
  simp only [noteTally, at_]

/-- Only a committing store makes an inbox longer. -/
theorem within_step {W : MailWorld} {tally : Tally} (t : Tallied db W tally)
    (within : WithinCap W.committed) (n : Nat) :
    WithinCap (mailProgram.advance W n).committed ↔
      ∀ row own, W.sessions[n]? = some (.running (.stored row) own) →
        (inbox W.committed row.recipientId).length < inboxMaxMessages := by
  have t' := tallied_step t n
  constructor
  · intro after row own at_
    have before := t.balance row.recipientId
    have now := t'.balance row.recipientId
    have capped := after row.recipientId
    simp only [noteTally_stored tally at_, Function.update_self] at now
    omega
  · intro room u
    have before := t.balance u
    have now := t'.balance u
    have capped := within u
    by_cases stores : ∃ row own, W.sessions[n]? = some (.running (.stored row) own)
    · obtain ⟨row, own, at_⟩ := stores
      have free := room row own at_
      rw [noteTally_stored tally at_] at now
      by_cases mine : u = row.recipientId
      · subst mine
        simp only [Function.update_self] at now
        omega
      · simp only [Function.update_of_ne mine] at now
        omega
    · push Not at stores
      have quiet := noteTally_unstored tally stores u
      omega

/-- The place is there as the store commits, or others took it: a send that nothing
overtook has counted fewer rows than the cap, and of these some may have gone. -/
theorem room_iff {W : MailWorld} {tally : Tally} (t : Tallied db W tally) {n : Nat}
    {row : Message} {own : List Write} (at_ : W.sessions[n]? = some (.running (.stored row) own)) :
    let storedSince := tally.stored row.recipientId - (tally.marks n).stored
    let deletedSince := tally.deleted row.recipientId - (tally.marks n).deleted
    (inbox W.committed row.recipientId).length < inboxMaxMessages ↔
      (0 < storedSince → storedSince < (inboxMaxMessages - (tally.marks n).seen) + deletedSince) := by
  intro storedSince deletedSince
  obtain ⟨counted, then_, storedGrown, deletedGrown⟩ := (t.marked n _ at_).2 row rfl
  have now := t.balance row.recipientId
  have grown : (inbox W.committed row.recipientId).length + deletedSince =
      (tally.marks n).seen + storedSince := by omega
  constructor
  · intro room _
    omega
  · intro overtaken
    by_cases alone : storedSince = 0
    · rw [alone] at grown
      calc (inbox W.committed row.recipientId).length
          ≤ (inbox W.committed row.recipientId).length + deletedSince := Nat.le_add_right _ _
        _ = (tally.marks n).seen := grown
        _ < inboxMaxMessages := counted
    · have fewer := overtaken (Nat.pos_of_ne_zero alone)
      omega

/-- **When the cap is hard**: no committed state has an inbox above the cap iff each
send that others overtook leaves room as it commits. -/
theorem cap_iff (db : Database) (calls : List Call) (initial : WithinCap db)
    (schedule : List Nat) :
    Throughout (fun earlier => WithinCap ((mail db calls).run earlier).committed) schedule ↔
      EachStep (LeavesRoom db calls) schedule := by
  apply throughout_iff_eachStep (P := fun earlier => WithinCap ((mail db calls).run earlier).committed)
  · exact initial
  · intro earlier n within
    have t := tallied db calls earlier
    rw [System.run_snoc]
    refine (within_step t within n).trans ?_
    exact forall_congr' fun row => forall_congr' fun own => forall_congr' fun at_ => room_iff t at_

/-- Two sends to an inbox with one place left, both counted before either commits. -/
theorem overlap_overflows {senderId senderId' recipientId : UserId}
    (sender : senderId ∈ db.userIds) (sender' : senderId' ∈ db.userIds)
    (recipient : recipientId ∈ db.userIds)
    (last : (inbox db recipientId).length + 1 = inboxMaxMessages)
    (ciphertext ratchetHeaderEnc ciphertext' ratchetHeaderEnc' : Bytes) :
    (inbox ((mail db [.storeMessage senderId recipientId ciphertext ratchetHeaderEnc,
        .storeMessage senderId' recipientId ciphertext' ratchetHeaderEnc']).run
          [0, 1, 0, 1]).committed recipientId).length = inboxMaxMessages + 1 := by
  have first := storeMessage_room ciphertext ratchetHeaderEnc sender recipient (by omega)
  have drawn : storeMessage (drawMessageId db) senderId' recipientId ciphertext'
      ratchetHeaderEnc' = .ok _ :=
    storeMessage_room ciphertext' ratchetHeaderEnc' sender' recipient
      (show (inbox db recipientId).length < inboxMaxMessages by omega)
  rw [← last]
  simp [mail, System.run, opened, Program.advance, mailProgram, nextMail, first, drawn, writeMail,
    inbox]

/-- Three users, and `n` messages for the second. -/
def filled (n : Nat) : Database where
  users := [⟨1, "ada", "5a", [1], [2]⟩, ⟨2, "bob", "5b", [3], [4]⟩, ⟨3, "cyd", "5c", [5], [6]⟩]
  messages := (List.range n).map fun i => ⟨i + 1, 1, 2, [10], [11]⟩
  sequences := { users := 4, messages := n + 1 }

theorem filled_inbox (n : Nat) : (inbox (filled n) 2).length = n := by
  simp [inbox, filled, List.filter_map, Function.comp_def]

theorem filled_within {n : Nat} (few : n ≤ inboxMaxMessages) : WithinCap (filled n) := by
  intro u
  have listed : (inbox (filled n) u).length ≤ (filled n).messages.length := List.length_filter_le ..
  have all : (filled n).messages.length = n := by simp [filled]
  omega

/-- Two sends count 49999 rows, and a deletion commits before they do: there is a place
for both. -/
theorem cap_iff_filled :
    Throughout (fun earlier => WithinCap ((mail (filled 49999)
        [.storeMessage 1 2 [12] [13], .storeMessage 3 2 [14] [15],
          .deleteMessage 7 .recipientId 2]).run earlier).committed) [0, 1, 2, 2, 2, 0, 1] ↔
      EachStep (LeavesRoom (filled 49999)
        [.storeMessage 1 2 [12] [13], .storeMessage 3 2 [14] [15],
          .deleteMessage 7 .recipientId 2]) [0, 1, 2, 2, 2, 0, 1] :=
  cap_iff (filled 49999) _ (filled_within (by decide)) _

/-- Two sends to an inbox of 49999 both count it, both insert, both commit: it holds 50001. -/
theorem cap_broken :
    WithinCap (filled 49999) ∧ ¬ WithinCap ((mail (filled 49999)
      [.storeMessage 1 2 [12] [13], .storeMessage 3 2 [14] [15]]).run [0, 1, 0, 1]).committed := by
  refine ⟨filled_within (by decide), fun within => ?_⟩
  have last : (inbox (filled 49999) 2).length + 1 = inboxMaxMessages := by
    rw [filled_inbox]
    rfl
  have ada : (1 : UserId) ∈ (filled 49999).userIds := by simp [filled, Database.userIds]
  have bob : (2 : UserId) ∈ (filled 49999).userIds := by simp [filled, Database.userIds]
  have cyd : (3 : UserId) ∈ (filled 49999).userIds := by simp [filled, Database.userIds]
  have overfull := overlap_overflows ada cyd bob last [12] [13] [14] [15]
  have capped := within 2
  omega

end Cap

end SecureMsg.Messages
