/-
# Messages.Linear — sends, receipts and revocations at the same time

`Mailbox` is what `store_message` and `delete_message` are for: messages that are
put in under an id of their own and taken out once, by their recipient (a receipt)
or their sender (a revocation), one call after the other.

`mail_linearized`: in every run of the transactions (`Messages.Cap`) each call takes
effect at one moment between its first statement and its answer, and in the order
of these moments the answers are those of a mailbox.  So no message is lost or
stored twice, and of the receipts and revocations of a message that race one finds
it.  What the serial mailbox does not promise is the cap: an accepted send was
counted before it took effect (`cap_iff`).

`mail_finishes`: the calls never come to wait for each other for good.
-/
import SecureMsg.Theory.Completion
import SecureMsg.Theory.Linearization
import SecureMsg.Messages.Cap

namespace SecureMsg.Messages

open SecureMsg.Theory SecureMsg.Store SecureMsg.Repository

set_option autoImplicit false

/-! ## The serial mailbox -/

section Serial

variable (db : Database)

/-- The messages of the accounts of `db`, served one call at a time. -/
inductive Mailbox : Serial (List Message) Call Answer where
  | stores (box : List Message) (senderId recipientId : UserId)
      (ciphertext ratchetHeaderEnc : Bytes) (id : MessageId)
      (known : senderId ∈ db.userIds ∧ recipientId ∈ db.userIds)
      (new : db.sequences.messages ≤ id) (fresh : id ∉ box.map Message.id) :
      Mailbox box (.storeMessage senderId recipientId ciphertext ratchetHeaderEnc) (.stored id)
        (box ++ [⟨id, senderId, recipientId, ciphertext, ratchetHeaderEnc⟩])
  /-- What the method raises on the messages there are. -/
  | refuses (box : List Message) (senderId recipientId : UserId)
      (ciphertext ratchetHeaderEnc : Bytes) (e : Error)
      (refused : storeMessage { db with messages := box } senderId recipientId ciphertext
        ratchetHeaderEnc = .error e) :
      Mailbox box (.storeMessage senderId recipientId ciphertext ratchetHeaderEnc) (.raised e) box
  | deletes (box : List Message) (messageId : MessageId) (owner : OwnerField) (userId : UserId) :
      Mailbox box (.deleteMessage messageId owner userId)
        (.deleted (deleteMessage { db with messages := box } messageId owner userId).2)
        (deleteMessage { db with messages := box } messageId owner userId).1.messages

theorem unique_id {messages : List Message} (ids : (messages.map Message.id).Nodup)
    {row other : Message} (there : row ∈ messages) (alsoThere : other ∈ messages)
    (same : row.id = other.id) : row = other :=
  List.inj_on_of_nodup_map ids there alsoThere same

theorem ids_append {messages : List Message} (ids : (messages.map Message.id).Nodup) {row : Message}
    (fresh : row.id ∉ messages.map Message.id) : ((messages ++ [row]).map Message.id).Nodup := by
  rw [List.map_append, List.nodup_append]
  refine ⟨ids, List.nodup_singleton _, ?_⟩
  rintro id stored _ isNew rfl
  rw [List.map_singleton, List.mem_singleton] at isNew
  subst isNew
  exact fresh stored

/-- The call of session `n` is a receipt or a revocation of the message. -/
def Names (calls : List Call) (n : Nat) (messageId : MessageId) : Prop :=
  ∃ owner userId, calls[n]? = some (.deleteMessage messageId owner userId)

variable {db} {calls : List Call} {b b' : List Message} {past : List (Nat × Answer)}

/-- A message that is there was there before, or has been sent. -/
theorem born (serves : (Mailbox db).Serves calls b past b') {id : MessageId}
    (there : id ∈ b'.map Message.id) :
    id ∈ b.map Message.id ∨ ∃ n, (n, .stored id) ∈ past := by
  induction serves with
  | nil => exact Or.inl there
  | @snoc past before after n call answer serves isCall allowed ih =>
      have earlier : id ∈ before.map Message.id →
          id ∈ b.map Message.id ∨ ∃ k, (k, Answer.stored id) ∈ past ++ [(n, answer)] := by
        intro there
        rcases ih there with old | ⟨k, sent⟩
        · exact Or.inl old
        · exact Or.inr ⟨k, List.mem_append_left _ sent⟩
      cases allowed with
      | stores _ _ _ _ _ given =>
          rw [List.map_append, List.mem_append] at there
          rcases there with old | isNew
          · exact earlier old
          · rw [List.map_singleton, List.mem_singleton] at isNew
            exact Or.inr ⟨n, isNew ▸ List.mem_append_right _ List.mem_cons_self⟩
      | refuses => exact earlier there
      | deletes => exact earlier ((List.filter_sublist.map Message.id).subset there)

theorem serves_nodup (ids : (b.map Message.id).Nodup)
    (serves : (Mailbox db).Serves calls b past b') : (b'.map Message.id).Nodup := by
  induction serves with
  | nil => exact ids
  | snoc serves isCall allowed ih =>
      cases allowed with
      | stores _ _ _ _ _ _ _ _ fresh =>
          exact ids_append ih fresh
      | refuses => exact ih
      | deletes => exact ih.sublist (List.filter_sublist.map _)

/-- A deletion answers `True` on a row it names, and takes every row of that id. -/
theorem found_inversion {box after : List Message} (ids : (box.map Message.id).Nodup)
    {messageId : MessageId} {owner : OwnerField} {userId : UserId}
    (served : Mailbox db box (.deleteMessage messageId owner userId) (.deleted true) after) :
    messageId ∈ box.map Message.id ∧ messageId ∉ after.map Message.id := by
  generalize isTrue : Answer.deleted true = answer at served
  cases served with
  | deletes =>
      have found := Answer.deleted.inj isTrue.symm
      obtain ⟨row, there, named, owned⟩ := deleteMessage_found.mp found
      refine ⟨named ▸ List.mem_map_of_mem there, fun left => ?_⟩
      obtain ⟨other, kept, same⟩ := List.mem_map.mp left
      obtain ⟨alsoThere, missed⟩ := List.mem_filter.mp kept
      have isRow : other = row := unique_id ids alsoThere there (same.trans named.symm)
      subst isRow
      simp [ownedBy, named, owned] at missed

/-- A message once found by a deletion is gone for good: its id is not given again. -/
theorem gone_for_good (ids : (b.map Message.id).Nodup)
    (old : ∀ row ∈ b, row.id < db.sequences.messages)
    (serves : (Mailbox db).Serves calls b past b')
    (storedOnce : ∀ n m id, (n, .stored id) ∈ past → (m, .stored id) ∈ past → n = m)
    (once : (past.map Prod.fst).Nodup) {n : Nat} {id : MessageId} (named : Names calls n id)
    (found : (n, .deleted true) ∈ past) :
    id ∉ b'.map Message.id ∧ (id ∈ b.map Message.id ∨ ∃ m, (m, .stored id) ∈ past) := by
  induction serves with
  | nil => cases found
  | @snoc past before after k call answer serves isCall allowed ih =>
      rw [List.map_append, List.nodup_append] at once
      obtain ⟨onceBefore, -, apart⟩ := once
      rcases List.mem_append.mp found with earlier | isNow
      · obtain ⟨gone, known⟩ := ih (fun n m id one other => storedOnce n m id
          (List.mem_append_left _ one) (List.mem_append_left _ other)) onceBefore earlier
        refine ⟨fun there => ?_, known.imp_right (Exists.imp fun m => List.mem_append_left _)⟩
        cases allowed with
        | stores _ _ _ _ _ given _ new =>
            rw [List.map_append, List.mem_append] at there
            rcases there with stored | isNew
            · exact gone stored
            · rw [List.map_singleton, List.mem_singleton] at isNew
              subst isNew
              rcases known with inTable | ⟨m, sent⟩
              · obtain ⟨row, stored, same⟩ := List.mem_map.mp inTable
                exact absurd (same ▸ old row stored) (not_lt_of_ge new)
              · have same : m = k := storedOnce m k _ (List.mem_append_left _ sent)
                  (List.mem_append_right _ List.mem_cons_self)
                exact apart m (List.mem_map_of_mem sent) k List.mem_cons_self same
        | refuses => exact gone there
        | deletes => exact gone ((List.filter_sublist.map Message.id).subset there)
      · cases List.mem_singleton.mp isNow
        obtain ⟨owner, userId, isDelete⟩ := named
        cases isDelete.symm.trans isCall
        obtain ⟨there, gone⟩ := found_inversion (serves_nodup ids serves) allowed
        exact ⟨gone, (born serves there).imp_right (Exists.imp fun m => List.mem_append_left _)⟩

/-- At most one receipt or revocation of a message finds it. -/
theorem found_once (ids : (b.map Message.id).Nodup)
    (old : ∀ row ∈ b, row.id < db.sequences.messages)
    (storedOnce : ∀ n m id, (n, .stored id) ∈ past → (m, .stored id) ∈ past → n = m)
    (once : (past.map Prod.fst).Nodup) (serves : (Mailbox db).Serves calls b past b') {n m : Nat}
    {id : MessageId} (named : Names calls n id) (alsoNamed : Names calls m id)
    (one : (n, .deleted true) ∈ past) (other : (m, .deleted true) ∈ past) : n = m := by
  induction serves with
  | nil => cases one
  | @snoc past before after k call answer serves isCall allowed ih =>
      rw [List.map_append, List.nodup_append] at once
      have storedBefore : ∀ n m id, (n, Answer.stored id) ∈ past → (m, Answer.stored id) ∈ past →
          n = m := fun n m id one other =>
        storedOnce n m id (List.mem_append_left _ one) (List.mem_append_left _ other)
      -- the later of two would find a message that is gone
      have never : ∀ {j : Nat}, Names calls j id → (j, Answer.deleted true) ∈ past →
          Names calls k id → answer ≠ .deleted true := by
        rintro j named found ⟨owner, userId, isDelete⟩ rfl
        cases isDelete.symm.trans isCall
        exact (gone_for_good ids old serves storedBefore once.1 named found).1
          (found_inversion (serves_nodup ids serves) allowed).1
      rcases List.mem_append.mp one with earlier | isNow
      · rcases List.mem_append.mp other with alsoEarlier | isNow
        · exact ih storedBefore once.1 earlier alsoEarlier
        · cases List.mem_singleton.mp isNow
          exact absurd rfl (never named earlier alsoNamed)
      · cases List.mem_singleton.mp isNow
        rcases List.mem_append.mp other with earlier | isNow
        · exact absurd rfl (never alsoNamed earlier named)
        · cases List.mem_singleton.mp isNow
          rfl

end Serial

/-- The answer a session is bound to give: a store and a deletion that found its row
give theirs only with the commit. -/
def settled : Session Point Write Answer → Option Answer
  | .running (.statement _) _ | .running (.stored _) _ | .running (.locking _) _
  | .running (.deleted (some _)) _ => none
  | .running (.deleted none) _ => some (.deleted false)
  | .ended answer => some answer

theorem settled_stored {session : Session Point Write Answer} {id : MessageId}
    (isSettled : settled session = some (.stored id)) : session = .ended (.stored id) := by
  unfold settled at isSettled
  split at isSettled <;> simp_all

/-! ## What holds in every run -/

/-- The id drawn for the message of a session. -/
def drawnId : Session Point Write Answer → Option MessageId
  | .running (.stored row) _ => some row.id
  | .ended (.stored id) => some id
  | _ => none

/-- The message whose row a session has chosen and not yet locked. -/
def chosenId : Session Point Write Answer → Option MessageId
  | .running (.locking messageId) _ => some messageId
  | _ => none

/-- Where the session of a call can be. -/
inductive Serving (db committed : Database) : Call → Session Point Write Answer → Prop where
  | begun (call : Call) : Serving db committed call (.running (.statement call) [])
  | stored (senderId recipientId : UserId) (ciphertext ratchetHeaderEnc : Bytes) (id : MessageId)
      (known : senderId ∈ db.userIds ∧ recipientId ∈ db.userIds)
      (fresh : id ∉ committed.messages.map Message.id) :
      Serving db committed (.storeMessage senderId recipientId ciphertext ratchetHeaderEnc)
        (.running (.stored ⟨id, senderId, recipientId, ciphertext, ratchetHeaderEnc⟩)
          [.insertMessage ⟨id, senderId, recipientId, ciphertext, ratchetHeaderEnc⟩])
  | locking (messageId : MessageId) (owner : OwnerField) (userId : UserId)
      (owned : ∀ row ∈ committed.messages, row.id = messageId → owner.of row = userId) :
      Serving db committed (.deleteMessage messageId owner userId)
        (.running (.locking messageId) [])
  | gone (messageId : MessageId) (owner : OwnerField) (userId : UserId) :
      Serving db committed (.deleteMessage messageId owner userId) (.running (.deleted none) [])
  | taken (messageId : MessageId) (owner : OwnerField) (userId : UserId) (row : Message)
      (there : row ∈ committed.messages) (named : row.id = messageId)
      (owned : owner.of row = userId) :
      Serving db committed (.deleteMessage messageId owner userId)
        (.running (.deleted (some messageId)) [.deleteMessage messageId])
  | ended (call : Call) (answer : Answer) : Serving db committed call (.ended answer)

/-- The write that excludes others: a deletion holds the row. -/
def conflicts (wr other : Write) : Prop :=
  ∃ messageId, wr = .deleteMessage messageId ∧ other = .deleteMessage messageId

theorem mail_locking : mailProgram.Locking conflicts where
  symm := by
    rintro _ _ ⟨messageId, rfl, rfl⟩
    exact ⟨messageId, rfl, rfl⟩
  respects := by
    intro point own view held draw point' own' did wr holds
    cases point with
    | statement call =>
        cases call with
        | storeMessage senderId recipientId ciphertext ratchetHeaderEnc =>
            simp only [mailProgram, nextMail] at did
            split at did
            · cases did
              rcases List.mem_append.mp holds with before | isNew
              · exact Or.inl before
              · rw [List.mem_singleton.mp isNew]
                refine Or.inr fun other _ => ?_
                rintro ⟨_, isDelete, -⟩
                cases isDelete
            · cases did
        | deleteMessage messageId owner userId =>
            simp only [mailProgram, nextMail] at did
            split at did <;> cases did <;> exact Or.inl holds
    | stored row => cases did
    | locking messageId =>
        simp only [mailProgram, nextMail] at did
        split at did
        · cases did
        · rename_i free
          split at did
          · cases did
            rcases List.mem_append.mp holds with before | isNew
            · exact Or.inl before
            · rw [List.mem_singleton.mp isNew]
              refine Or.inr fun other isHeld => ?_
              rintro ⟨id, same, rfl⟩
              cases same
              exact free isHeld
          · cases did
            exact Or.inl holds
    | deleted messageId => cases did

structure Mailing (db : Database) (calls : List Call) (W : MailWorld) : Prop where
  users : W.committed.users = db.users
  ids : (W.committed.messages.map Message.id).Nodup
  below : ∀ row ∈ W.committed.messages, row.id < W.committed.sequences.messages
  forward : db.sequences.messages ≤ W.committed.sequences.messages
  serving : ∀ (n : Nat) session, W.sessions[n]? = some session →
    ∃ call, calls[n]? = some call ∧ Serving db W.committed call session
  drawn : ∀ (n : Nat) session id, W.sessions[n]? = some session → drawnId session = some id →
    db.sequences.messages ≤ id ∧ id < W.committed.sequences.messages
  drawnOnce : ∀ (n m : Nat) session other id, W.sessions[n]? = some session →
    W.sessions[m]? = some other → drawnId session = some id → drawnId other = some id → n = m
  /-- A row chosen for deletion is of an id drawn before, and has been committed. -/
  chosen : ∀ (n : Nat) session id, W.sessions[n]? = some session → chosenId session = some id →
    id < W.committed.sequences.messages ∧
      ∀ (m : Nat) row own, W.sessions[m]? = some (.running (.stored row) own) → row.id ≠ id
  compatible : Program.Compatible conflicts W.sessions

section Steps

variable {db : Database} {calls : List Call} {W : MailWorld} {n : Nat}

/-- What a step of session `n` leaves holding, and does to the mailbox. -/
structure Stepped (db : Database) (calls : List Call) (W W' : MailWorld) (n : Nat) : Prop where
  mailing : Mailing db calls W'
  effect : Program.Effect settled (Mailbox db) calls Database.messages W W' n

/-- Which messages there are decides whether a send is refused. -/
theorem refused_messages {senderId recipientId : UserId} {ciphertext ratchetHeaderEnc : Bytes}
    {e : Error} {committed : Database} (users : committed.users = db.users)
    (refused : storeMessage committed senderId recipientId ciphertext ratchetHeaderEnc = .error e) :
    storeMessage { db with messages := committed.messages } senderId recipientId ciphertext
      ratchetHeaderEnc = .error e := by
  have sameInbox : inbox { db with messages := committed.messages } recipientId =
      inbox committed recipientId := rfl
  have sameUsers : Database.userIds { db with messages := committed.messages } =
      committed.userIds := by rw [Database.userIds, Database.userIds, users]
  unfold storeMessage at refused ⊢
  rw [sameInbox]
  by_cases room : (inbox committed recipientId).length < inboxMaxMessages
  · rw [if_pos room] at refused ⊢
    rcases bind_eq_error.mp refused with insert | ⟨stored, -, returned⟩
    · unfold Database.insertMessage at insert ⊢
      rw [sameUsers]
      by_cases known : senderId ∈ committed.userIds ∧ recipientId ∈ committed.userIds
      · rw [if_pos known] at insert
        cases insert
      · rw [if_neg known] at insert ⊢
        cases insert
        rfl
    · cases returned
  · rw [if_neg room] at refused ⊢
    exact refused

theorem deletes_nothing {box : List Message} {messageId : MessageId} {owner : OwnerField}
    {userId : UserId} (none_ : box.any (ownedBy messageId owner userId) = false) :
    Mailbox db box (.deleteMessage messageId owner userId) (.deleted false) box := by
  have found : (deleteMessage { db with messages := box } messageId owner userId).2 = false := none_
  have served : Mailbox db box _ _ _ := .deletes box messageId owner userId
  rw [found, deleteMessage_quiet found] at served
  exact served

theorem deletes_row {box : List Message} (ids : (box.map Message.id).Nodup) {messageId : MessageId}
    {owner : OwnerField} {userId : UserId} {row : Message} (there : row ∈ box)
    (named : row.id = messageId) (owned : owner.of row = userId) :
    Mailbox db box (.deleteMessage messageId owner userId) (.deleted true)
      (box.filter fun row => row.id ≠ messageId) := by
  have found : (deleteMessage { db with messages := box } messageId owner userId).2 = true :=
    deleteMessage_found.mpr ⟨row, there, named, owned⟩
  have rest : box.filter (fun other => !ownedBy messageId owner userId other) =
      box.filter fun other => other.id ≠ messageId := by
    apply List.filter_congr
    intro other otherIn
    by_cases hit : other.id = messageId
    · rw [unique_id ids otherIn there (hit.trans named.symm)]
      simp [ownedBy, named, owned]
    · simp [ownedBy, hit]
  have served : Mailbox db box _ _ _ := .deletes box messageId owner userId
  rw [found] at served
  rw [← rest]
  exact served

/-- The other sessions, where the committed messages and the ids drawn have grown. -/
theorem Mailing.replace (m : Mailing db calls W) {s s' : Session Point Write Answer} {call : Call}
    (at_ : W.sessions[n]? = some s) (isCall : calls[n]? = some call) {after : Database}
    (users : after.users = W.committed.users) (ids : (after.messages.map Message.id).Nodup)
    (forward : W.committed.sequences.messages ≤ after.sequences.messages)
    (below : ∀ row ∈ after.messages, row.id < after.sequences.messages)
    (compatible : Program.Compatible conflicts (W.sessions.set n s'))
    (others : ∀ (k : Nat) session call', k ≠ n → W.sessions[k]? = some session →
      Serving db W.committed call' session → Serving db after call' session)
    (serving : Serving db after call s')
    (drawn : ∀ id, drawnId s' = some id → db.sequences.messages ≤ id ∧
      id < after.sequences.messages ∧
      ∀ (k : Nat) other, k ≠ n → W.sessions[k]? = some other → drawnId other ≠ some id)
    (chosen : ∀ id, chosenId s' = some id → id < after.sequences.messages ∧
      ∀ (k : Nat) row own, W.sessions[k]? = some (.running (.stored row) own) → row.id ≠ id)
    (pending : ∀ row own, s' = .running (.stored row) own →
      ∀ (k : Nat) other id, W.sessions[k]? = some other → chosenId other = some id → row.id ≠ id) :
    Mailing db calls ⟨after, W.sessions.set n s'⟩ where
  users := users.trans m.users
  ids := ids
  below := below
  forward := m.forward.trans forward
  compatible := compatible
  serving := by
    intro k session found
    rcases (getElem?_replaced at_).mp found with ⟨rfl, rfl⟩ | ⟨other, before⟩
    · exact ⟨call, isCall, serving⟩
    · obtain ⟨call', isCall', served⟩ := m.serving k session before
      exact ⟨call', isCall', others k session call' other before served⟩
  drawn := by
    intro k session id found isDrawn
    rcases (getElem?_replaced at_).mp found with ⟨rfl, rfl⟩ | ⟨-, before⟩
    · exact ⟨(drawn id isDrawn).1, (drawn id isDrawn).2.1⟩
    · obtain ⟨new, old⟩ := m.drawn k session id before isDrawn
      exact ⟨new, old.trans_le forward⟩
  drawnOnce := by
    intro j k session other id one two isDrawn alsoDrawn
    rcases (getElem?_replaced at_).mp one with ⟨rfl, rfl⟩ | ⟨differs, before⟩
    · rcases (getElem?_replaced at_).mp two with ⟨rfl, -⟩ | ⟨differs, before⟩
      · rfl
      · exact absurd alsoDrawn ((drawn id isDrawn).2.2 k other differs before)
    · rcases (getElem?_replaced at_).mp two with ⟨rfl, rfl⟩ | ⟨-, before'⟩
      · exact absurd isDrawn ((drawn id alsoDrawn).2.2 j session differs before)
      · exact m.drawnOnce j k session other id before before' isDrawn alsoDrawn
  chosen := by
    intro j session id found isChosen
    rcases (getElem?_replaced at_).mp found with ⟨rfl, rfl⟩ | ⟨differs, before⟩
    · refine ⟨(chosen id isChosen).1, fun k row own there => ?_⟩
      rcases (getElem?_replaced at_).mp there with ⟨-, rfl⟩ | ⟨-, there⟩
      · cases isChosen
      · exact (chosen id isChosen).2 k row own there
    · obtain ⟨old, unborn⟩ := m.chosen j session id before isChosen
      refine ⟨old.trans_le forward, fun k row own there => ?_⟩
      rcases (getElem?_replaced at_).mp there with ⟨rfl, isNew⟩ | ⟨-, there⟩
      · exact pending row own isNew.symm j session id before isChosen
      · exact unborn k row own there

/-- A step that commits nothing and draws nothing. -/
theorem Mailing.onward (m : Mailing db calls W) {s s' : Session Point Write Answer} {call : Call}
    (at_ : W.sessions[n]? = some s) (isCall : calls[n]? = some call)
    (compatible : Program.Compatible conflicts (W.sessions.set n s'))
    (serving : Serving db W.committed call s') (undrawn : drawnId s' = none)
    (chosen : ∀ id, chosenId s' = some id → id < W.committed.sequences.messages ∧
      ∀ (k : Nat) row own, W.sessions[k]? = some (.running (.stored row) own) → row.id ≠ id) :
    Mailing db calls ⟨W.committed, W.sessions.set n s'⟩ := by
  apply m.replace at_ isCall rfl m.ids (le_refl _) m.below compatible
    (fun _ _ _ _ _ served => served) serving _ chosen
  · rintro row own rfl
    cases undrawn
  · intro id isDrawn
    rw [undrawn] at isDrawn
    cases isDrawn

theorem stepped_storeMessage (m : Mailing db calls W) {senderId recipientId : UserId}
    {ciphertext ratchetHeaderEnc : Bytes}
    (at_ : W.sessions[n]? = some (.running
      (.statement (.storeMessage senderId recipientId ciphertext ratchetHeaderEnc)) []))
    (isCall : calls[n]? = some (.storeMessage senderId recipientId ciphertext ratchetHeaderEnc)) :
    Stepped db calls W (mailProgram.advance W n) n := by
  have compatible := Program.compatible_step mail_locking m.compatible n
  simp only [Program.advance, at_, mailProgram, nextMail, Program.view_nil] at compatible ⊢
  cases stores : storeMessage W.committed senderId recipientId ciphertext ratchetHeaderEnc with
  | error e =>
      simp only [stores] at compatible ⊢
      constructor
      · apply m.onward at_ isCall compatible (.ended _ _) rfl
        rintro id ⟨⟩
      · refine .settles at_ isCall rfl rfl ?_
        exact .refuses _ _ _ _ _ e (refused_messages m.users stores)
  | ok result =>
      obtain ⟨stored, id⟩ := result
      simp only [stores] at compatible ⊢
      obtain ⟨-, row, inserted, rfl⟩ := storeMessage_ok stores
      obtain ⟨known, rfl, -⟩ := Database.insertMessage_ok.mp inserted
      have known : senderId ∈ db.userIds ∧ recipientId ∈ db.userIds := by
        rw [Database.userIds, ← m.users]
        exact known
      have fresh : W.committed.sequences.messages ∉ W.committed.messages.map Message.id := by
        intro taken
        obtain ⟨row, there, same⟩ := List.mem_map.mp taken
        exact absurd (m.below row there) (same ▸ lt_irrefl _)
      constructor
      · have sameUsers : (drawMessageId W.committed).users = W.committed.users := rfl
        refine m.replace at_ isCall sameUsers m.ids ?_ ?_ compatible
          ?_ (.stored _ _ _ _ _ known fresh) ?_ (by rintro id ⟨⟩) ?_
        · exact (Int.lt_succ _).le
        · exact fun row there => (m.below row there).trans (Int.lt_succ _)
        · intro k session call' _ _ served
          cases served with
          | begun => exact .begun _
          | stored _ _ _ _ _ known fresh => exact .stored _ _ _ _ _ known fresh
          | locking _ _ _ owned => exact .locking _ _ _ owned
          | gone => exact .gone _ _ _
          | taken _ _ _ row there named owned => exact .taken _ _ _ row there named owned
          | ended => exact .ended _ _
        · intro id isDrawn
          cases isDrawn
          refine ⟨m.forward, Int.lt_succ _, fun k other _ there isDrawn => ?_⟩
          exact lt_irrefl _ (m.drawn k other _ there isDrawn).2
        · rintro row own same k other id there isChosen rfl
          cases same
          exact lt_irrefl _ (m.chosen k other _ there isChosen).1
      · exact .onward at_ rfl rfl

theorem stepped_deleteMessage (m : Mailing db calls W) {messageId : MessageId}
    {owner : OwnerField} {userId : UserId}
    (at_ : W.sessions[n]? =
      some (.running (.statement (.deleteMessage messageId owner userId)) []))
    (isCall : calls[n]? = some (.deleteMessage messageId owner userId)) :
    Stepped db calls W (mailProgram.advance W n) n := by
  have compatible := Program.compatible_step mail_locking m.compatible n
  simp only [Program.advance, at_, mailProgram, nextMail, Program.view_nil] at compatible ⊢
  cases hit : W.committed.messages.any (ownedBy messageId owner userId) with
  | true =>
      simp only [hit, if_true] at compatible ⊢
      obtain ⟨row, there, named, owned⟩ := deleteMessage_found.mp hit
      constructor
      · refine m.onward at_ isCall compatible (.locking _ _ _ fun other otherIn same => ?_) rfl ?_
        · rw [unique_id m.ids otherIn there (same.trans named.symm)]
          exact owned
        · intro id isChosen
          cases isChosen
          refine ⟨named ▸ m.below row there, fun k stored own pending same => ?_⟩
          obtain ⟨_, _, served⟩ := m.serving k _ pending
          cases served with
          | stored _ _ _ _ _ _ fresh =>
              exact fresh (List.mem_map.mpr ⟨row, there, named.trans same.symm⟩)
      · exact .onward at_ rfl rfl
  | false =>
      simp only [hit] at compatible ⊢
      constructor
      · exact m.onward at_ isCall compatible (.gone _ _ _) rfl (by rintro id ⟨⟩)
      · refine .settles at_ isCall rfl rfl ?_
        exact deletes_nothing hit

theorem stepped_stored (m : Mailing db calls W) {senderId recipientId : UserId}
    {ciphertext ratchetHeaderEnc : Bytes} {id : MessageId}
    (known : senderId ∈ db.userIds ∧ recipientId ∈ db.userIds)
    (fresh : id ∉ W.committed.messages.map Message.id)
    (at_ : W.sessions[n]? = some (.running
      (.stored ⟨id, senderId, recipientId, ciphertext, ratchetHeaderEnc⟩)
      [.insertMessage ⟨id, senderId, recipientId, ciphertext, ratchetHeaderEnc⟩]))
    (isCall : calls[n]? = some (.storeMessage senderId recipientId ciphertext ratchetHeaderEnc)) :
    Stepped db calls W (mailProgram.advance W n) n := by
  have compatible := Program.compatible_step mail_locking m.compatible n
  simp only [Program.advance, at_, mailProgram, nextMail, Program.view_cons, Program.view_nil,
    writeMail] at compatible ⊢
  obtain ⟨new, old⟩ := m.drawn n _ id at_ rfl
  constructor
  · refine m.replace at_ isCall ?_ ?_ ?_ ?_ compatible ?_ (.ended _ _) ?_
      (by rintro id ⟨⟩) (by rintro row own ⟨⟩)
    · rfl
    · exact ids_append m.ids fresh
    · exact le_refl _
    · intro row there
      rcases List.mem_append.mp there with stored | isNew
      · exact m.below row stored
      · rw [List.mem_singleton.mp isNew]
        exact old
    · intro k session call' other there served
      cases served with
      | begun => exact .begun _
      | stored _ _ _ _ id' known' fresh' =>
          refine .stored _ _ _ _ id' known' fun stored => ?_
          rw [List.map_append, List.mem_append] at stored
          rcases stored with before | isNew
          · exact fresh' before
          · rw [List.map_singleton, List.mem_singleton] at isNew
            exact other (m.drawnOnce k n _ _ id' there at_ rfl (isNew ▸ rfl))
      | locking messageId _ _ owned =>
          refine .locking _ _ _ fun row stored same => ?_
          rcases List.mem_append.mp stored with before | isNew
          · exact owned row before same
          · rw [List.mem_singleton.mp isNew] at same
            exact absurd same ((m.chosen k _ messageId there rfl).2 n _ _ at_)
      | gone => exact .gone _ _ _
      | taken _ _ _ row stored named owned =>
          exact .taken _ _ _ row (List.mem_append_left _ stored) named owned
      | ended => exact .ended _ _
    · intro other isDrawn
      cases isDrawn
      exact ⟨new, old, fun k session differs there isDrawn =>
        differs (m.drawnOnce k n _ _ id there at_ isDrawn rfl)⟩
  · refine .settles at_ isCall rfl rfl ?_
    exact .stores _ _ _ _ _ id known new fresh

theorem stepped_locking (m : Mailing db calls W) {messageId : MessageId} {owner : OwnerField}
    {userId : UserId} (owned : ∀ row ∈ W.committed.messages, row.id = messageId →
      owner.of row = userId)
    (at_ : W.sessions[n]? = some (.running (.locking messageId) []))
    (isCall : calls[n]? = some (.deleteMessage messageId owner userId)) :
    Stepped db calls W (mailProgram.advance W n) n := by
  have compatible := Program.compatible_step mail_locking m.compatible n
  simp only [Program.advance, at_, mailProgram, nextMail, Program.view_nil] at compatible ⊢
  by_cases held : Write.deleteMessage messageId ∈ Program.heldBesides W.sessions n
  · simp only [held, if_true]
    exact ⟨m, .quiet rfl rfl⟩
  · simp only [held, if_false] at compatible ⊢
    by_cases there : messageId ∈ W.committed.messages.map Message.id
    · simp only [there, if_true] at compatible ⊢
      obtain ⟨row, stored, named⟩ := List.mem_map.mp there
      constructor
      · apply m.onward at_ isCall compatible _ rfl (by rintro id ⟨⟩)
        exact .taken _ _ _ row stored named (owned row stored named)
      · exact .onward at_ rfl rfl
    · simp only [there, if_false] at compatible ⊢
      constructor
      · exact m.onward at_ isCall compatible (.gone _ _ _) rfl (by rintro id ⟨⟩)
      · refine .settles at_ isCall rfl rfl ?_
        apply deletes_nothing
        rw [List.any_eq_false]
        rintro row stored found
        have named : row.id = messageId := by
          simp only [ownedBy, Bool.and_eq_true, decide_eq_true_eq] at found
          exact found.1
        exact there (named ▸ List.mem_map_of_mem stored)

theorem stepped_gone (m : Mailing db calls W) {messageId : MessageId} {owner : OwnerField}
    {userId : UserId} (at_ : W.sessions[n]? = some (.running (.deleted none) []))
    (isCall : calls[n]? = some (.deleteMessage messageId owner userId)) :
    Stepped db calls W (mailProgram.advance W n) n := by
  have compatible := Program.compatible_step mail_locking m.compatible n
  simp only [Program.advance, at_, mailProgram, nextMail, Program.view_nil] at compatible ⊢
  constructor
  · exact m.onward at_ isCall compatible (.ended _ _) rfl (by rintro id ⟨⟩)
  · exact .onward at_ rfl rfl

/-- The commit of a deletion.  Whoever else has locked a row has locked another. -/
theorem stepped_taken (m : Mailing db calls W) {messageId : MessageId} {owner : OwnerField}
    {userId : UserId} {row : Message} (there : row ∈ W.committed.messages)
    (named : row.id = messageId) (owned : owner.of row = userId)
    (at_ : W.sessions[n]? =
      some (.running (.deleted (some messageId)) [.deleteMessage messageId]))
    (isCall : calls[n]? = some (.deleteMessage messageId owner userId)) :
    Stepped db calls W (mailProgram.advance W n) n := by
  have compatible := Program.compatible_step mail_locking m.compatible n
  simp only [Program.advance, at_, mailProgram, nextMail, Program.view_cons, Program.view_nil,
    writeMail] at compatible ⊢
  constructor
  · refine m.replace at_ isCall ?_ ?_ ?_ ?_ compatible ?_ (.ended _ _)
      (by rintro id ⟨⟩) (by rintro id ⟨⟩)
      (by rintro row own ⟨⟩)
    · rfl
    · exact m.ids.sublist (List.filter_sublist.map _)
    · exact le_refl _
    · exact fun row stored => m.below row (List.mem_of_mem_filter stored)
    · intro k session call' other at_k served
      cases served with
      | begun => exact .begun _
      | stored _ _ _ _ id known fresh =>
          exact .stored _ _ _ _ id known fun stored => fresh
            ((List.filter_sublist.map Message.id).subset stored)
      | locking _ _ _ owned =>
          exact .locking _ _ _ fun row stored => owned row (List.mem_of_mem_filter stored)
      | gone => exact .gone _ _ _
      | taken otherId _ _ row' stored named' owned' =>
          refine .taken _ _ _ row' (List.mem_filter.mpr ⟨stored, ?_⟩) named' owned'
          -- two open sessions never hold the same row
          have differs : otherId ≠ messageId := by
            rintro rfl
            exact m.compatible k n _ _ _ _ other at_k at_ _ List.mem_cons_self _
              List.mem_cons_self ⟨_, rfl, rfl⟩
          simpa [named'] using differs
      | ended => exact .ended _ _
  · refine .settles at_ isCall rfl rfl ?_
    exact deletes_row m.ids there named owned

/-- **Each step settles nothing, or what a mailbox answers.** -/
theorem stepped (m : Mailing db calls W) (n : Nat) :
    Stepped db calls W (mailProgram.advance W n) n := by
  cases at_ : W.sessions[n]? with
  | none =>
      simp only [Program.advance, at_]
      exact ⟨m, .quiet rfl rfl⟩
  | some session =>
      obtain ⟨call, isCall, served⟩ := m.serving n session at_
      cases served with
      | begun =>
          cases call with
          | storeMessage => exact stepped_storeMessage m at_ isCall
          | deleteMessage => exact stepped_deleteMessage m at_ isCall
      | stored _ _ _ _ _ known fresh => exact stepped_stored m known fresh at_ isCall
      | locking _ _ _ owned => exact stepped_locking m owned at_ isCall
      | gone => exact stepped_gone m at_ isCall
      | taken _ _ _ row there named owned => exact stepped_taken m there named owned at_ isCall
      | ended =>
          simp only [Program.advance, at_]
          exact ⟨m, .quiet rfl rfl⟩

end Steps

/-! ## Every run -/

section Runs

variable {db : Database} {calls : List Call}

theorem opened_at {n : Nat} {session : Session Point Write Answer}
    (at_ : (opened db calls).sessions[n]? = some session) :
    ∃ call, calls[n]? = some call ∧ session = .running (.statement call) [] := by
  simp only [opened, List.getElem?_map, Option.map_eq_some_iff] at at_
  obtain ⟨call, isCall, rfl⟩ := at_
  exact ⟨call, isCall, rfl⟩

theorem mailing_opened (c : Constraints db) : Mailing db calls (opened db calls) where
  users := rfl
  ids := c.messages.keys_nodup
  below := c.nextMessage
  forward := le_refl _
  serving := by
    intro n session at_
    obtain ⟨call, isCall, rfl⟩ := opened_at at_
    exact ⟨call, isCall, .begun call⟩
  drawn := by
    intro n session id at_ isDrawn
    obtain ⟨call, -, rfl⟩ := opened_at at_
    cases isDrawn
  drawnOnce := by
    intro n m session other id at_ _ isDrawn
    obtain ⟨call, -, rfl⟩ := opened_at at_
    cases isDrawn
  chosen := by
    intro n session id at_ isChosen
    obtain ⟨call, -, rfl⟩ := opened_at at_
    cases isChosen
  compatible := by
    intro n m point own point' own' _ at_ _ wr holds
    obtain ⟨call, -, same⟩ := opened_at at_
    cases same
    cases holds

theorem mail_linearizable (c : Constraints db) (calls : List Call) :
    mailProgram.Linearizable settled (Mailbox db) calls Database.messages (opened db calls)
      (Mailing db calls) where
  ends := fun _ => rfl
  fresh := by
    refine fun n => Program.settledAt_none fun session at_ => ?_
    obtain ⟨call, -, rfl⟩ := opened_at at_
    rfl
  holds := mailing_opened c
  keeps := fun _ n m => (stepped m n).mailing
  effect := fun _ n m => (stepped m n).effect

/-- No two sends were given one id. -/
theorem stored_once (c : Constraints db) (schedule : List Nat) {n m : Nat} {id : MessageId}
    (one : (n, .stored id) ∈ mailProgram.history settled (opened db calls) schedule)
    (other : (m, .stored id) ∈ mailProgram.history settled (opened db calls) schedule) : n = m := by
  have law := mail_linearizable c calls
  have ended : ∀ {k : Nat}, (k, Answer.stored id) ∈
      mailProgram.history settled (opened db calls) schedule →
        ((mailProgram.system (opened db calls)).run schedule).sessions[k]? =
          some (.ended (.stored id)) := by
    intro k given
    obtain ⟨session, at_, isSettled⟩ := Option.bind_eq_some_iff.mp
      ((law.mem_history schedule k (.stored id)).mp given)
    rw [at_, settled_stored isSettled]
  exact (law.reached schedule).drawnOnce n m _ _ id (ended one) (ended other) rfl rfl

/-- **Direct mail is linearizable**: the answers are those of a mailbox, and of the
receipts and revocations of one message at most one finds it. -/
theorem mail_linearized (ops : List Operation) (calls : List Call) (schedule : List Nat) :
    mailProgram.Linearized settled (Mailbox (service.run ops)) calls Database.messages
        (opened (service.run ops) calls) schedule ∧
      (∀ (n m : Nat) (id : MessageId),
        ((mail (service.run ops) calls).run schedule).sessions[n]? = some (.ended (.stored id)) →
        ((mail (service.run ops) calls).run schedule).sessions[m]? = some (.ended (.stored id)) →
          n = m) ∧
      ∀ (n m : Nat) (id : MessageId), Names calls n id → Names calls m id →
        ((mail (service.run ops) calls).run schedule).sessions[n]? = some (.ended (.deleted true)) →
        ((mail (service.run ops) calls).run schedule).sessions[m]? = some (.ended (.deleted true)) →
          n = m := by
  have c := (reachable ops).constraints
  have law := mail_linearizable c calls
  have linear := law.linearized schedule
  refine ⟨linear, fun n m id one other => ?_, fun n m id named alsoNamed one other => ?_⟩
  · exact stored_once c schedule (linear.answered n _ one) (linear.answered m _ other)
  · exact found_once c.messages.keys_nodup c.nextMessage (fun _ _ _ => stored_once c schedule)
      linear.once linear.serial named alsoNamed (linear.answered n _ one) (linear.answered m _ other)

/-! ## Nobody waits for good -/

/-- How many statements a session has still to run, at most. -/
def rank : Point → Nat
  | .statement _ => 3
  | .locking _ => 2
  | .deleted _ => 1
  | .stored _ => 0

theorem rank_falls (point : Point) (own : List Write) (view : Database) (held : List Write)
    (draw : Database → Database) (point' : Point) (own' : List Write)
    (did : mailProgram.next point own view held = .proceed draw point' own') :
    rank point' < rank point := by
  cases point with
  | statement call =>
      cases call with
      | storeMessage =>
          simp only [mailProgram, nextMail] at did
          split at did <;> cases did
          exact Nat.zero_lt_succ 2
      | deleteMessage =>
          simp only [mailProgram, nextMail] at did
          split at did <;> cases did
          · exact Nat.lt_succ_self 2
          · exact Nat.lt_succ_of_lt (Nat.lt_succ_self 1)
  | stored row => cases did
  | locking messageId =>
      simp only [mailProgram, nextMail] at did
      split at did
      · cases did
      · split at did <;> cases did <;> exact Nat.lt_succ_self 1
  | deleted messageId => cases did

/-- A session that waits has chosen a message that another has deleted. -/
theorem waits_inversion {W : MailWorld} {n : Nat} (waits : mailProgram.Waits W n) :
    ∃ messageId, .deleteMessage messageId ∈ Program.heldBesides W.sessions n := by
  obtain ⟨point, own, -, did⟩ := waits
  cases point with
  | statement call =>
      cases call <;> simp only [mailProgram, nextMail] at did <;> split at did <;> cases did
  | stored row => cases did
  | locking messageId =>
      simp only [mailProgram, nextMail] at did
      split at did
      · rename_i held
        exact ⟨messageId, held⟩
      · split at did <;> cases did
  | deleted messageId => cases did

/-- Whoever holds a row has nothing left to do but commit. -/
theorem progress {W : MailWorld} (m : Mailing db calls W) (some_ : ∃ n, Program.Open W n) :
    ∃ n, Program.Open W n ∧ ¬ mailProgram.Waits W n ∧
      Mailing db calls (mailProgram.advance W n) := by
  obtain ⟨n, isOpen⟩ := some_
  by_cases waits : mailProgram.Waits W n
  · obtain ⟨messageId, held⟩ := waits_inversion waits
    obtain ⟨k, point, own, -, at_, holds⟩ := Program.mem_heldBesides.mp held
    refine ⟨k, ⟨point, own, at_⟩, ?_, (stepped m k).mailing⟩
    obtain ⟨call, -, served⟩ := m.serving k _ at_
    rintro ⟨point', own', there, did⟩
    cases at_.symm.trans there
    cases served with
    | begun => cases holds
    | stored => simp at holds
    | locking => cases holds
    | gone => cases holds
    | taken => cases did
  · exact ⟨n, isOpen, waits, (stepped m n).mailing⟩

/-- **Direct mail does not deadlock**: every run can be continued until all calls are answered. -/
theorem mail_finishes (ops : List Operation) (calls : List Call) (schedule : List Nat) :
    ∃ later, ∀ n, ¬ Program.Open ((mail (service.run ops) calls).run (schedule ++ later)) n := by
  have law := mail_linearizable (reachable ops).constraints calls
  obtain ⟨later, ended⟩ := Program.finishes rank_falls (Mailing (service.run ops) calls)
    (fun W m some_ => progress m some_) (law.reached schedule)
  refine ⟨later, ?_⟩
  rw [mail, Program.run_append]
  exact ended

end Runs

end SecureMsg.Messages
