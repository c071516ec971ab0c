/-
# Groups.MailDeadlock — a revocation and the last receipt

`record_group_receipt` deletes the receipt and then the message;
`revoke_group_message` deletes the message and then, by the cascade, the receipts.
They take the rows in opposite order, and two of them that meet wait for each other
until the database aborts one, which neither method expects.

`mail_finishes_iff`: at any moment of any run of group mail (`Groups.Mail`) the calls
can all still be answered iff no message is `Crossed`: a revocation has deleted it,
and the reader of the only receipt left has deleted that and not yet looked at the
message.  A message with two receipts left is safe: either reader sees the other's
and leaves the message alone.
-/
import SecureMsg.Theory.Completion
import SecureMsg.Groups.MailLinear
import Mathlib.Data.Prod.Lex

namespace SecureMsg.Groups

open SecureMsg.Theory SecureMsg.Store SecureMsg.Repository

set_option autoImplicit false

namespace Mail

/-! ## Crossings -/

/-- Session `r` revokes the message, which it has deleted. -/
def Cascades (W : MailWorld) (r : Nat) (messageId : MessageId) : Prop :=
  ∃ pending own, W.sessions[r]? = some (.running (.cascading messageId pending (.revoked true)) own)

/-- Session `n` has deleted the user's receipt and not yet looked at the message. -/
def Acknowledges (W : MailWorld) (n : Nat) (messageId : MessageId) (userId : UserId) : Prop :=
  ∃ own, W.sessions[n]? = some (.running (.acknowledged messageId userId) own)

def Crosses (W : MailWorld) (messageId : MessageId) (userId : UserId) : Prop :=
  (∃ r, Cascades W r messageId) ∧ ∃ n, Acknowledges W n messageId userId

/-- They cross over the last receipt of the message. -/
def Crossed (W : MailWorld) (messageId : MessageId) : Prop :=
  ∃ userId, Crosses W messageId userId ∧
    ∀ receipt ∈ W.committed.groupMessageReceipts, receipt.messageId = messageId →
      receipt.userId = userId

section Steps

variable {db : Database} {calls : List Call} {W : MailWorld} {k n r : Nat}
  {messageId : MessageId} {userId : UserId}

/-! ### What a statement leads to -/

theorem nextMail_cascading {point : Point} {own held own' : List Write} {view : Database}
    {draw : Database → Database} {pending : List UserId}
    (did : mailProgram.next point own view held =
      .proceed draw (.cascading messageId pending (.revoked true)) own') :
    point = .revoking messageId ∨
      ∃ before, point = .cascading messageId before (.revoked true) := by
  cases point with
  | statement call =>
      cases call <;> simp only [mailProgram, nextMail, nextStatement] at did <;>
        (try split at did) <;> (try split at did) <;> cases did
  | inserted row =>
      simp only [mailProgram, nextMail] at did
      split at did <;> cases did
  | revoking id =>
      simp only [mailProgram, nextMail] at did
      split at did
      · cases did
      · split at did <;> cases did
        exact Or.inl rfl
  | acknowledged id uid =>
      simp only [mailProgram, nextMail] at did
      split at did
      · split at did <;> cases did
      · cases did
  | cascading id waiting answer =>
      cases waiting with
      | nil => cases did
      | cons uid waiting =>
          simp only [mailProgram, nextMail] at did
          split at did
          · cases did
            exact Or.inr ⟨_, rfl⟩
          · split at did <;> cases did
            exact Or.inr ⟨_, rfl⟩
  | committing answer => cases did

theorem nextMail_acknowledged {point : Point} {own held own' : List Write} {view : Database}
    {draw : Database → Database}
    (did : mailProgram.next point own view held =
      .proceed draw (.acknowledged messageId userId) own') :
    point = .statement (.recordGroupReceipt messageId userId) := by
  cases point with
  | statement call =>
      cases call with
      | recordGroupReceipt id uid =>
          simp only [mailProgram, nextMail, nextStatement] at did
          split at did
          · cases did
          · split at did <;> cases did
            rfl
      | _ =>
          simp only [mailProgram, nextMail, nextStatement] at did
          (try split at did) <;> cases did
  | inserted row =>
      simp only [mailProgram, nextMail] at did
      split at did <;> cases did
  | revoking id =>
      simp only [mailProgram, nextMail] at did
      split at did
      · cases did
      · split at did <;> cases did
  | acknowledged id uid =>
      simp only [mailProgram, nextMail] at did
      split at did
      · split at did <;> cases did
      · cases did
  | cascading id waiting answer =>
      cases waiting with
      | nil => cases did
      | cons uid waiting =>
          simp only [mailProgram, nextMail] at did
          split at did
          · cases did
          · split at did <;> cases did
  | committing answer => cases did

/-- Who revokes a message after a step did so before, or was about to. -/
theorem cascades_before (after : Cascades (mailProgram.advance W k) r messageId) :
    Cascades W r messageId ∨
      ∃ own, r = k ∧ W.sessions[k]? = some (.running (.revoking messageId) own) := by
  obtain ⟨pending, own, found⟩ := after
  rcases Program.running_before found with there | ⟨point, held, draw, rfl, at_, did⟩
  · exact Or.inl ⟨pending, own, there⟩
  · rcases nextMail_cascading did with rfl | ⟨before, rfl⟩
    · exact Or.inr ⟨held, rfl, at_⟩
    · exact Or.inl ⟨before, held, at_⟩

theorem acknowledges_before (after : Acknowledges (mailProgram.advance W k) n messageId userId) :
    Acknowledges W n messageId userId ∨ ∃ own, n = k ∧
      W.sessions[k]? = some (.running (.statement (.recordGroupReceipt messageId userId)) own) := by
  obtain ⟨own, found⟩ := after
  rcases Program.running_before found with there | ⟨point, held, draw, rfl, at_, did⟩
  · exact Or.inl ⟨own, there⟩
  · cases nextMail_acknowledged did
    exact Or.inr ⟨held, rfl, at_⟩

/-- A step of a session that has begun crosses no message that was not. -/
theorem crosses_before (crosses : Crosses (mailProgram.advance W k) messageId userId)
    (unchosen : ∀ own, W.sessions[k]? ≠ some (.running (.revoking messageId) own))
    (begun : ∀ call own, W.sessions[k]? ≠ some (.running (.statement call) own)) :
    Crosses W messageId userId := by
  obtain ⟨⟨r, cascades⟩, n, acknowledges⟩ := crosses
  constructor
  · rcases cascades_before cascades with before | ⟨own, -, at_⟩
    · exact ⟨r, before⟩
    · exact absurd at_ (unchosen own)
  · rcases acknowledges_before acknowledges with before | ⟨own, -, at_⟩
    · exact ⟨n, before⟩
    · exact absurd at_ (begun _ own)

/-! ### What a session waits for -/

/-- A session that waits wants a row that another has deleted. -/
theorem waits_inversion (waits : mailProgram.Waits W n) :
    (∃ messageId userId own, W.sessions[n]? =
        some (.running (.statement (.recordGroupReceipt messageId userId)) own) ∧
      .deleteReceipt messageId userId ∈ Program.heldBesides W.sessions n) ∨
    (∃ messageId own, W.sessions[n]? = some (.running (.revoking messageId) own) ∧
      .deleteMessage messageId ∈ Program.heldBesides W.sessions n) ∨
    (∃ messageId userId own, W.sessions[n]? = some (.running (.acknowledged messageId userId) own) ∧
      Acknowledge.Read (mailProgram.view W.committed own) messageId ∧
      .deleteMessage messageId ∈ Program.heldBesides W.sessions n) ∨
    ∃ messageId userId pending answer own, W.sessions[n]? =
        some (.running (.cascading messageId (userId :: pending) answer) own) ∧
      .deleteReceipt messageId userId ∈ Program.heldBesides W.sessions n := by
  obtain ⟨point, own, at_, did⟩ := waits
  cases point with
  | statement call =>
      cases call with
      | recordGroupReceipt id uid =>
          simp only [mailProgram, nextMail, nextStatement] at did
          split at did
          · rename_i held
            exact Or.inl ⟨id, uid, own, at_, held⟩
          · split at did <;> cases did
      | _ =>
          simp only [mailProgram, nextMail, nextStatement] at did
          (try split at did) <;> cases did
  | inserted row =>
      simp only [mailProgram, nextMail] at did
      split at did <;> cases did
  | revoking id =>
      simp only [mailProgram, nextMail] at did
      split at did
      · rename_i held
        exact Or.inr (Or.inl ⟨id, own, at_, held⟩)
      · split at did <;> cases did
  | acknowledged id uid =>
      change nextMail (.acknowledged id uid) own (mailProgram.view W.committed own) _ = _ at did
      simp only [nextMail] at did
      split at did
      · rename_i seen
        split at did
        · rename_i held
          exact Or.inr (Or.inr (Or.inl ⟨id, uid, own, at_, seen.2, held⟩))
        · cases did
      · cases did
  | cascading id waiting answer =>
      cases waiting with
      | nil => cases did
      | cons uid waiting =>
          simp only [mailProgram, nextMail] at did
          split at did
          · cases did
          · split at did
            · rename_i held
              exact Or.inr (Or.inr (Or.inr ⟨id, uid, waiting, answer, own, at_, held⟩))
            · cases did
  | committing answer => cases did

/-- A message is held by a revocation of it, or by its last reader. -/
theorem holds_message (p : Posting db calls W)
    (held : .deleteMessage messageId ∈ Program.heldBesides W.sessions n) :
    (∃ r, r ≠ n ∧ Cascades W r messageId) ∨
      ∃ (r : Nat) (own : List Write),
        W.sessions[r]? = some (.running (.cascading messageId [] .recorded) own) := by
  obtain ⟨r, point, own, other, at_, holds⟩ := Program.mem_heldBesides.mp held
  obtain ⟨call, -, served⟩ := p.serving r _ at_
  cases served with
  | begun => cases holds
  | inserted => simp at holds
  | addressed => simp at holds
  | revoking => cases holds
  | cascading id _ _ _ _ _ taken _ pending =>
      have same : messageId = id := by simpa using holds
      subst same
      exact Or.inl ⟨r, other, pending, _, at_⟩
  | acknowledged => simp at holds
  | unread => simp at holds
  | read id uid =>
      have same : messageId = id := by simpa using holds
      subst same
      exact Or.inr ⟨r, _, at_⟩

/-- A receipt is held by a revocation of its message, or by its reader. -/
theorem holds_receipt (p : Posting db calls W)
    (held : .deleteReceipt messageId userId ∈ Program.heldBesides W.sessions n) :
    (∃ r, r ≠ n ∧ Cascades W r messageId) ∨ (∃ r, Acknowledges W r messageId userId) ∨
      (∃ (r : Nat) (own : List Write),
        W.sessions[r]? = some (.running (.committing .recorded) own)) ∨
      ∃ (r : Nat) (own : List Write),
        W.sessions[r]? = some (.running (.cascading messageId [] .recorded) own) := by
  obtain ⟨r, point, own, other, at_, holds⟩ := Program.mem_heldBesides.mp held
  obtain ⟨call, -, served⟩ := p.serving r _ at_
  cases served with
  | begun => cases holds
  | inserted => simp at holds
  | addressed => simp at holds
  | revoking => cases holds
  | cascading id _ _ _ _ _ taken _ pending =>
      have same : id = messageId := by
        rcases List.mem_cons.mp holds with isMessage | isTaken
        · cases isMessage
        · obtain ⟨uid, -, same⟩ := List.mem_map.mp isTaken
          cases same
          rfl
      subst same
      exact Or.inl ⟨r, other, pending, _, at_⟩
  | acknowledged id uid =>
      obtain ⟨rfl, rfl⟩ : messageId = id ∧ userId = uid := by simpa using holds
      exact Or.inr (Or.inl ⟨r, _, at_⟩)
  | unread => exact Or.inr (Or.inr (Or.inl ⟨r, _, at_⟩))
  | read id uid =>
      obtain ⟨rfl, rfl⟩ : messageId = id ∧ userId = uid := by simpa using holds
      exact Or.inr (Or.inr (Or.inr ⟨r, _, at_⟩))

theorem Cascades.holds (p : Posting db calls W) (cascades : Cascades W r messageId) :
    ∃ pending own, W.sessions[r]? =
      some (.running (.cascading messageId pending (.revoked true)) own) ∧
        .deleteMessage messageId ∈ own := by
  obtain ⟨pending, own, at_⟩ := cascades
  obtain ⟨call, -, served⟩ := p.serving r _ at_
  cases served with
  | cascading => exact ⟨pending, _, at_, List.mem_cons_self⟩

/-- Two revocations never hold one message. -/
theorem cascades_unique (p : Posting db calls W) (one : Cascades W r messageId)
    (other : Cascades W k messageId) : r = k := by
  obtain ⟨_, _, there, holds⟩ := one.holds p
  obtain ⟨_, _, alsoThere, alsoHolds⟩ := other.holds p
  by_contra different
  exact p.compatible r k _ _ _ _ different there alsoThere _ holds _ alsoHolds
    ⟨rfl, .message messageId⟩

/-! ### Some session can go on -/

/-- A point whose statement waits for nothing. -/
inductive Point.Free : Point → Prop where
  | inserted (row : GroupMessage) : Free (.inserted row)
  | cascaded (messageId : MessageId) (answer : Answer) : Free (.cascading messageId [] answer)
  | committing (answer : Answer) : Free (.committing answer)

theorem free_moves {point : Point} {own : List Write}
    (at_ : W.sessions[k]? = some (.running point own)) (free : point.Free) :
    ¬ mailProgram.Waits W k := by
  intro waits
  rcases waits_inversion waits with ⟨_, _, _, there, -⟩ | ⟨_, _, there, -⟩ |
    ⟨_, _, _, there, -⟩ | ⟨_, _, _, _, _, there, -⟩
  all_goals
    rw [at_] at there
    cases there
    cases free

/-- Session `k` has written, or chosen to write nothing more. -/
def Past (W : MailWorld) (k : Nat) : Prop :=
  ∃ point own, W.sessions[k]? = some (.running point own) ∧ (∀ call, point ≠ .statement call) ∧
    ∀ messageId, point ≠ .revoking messageId

/-- Where nobody crosses anybody, one of the sessions that have written can go on. -/
theorem calm_moves (p : Posting db calls W)
    (calm : ∀ messageId userId, ¬ Crosses W messageId userId)
    (past : ∃ k, Past W k) : ∃ k, Past W k ∧ ¬ mailProgram.Waits W k := by
  by_cases free : ∃ (k : Nat) (point : Point) (own : List Write),
      W.sessions[k]? = some (.running point own) ∧ point.Free
  · obtain ⟨k, point, own, at_, free⟩ := free
    refine ⟨k, ⟨point, own, at_, ?_, ?_⟩, free_moves at_ free⟩
    · rintro call rfl
      cases free
    · rintro messageId rfl
      cases free
  · have notFree : ∀ {k : Nat} {point own}, W.sessions[k]? = some (.running point own) →
        ¬ point.Free := fun at_ isFree => free ⟨_, _, _, at_, isFree⟩
    by_cases reads : ∃ n messageId userId, Acknowledges W n messageId userId
    · -- a reader waits for a message that is held by somebody who waits for nothing
      obtain ⟨n, messageId, userId, own, at_⟩ := reads
      refine ⟨n, ⟨_, own, at_, by rintro call ⟨⟩, by rintro id ⟨⟩⟩, fun waits => ?_⟩
      rcases waits_inversion waits with ⟨_, _, _, there, -⟩ | ⟨_, _, there, -⟩ |
        ⟨id, uid, _, there, -, held⟩ | ⟨_, _, _, _, _, there, -⟩ <;>
        rw [at_] at there <;> cases there
      rcases holds_message p held with ⟨r, -, cascades⟩ | ⟨r, _, there⟩
      · exact calm messageId userId ⟨⟨r, cascades⟩, n, own, at_⟩
      · exact notFree there (.cascaded ..)
    · -- a revocation waits for a receipt, and nobody holds one for long
      obtain ⟨k, point, own, at_, begun, chosen⟩ := past
      refine ⟨k, ⟨point, own, at_, begun, chosen⟩, fun waits => ?_⟩
      rcases waits_inversion waits with ⟨_, _, _, there, -⟩ | ⟨_, _, there, -⟩ |
        ⟨id, uid, _, there, -⟩ | ⟨id, uid, pending, answer, _, there, held⟩ <;>
        rw [at_] at there <;> cases there
      · exact begun _ rfl
      · exact chosen _ rfl
      · exact reads ⟨k, id, uid, own, at_⟩
      · obtain ⟨call, -, served⟩ := p.serving k _ at_
        cases served with
        | cascading =>
            rcases holds_receipt p held with ⟨r, other, cascades⟩ | ⟨r, acknowledges⟩ |
              ⟨r, _, there⟩ | ⟨r, _, there⟩
            · exact other (cascades_unique p cascades ⟨_, _, at_⟩)
            · exact reads ⟨r, id, uid, acknowledges⟩
            · exact notFree there (.committing _)
            · exact notFree there (.cascaded ..)

/-- Where nobody is past the first statements, nothing is held and anybody can go on. -/
theorem fresh_moves (p : Posting db calls W)
    (fresh : ∀ (k : Nat) point own, W.sessions[k]? = some (.running point own) →
      (∃ call, point = .statement call) ∨ ∃ messageId, point = .revoking messageId) (k : Nat) :
    ¬ mailProgram.Waits W k := by
  have nothing : ∀ wr, wr ∉ Program.heldBesides W.sessions k := by
    intro wr held
    obtain ⟨r, point, own, -, at_, holds⟩ := Program.mem_heldBesides.mp held
    obtain ⟨call, -, served⟩ := p.serving r _ at_
    rcases fresh r point own at_ with ⟨_, rfl⟩ | ⟨_, rfl⟩ <;> cases served <;> cases holds
  intro waits
  rcases waits_inversion waits with ⟨_, _, _, -, held⟩ | ⟨_, _, -, held⟩ |
    ⟨_, _, _, -, -, held⟩ | ⟨_, _, _, _, _, -, held⟩
  all_goals exact nothing _ held

/-- A reader who sees another receipt leaves the message to the other. -/
theorem acknowledged_sees (p : Posting db calls W) {own : List Write}
    (at_ : W.sessions[n]? = some (.running (.acknowledged messageId userId) own))
    (others : ¬ ∀ receipt ∈ W.committed.groupMessageReceipts, receipt.messageId = messageId →
      receipt.userId = userId) :
    mailProgram.advance W n =
      ⟨W.committed, W.sessions.set n (.running (.committing .recorded) own)⟩ := by
  obtain ⟨call, -, served⟩ := p.serving n _ at_
  cases served with
  | acknowledged =>
      have unread := mt read_iff.mp others
      simp only [Program.advance, at_, mailProgram, nextMail, Program.view_cons, Program.view_nil,
        writeMail, unread, and_false, if_false]
      rfl

/-- **While no message is crossed, some session can go on and leave it so.** -/
theorem progress (c : Constraints db) (p : Posting db calls W)
    (uncrossed : ∀ messageId, ¬ Crossed W messageId) (some_ : ∃ n, Program.Open W n) :
    ∃ k, Program.Open W k ∧ ¬ mailProgram.Waits W k ∧ Posting db calls (mailProgram.advance W k) ∧
      ∀ messageId, ¬ Crossed (mailProgram.advance W k) messageId := by
  by_cases calm : ∀ messageId userId, ¬ Crosses W messageId userId
  · by_cases past : ∃ k, Past W k
    · obtain ⟨k, ⟨point, own, at_, begun, chosen⟩, moves⟩ := calm_moves p calm past
      refine ⟨k, ⟨point, own, at_⟩, moves, (stepped c p k).posting, ?_⟩
      rintro messageId ⟨userId, crosses, -⟩
      refine calm messageId userId (crosses_before crosses ?_ ?_)
      · intro held there
        cases at_.symm.trans there
        exact chosen _ rfl
      · intro call held there
        cases at_.symm.trans there
        exact begun _ rfl
    · have fresh : ∀ (k : Nat) point own, W.sessions[k]? = some (.running point own) →
          (∃ call, point = .statement call) ∨ ∃ messageId, point = .revoking messageId := by
        intro k point own at_
        by_contra neither
        push Not at neither
        exact past ⟨k, point, own, at_, neither.1, neither.2⟩
      obtain ⟨k, isOpen⟩ := some_
      refine ⟨k, isOpen, fresh_moves p fresh k, (stepped c p k).posting, ?_⟩
      -- one session alone crosses nobody
      rintro messageId ⟨userId, ⟨⟨r, cascades⟩, n, acknowledges⟩, -⟩
      rcases cascades_before cascades with ⟨_, own, there⟩ | ⟨own, -, at_⟩
      · rcases fresh r _ own there with ⟨_, same⟩ | ⟨_, same⟩ <;> cases same
      · rcases acknowledges_before acknowledges with ⟨held, there⟩ | ⟨held, -, there⟩
        · rcases fresh n _ held there with ⟨_, same⟩ | ⟨_, same⟩ <;> cases same
        · cases at_.symm.trans there
  · -- somebody crosses a reader who is not the last: the reader goes on
    push Not at calm
    obtain ⟨messageId, userId, crosses⟩ := calm
    obtain ⟨n, own, at_⟩ := crosses.2
    have others : ¬ ∀ receipt ∈ W.committed.groupMessageReceipts, receipt.messageId = messageId →
        receipt.userId = userId := fun last => uncrossed messageId ⟨userId, crosses, last⟩
    have moved := acknowledged_sees p at_ others
    refine ⟨n, ⟨_, own, at_⟩, fun waits => ?_, (stepped c p n).posting, ?_⟩
    · have stays := (Program.advance_waits waits).symm.trans moved
      have there : W.sessions[n]? = some (.running (.committing .recorded) own) := by
        rw [stays]
        exact (getElem?_replaced at_).mpr (Or.inl ⟨rfl, rfl⟩)
      cases at_.symm.trans there
    · rintro id ⟨uid, after, last⟩
      refine uncrossed id ⟨uid, crosses_before after ?_ ?_, ?_⟩
      · intro held there
        cases at_.symm.trans there
      · intro call held there
        cases at_.symm.trans there
      · rw [moved] at last
        exact last

/-! ### A crossing stays -/

/-- No call adds a receipt to a message that is stored. -/
theorem Noticeboard.receipts_kept {board after : Board} {call : Call} {answer : Answer}
    (served : Noticeboard db board call answer after)
    (stored : messageId ∈ board.messages.map GroupMessage.id) :
    ∀ receipt ∈ after.receipts, receipt.messageId = messageId → receipt ∈ board.receipts := by
  intro receipt there isFor
  cases served with
  | stores _ _ _ _ _ _ _ _ fresh =>
      rcases List.mem_append.mp there with before | isNew
      · exact before
      · rw [← isFor, (mem_receiptRows.mp isNew).1] at stored
        exact absurd stored fresh
  | refuses => exact there
  | fetches => exact there
  | revokes =>
      rw [revokeGroupMessage_fst] at there
      exact List.mem_of_mem_filter there
  | acknowledges _ _ _ _ done =>
      obtain ⟨-, rfl⟩ := recordGroupReceipt_ok done
      exact List.mem_of_mem_filter (List.mem_of_mem_filter there)
  | leavesMessage => exact List.mem_of_mem_filter there
  | unknown => exact there

/-- The reader waits for the message. -/
theorem crossed_reader_waits (p : Posting db calls W) (cascades : Cascades W r messageId)
    {own : List Write} (at_ : W.sessions[n]? = some (.running (.acknowledged messageId userId) own))
    (last : ∀ receipt ∈ W.committed.groupMessageReceipts, receipt.messageId = messageId →
      receipt.userId = userId) : mailProgram.Waits W n := by
  obtain ⟨pending, held, there, holds⟩ := cascades.holds p
  obtain ⟨call, -, served⟩ := p.serving n _ at_
  have different : r ≠ n := by
    rintro rfl
    cases at_.symm.trans there
  have isHeld : .deleteMessage messageId ∈ Program.heldBesides W.sessions n :=
    Program.mem_heldBesides.mpr ⟨r, _, held, different, there, holds⟩
  cases served with
  | acknowledged _ _ waiting =>
      have stored : messageId ∈ (W.committed.deleteReceipt messageId userId).groupMessageIds :=
        p.addressed _ waiting
      have read := read_iff.mpr last
      refine ⟨_, _, at_, ?_⟩
      simp only [mailProgram, nextMail, Program.view_cons, Program.view_nil, writeMail, stored,
        read, and_self, if_true, isHeld]

/-- The revocation waits for the receipt, or skips one that has gone. -/
theorem crossed_revocation_waits (p : Posting db calls W) {pending : List UserId}
    {own held : List Write}
    (at_ : W.sessions[r]? = some (.running (.cascading messageId pending (.revoked true)) own))
    (reader : W.sessions[n]? = some (.running (.acknowledged messageId userId) held))
    (last : ∀ receipt ∈ W.committed.groupMessageReceipts, receipt.messageId = messageId →
      receipt.userId = userId) :
    mailProgram.Waits W r ∨ ∃ rest, mailProgram.advance W r = ⟨W.committed,
      W.sessions.set r (.running (.cascading messageId rest (.revoked true)) own)⟩ := by
  obtain ⟨call, -, served⟩ := p.serving r _ at_
  obtain ⟨call', -, served'⟩ := p.serving n _ reader
  have different : n ≠ r := by
    rintro rfl
    cases at_.symm.trans reader
  cases served' with
  | acknowledged _ _ waiting =>
      cases served with
      | cascading _ _ row there named sent taken _ _ complete =>
          -- the reader holds its receipt, so the cascade has not taken it
          have untaken : userId ∉ taken := by
            intro isTaken
            exact p.compatible n r _ _ _ _ different reader at_ _ List.mem_cons_self _
              (List.mem_cons_of_mem _ (List.mem_map_of_mem isTaken)) ⟨rfl, .receipt ..⟩
          have isHeld : .deleteReceipt messageId userId ∈ Program.heldBesides W.sessions r :=
            Program.mem_heldBesides.mpr ⟨n, _, _, different, reader, List.mem_cons_self⟩
          cases pending with
          | nil =>
              rcases complete _ waiting rfl with isTaken | isPending
              · exact absurd isTaken untaken
              · cases isPending
          | cons uid rest =>
              have inSight := @mem_view_cascading messageId taken W.committed uid
              by_cases left : ⟨messageId, uid⟩ ∈ W.committed.groupMessageReceipts ∧ uid ∉ taken
              · have isLast : uid = userId := last _ left.1 rfl
                subst isLast
                refine Or.inl ⟨_, _, at_, ?_⟩
                have seen := inSight.mpr left
                generalize mailProgram.view W.committed (.deleteMessage messageId ::
                  taken.map (.deleteReceipt messageId)) = view at seen
                simp only [mailProgram, nextMail, seen, not_true, if_false, isHeld, if_true]
              · refine Or.inr ⟨rest, ?_⟩
                have unseen := mt inSight.mp left
                simp only [Program.advance, at_]
                generalize mailProgram.view W.committed (.deleteMessage messageId ::
                  taken.map (.deleteReceipt messageId)) = view at unseen
                simp only [mailProgram, nextMail, unseen, not_false_eq_true, if_true]
                rfl

theorem crossed_step (c : Constraints db) (p : Posting db calls W) (crossed : Crossed W messageId)
    (k : Nat) : Crossed (mailProgram.advance W k) messageId := by
  obtain ⟨userId, ⟨⟨r, pending, own, at_⟩, n, held, reader⟩, last⟩ := crossed
  have cascades : Cascades W r messageId := ⟨pending, own, at_⟩
  by_cases isReader : k = n
  · subst isReader
    rw [Program.advance_waits (crossed_reader_waits p cascades reader last)]
    exact ⟨userId, ⟨⟨r, cascades⟩, k, held, reader⟩, last⟩
  · by_cases isRevocation : k = r
    · subst isRevocation
      rcases crossed_revocation_waits p at_ reader last with waits | ⟨rest, moved⟩
      · rw [Program.advance_waits waits]
        exact ⟨userId, ⟨⟨k, cascades⟩, n, held, reader⟩, last⟩
      · rw [moved]
        refine ⟨userId, ⟨⟨k, rest, own, ?_⟩, n, held, ?_⟩, last⟩
        · exact (getElem?_replaced at_).mpr (Or.inl ⟨rfl, rfl⟩)
        · exact (getElem?_replaced at_).mpr (Or.inr ⟨Ne.symm isReader, reader⟩)
    · -- the two stay where they are, and nobody adds a receipt
      refine ⟨userId, ⟨⟨r, pending, own, ?_⟩, n, held, ?_⟩, fun receipt there isFor => ?_⟩
      · rw [Program.advance_other (Ne.symm isRevocation), at_]
      · rw [Program.advance_other (Ne.symm isReader), reader]
      · cases (stepped c p k).effect with
        | quiet _ kept =>
            rw [show (mailProgram.advance W k).committed.groupMessageReceipts =
              W.committed.groupMessageReceipts from congrArg Board.receipts kept] at there
            exact last receipt there isFor
        | takes _ _ _ _ _ allowed =>
            obtain ⟨call, -, served⟩ := p.serving r _ at_
            cases served with
            | cascading _ _ row stored named =>
                exact last receipt (allowed.receipts_kept
                  (List.mem_map.mpr ⟨row, stored, named⟩) receipt there isFor) isFor

/-- **A crossing stays**, whatever is run. -/
theorem crossed_stays (c : Constraints db) (p : Posting db calls W) (crossed : Crossed W messageId)
    (later : List Nat) : Crossed (later.foldl mailProgram.advance W) messageId := by
  induction later generalizing W with
  | nil => exact crossed
  | cons k later ih => exact ih (stepped c p k).posting (crossed_step c p crossed k)

/-! ### Every statement leads on -/

/-- How far a session is, and what a cascade has still to delete. -/
def rank : Point → Nat ×ₗ Nat
  | .statement _ => toLex (3, 0)
  | .inserted _ | .revoking _ | .acknowledged _ _ => toLex (2, 0)
  | .cascading _ pending _ => toLex (1, pending.length)
  | .committing _ => toLex (0, 0)

theorem rank_falls (point : Point) (own : List Write) (view : Database) (held : List Write)
    (draw : Database → Database) (point' : Point) (own' : List Write)
    (did : mailProgram.next point own view held = .proceed draw point' own') :
    rank point' < rank point := by
  cases point with
  | statement call =>
      cases call with
      | getGroupMessages => cases did
      | _ =>
          simp only [mailProgram, nextMail, nextStatement] at did
          split at did <;> (try split at did) <;> cases did
          all_goals exact Prod.Lex.toLex_lt_toLex.mpr (Or.inl (by decide))
  | inserted row =>
      simp only [mailProgram, nextMail] at did
      split at did <;> cases did
      exact Prod.Lex.toLex_lt_toLex.mpr (Or.inl (by decide))
  | revoking id =>
      simp only [mailProgram, nextMail] at did
      split at did
      · cases did
      · split at did <;> cases did
        exact Prod.Lex.toLex_lt_toLex.mpr (Or.inl (Nat.lt_succ_self 1))
  | acknowledged id uid =>
      simp only [mailProgram, nextMail] at did
      split at did
      · split at did <;> cases did
        exact Prod.Lex.toLex_lt_toLex.mpr (Or.inl (Nat.lt_succ_self 1))
      · cases did
        exact Prod.Lex.toLex_lt_toLex.mpr (Or.inl Nat.zero_lt_two)
  | cascading id pending answer =>
      cases pending with
      | nil => cases did
      | cons uid pending =>
          simp only [mailProgram, nextMail] at did
          have shorter : rank (.cascading id pending answer) <
              rank (.cascading id (uid :: pending) answer) :=
            Prod.Lex.toLex_lt_toLex.mpr (Or.inr ⟨rfl, Nat.lt_succ_self _⟩)
          split at did
          · cases did
            exact shorter
          · split at did <;> cases did
            exact shorter
  | committing answer => cases did

end Steps

/-! ## Every run -/

/-- **When group mail can come to its end**: the calls can all be answered iff no
revocation and last receipt have crossed. -/
theorem mail_finishes_iff (ops : List Operation) (calls : List Call) (schedule : List Nat) :
    (∃ later, ∀ n, ¬ Program.Open ((mail (service.run ops) calls).run (schedule ++ later)) n) ↔
      ∀ messageId, ¬ Crossed ((mail (service.run ops) calls).run schedule) messageId := by
  have c := (reachable ops).constraints
  have law := mail_linearizable c calls
  have p := law.reached schedule
  simp only [mail, Program.run_append]
  constructor
  · rintro ⟨later, ended⟩ messageId crossed
    -- the crossing stays to the end, and the revocation is open
    obtain ⟨userId, ⟨⟨r, pending, own, at_⟩, -⟩, -⟩ := crossed_stays c p crossed later
    exact ended r ⟨_, own, at_⟩
  · intro uncrossed
    exact Program.finishes rank_falls
      (fun W => Posting (service.run ops) calls W ∧ ∀ messageId, ¬ Crossed W messageId)
      (fun W holds some_ => progress c holds.1 holds.2 some_) ⟨p, uncrossed⟩

/-- It happens: the sender revokes a message with one receipt left while its reader
acknowledges it. -/
theorem crossing_reached {db : Database} {row : GroupMessage} (stored : row ∈ db.groupMessages)
    {userId : UserId} (waiting : ⟨row.id, userId⟩ ∈ db.groupMessageReceipts)
    (last : ∀ receipt ∈ db.groupMessageReceipts, receipt.messageId = row.id →
      receipt.userId = userId) :
    Crossed ((mail db [.revokeGroupMessage row.id row.senderId,
      .recordGroupReceipt row.id userId]).run [0, 0, 1]) row.id := by
  have sent : db.groupMessages.any (sentAs row.id row.senderId) = true :=
    List.any_eq_true.mpr ⟨row, stored, by simp [sentAs]⟩
  have listed : row.id ∈ db.groupMessageIds := List.mem_map_of_mem stored
  have reached : (mail db [.revokeGroupMessage row.id row.senderId,
      .recordGroupReceipt row.id userId]).run [0, 0, 1] =
      ⟨db, [.running (.cascading row.id (pendingReceipts db row.id) (.revoked true))
          [.deleteMessage row.id],
        .running (.acknowledged row.id userId) [.deleteReceipt row.id userId]]⟩ := by
    simp [mail, System.run, opened, Program.advance, mailProgram, nextMail, nextStatement, sent,
      listed, waiting, Program.heldBesides, Theory.Session.holds]
  rw [reached]
  exact ⟨userId, ⟨⟨0, _, _, rfl⟩, 1, _, rfl⟩, last⟩

end Mail

end SecureMsg.Groups
