/-
# Api.Membership — do only members act on a group?

Membership is checked when the dependencies of a request run; the handler stores,
pops, revokes or acknowledges later, without looking again (`add_member` and
`remove_member` do look again).  Between the two the requester can be put out of
the group.

Each request in flight is tracked with whether that has happened: a call that
`removes` the requester, with none that lets them in again since.
`members_act_iff`: over every interleaving, whoever changes something through a
group is a member of it at that moment iff no handler that has something to
change runs for a requester who was put out.
-/
import Mathlib.Data.List.InsertIdx
import SecureMsg.Api.Interleaving

namespace SecureMsg.Api

open SecureMsg.Theory SecureMsg.Store SecureMsg.Repository

set_option autoImplicit false

/-! ## Acting on a group -/

/-- The endpoints that rely on the dependency alone. -/
def GroupRequest.actsOnGroup : GroupRequest → Bool
  | .sendMessage .. | .revokeMessage _ | .recordReceipt _ | .sendSkdms .. | .popSkdms => true
  | .info | .addMember .. | .removeMember .. | .listMessages => false

/-- Whoever changes the database through a group is a member of it. -/
def ActsAsMember (st : State) : Step → Prop
  | .handle n => ∀ pending ∈ st.inFlight[n]?, ∀ group request,
      pending.endpoint = .onGroup group request → request.actsOnGroup = true →
        (handle st.db pending).1 ≠ st.db → st.db.IsMember group.id pending.currentUser.id
  | _ => True

/-- The request finds what it is about. -/
def Applies (db : Database) (requesterId : UserId) (groupId : GroupId) : GroupRequest → Prop
  | .sendMessage epoch _ => requesterId ∈ db.userIds ∧ groupId ∈ db.groupIds ∧ FitsInteger epoch
  | .sendSkdms skdmCiphertexts _ => ∃ row, db.findGroup groupId = some row ∧
      (∀ uid ∈ skdmCiphertexts.keys, uid ∈ db.userIds) ∧
      ((db.senderKeyDistributions ++ skdmRows groupId (row.epoch + 1) skdmCiphertexts).map
        fun row => (row.recipientId, row.groupId, row.epoch)).Nodup
  | .popSkdms => ∃ row ∈ db.senderKeyDistributions, pendingFor requesterId groupId row = true
  | .recordReceipt msgId => ⟨msgId, requesterId⟩ ∈ db.groupMessageReceipts
  | .revokeMessage msgId => ∃ msg ∈ db.groupMessages, sentAs msgId requesterId msg = true
  | .info | .addMember .. | .removeMember .. | .listMessages => False

/-! ## Who was put out since -/

/-- A request in flight, and whether its requester was put out of the group since
its dependencies ran. -/
structure Tracked where
  pending : Pending
  putOut : Bool

/-- The call a step commits, with the session it runs in. -/
def stepCall (st : State) : Step → Option (Session × Operation)
  | .arrive _ _ => none
  | .handle n => st.inFlight[n]?.bind fun pending => pending.call.map (pending.session, ·)
  | .other op => some (.fresh, op)

def Tracked.note (db : Database) (call : Option (Session × Operation)) (tracked : Tracked) :
    Tracked :=
  match call, tracked.pending.endpoint with
  | some (session, op), .onGroup group _ =>
      if removes session db group.id tracked.pending.currentUser.id op then
        { tracked with putOut := true }
      else if joins db group.id tracked.pending.currentUser.id op then
        { tracked with putOut := false }
      else tracked
  | _, _ => tracked

def track (st : State) (s : Step) (tracked : List Tracked) : List Tracked :=
  match s with
  | .arrive requesterId request =>
      match dependencies st.db requesterId request with
      | .ok pending => tracked ++ [⟨pending, false⟩]
      | .error _ => tracked
  | .handle n => (tracked.map (Tracked.note st.db (stepCall st s))).eraseIdx n
  | .other _ => tracked.map (Tracked.note st.db (stepCall st s))

def trackedOf (steps : List Step) : List Tracked := interleaved.observe track [] steps

/-- The handler that runs finds nothing to change, or its requester was not put out. -/
def NotPutOut (db : Database) (tracked : List Tracked) : Step → Prop
  | .handle n => ∀ t ∈ tracked[n]?, ∀ group request, t.pending.endpoint = .onGroup group request →
      Applies db t.pending.currentUser.id group.id request → t.putOut = false
  | _ => True

/-! ## What a handler changes -/

variable {db : Database}

theorem handle_onGroup {session : Session} {currentUser : User} {group : Group}
    {request : GroupRequest} (acts : request.actsOnGroup = true) :
    (handle db ⟨session, currentUser, .onGroup group request⟩).1 =
      commitCall db (request.call currentUser.id group.id) := by
  refine handleOnGroup_other ?_
  rintro u K rfl
  cases acts

/-- A call that raises when it does not find what it is about, and changes something
when it does. -/
theorem commit_ne_iff {op : Operation} {found : Prop}
    (succeeds : (∃ after, perform db op = .ok after) ↔ found)
    (changes : ∀ after, perform db op = .ok after → after ≠ db) : commit db op ≠ db ↔ found := by
  rw [← succeeds]
  cases done : perform db op with
  | ok after =>
      rw [commit_ok done]
      exact iff_of_true (changes after done) ⟨after, rfl⟩
  | error e =>
      rw [commit_error done]
      exact iff_of_false (not_not.mpr rfl) (by simp)

theorem storeGroupMessage_changes (c : Constraints db) (groupId : GroupId) (senderId : UserId)
    (epoch : Int) (ciphertext : Bytes) :
    commit db (.storeGroupMessage groupId senderId epoch ciphertext) ≠ db ↔
      senderId ∈ db.userIds ∧ groupId ∈ db.groupIds ∧ FitsInteger epoch := by
  refine commit_ne_iff ⟨?_, ?_⟩ ?_
  · rintro ⟨after, done⟩
    obtain ⟨msg, stored⟩ := dropResult_ok done
    obtain ⟨senderKnown, groupKnown, fits, -⟩ := storeGroupMessage_ok stored
    exact ⟨senderKnown, groupKnown, fits⟩
  · rintro ⟨senderKnown, groupKnown, fits⟩
    obtain ⟨result, stored⟩ := storeGroupMessage_succeeds c senderKnown groupKnown fits ciphertext
    exact ⟨result.1, bind_eq_ok.mpr ⟨result, stored, rfl⟩⟩
  · intro after done same
    obtain ⟨msg, stored⟩ := dropResult_ok done
    obtain ⟨-, -, -, -, rfl⟩ := storeGroupMessage_ok stored
    have longer := congrArg (fun d => d.groupMessages.length) same
    simp at longer

theorem storeSkdms_changes {groupId : GroupId} {skdmCiphertexts : Ciphertexts}
    (atLeastOne : skdmCiphertexts.nonempty = true) :
    commit db (.storeSkdms groupId skdmCiphertexts) ≠ db ↔
      ∃ row, db.findGroup groupId = some row ∧ (∀ uid ∈ skdmCiphertexts.keys, uid ∈ db.userIds) ∧
        ((db.senderKeyDistributions ++ skdmRows groupId (row.epoch + 1) skdmCiphertexts).map
          fun row => (row.recipientId, row.groupId, row.epoch)).Nodup := by
  refine commit_ne_iff storeSkdmsUncommitted_ok_iff fun after done same => ?_
  obtain ⟨row, -, -, rfl⟩ := storeSkdmsUncommitted_ok done
  have longer := congrArg (fun d => d.senderKeyDistributions.length) same
  have noRow : skdmRows groupId (row.epoch + 1) skdmCiphertexts = [] := by
    simpa using longer
  have noEntry : skdmCiphertexts.nonempty = false :=
    Dict.nonempty_eq_false.mpr (List.map_eq_nil_iff.mp noRow)
  rw [noEntry] at atLeastOne
  cases atLeastOne

theorem recordGroupReceipt_changes (messageId : MessageId) (userId : UserId) :
    commit db (.recordGroupReceipt messageId userId) ≠ db ↔
      ⟨messageId, userId⟩ ∈ db.groupMessageReceipts := by
  refine commit_ne_iff ⟨?_, ?_⟩ ?_
  · rintro ⟨after, done⟩
    exact (recordGroupReceipt_ok done).1
  · exact fun waiting => ⟨_, if_pos waiting⟩
  · intro after done same
    obtain ⟨waiting, rfl⟩ := recordGroupReceipt_ok done
    rw [← same] at waiting
    have stays := List.mem_of_mem_filter waiting
    simp [Database.deleteReceipt] at stays

/-- A `DELETE` changes the table iff there is a row to delete. -/
theorem filter_ne_iff {ρ : Type} {rows : List ρ} {p : ρ → Bool} :
    (rows.filter fun row => !p row) ≠ rows ↔ ∃ row ∈ rows, p row = true := by
  rw [Ne, List.filter_eq_self]
  simp

theorem popSkdms_changes (userId : UserId) (groupId : GroupId) :
    commit db (.popSkdmsForUser userId groupId) ≠ db ↔
      ∃ row ∈ db.senderKeyDistributions, pendingFor userId groupId row = true := by
  have committed : commit db (.popSkdmsForUser userId groupId) =
      { db with senderKeyDistributions :=
          db.senderKeyDistributions.filter fun row => !pendingFor userId groupId row } := rfl
  rw [committed, ← filter_ne_iff]
  refine not_congr ⟨fun same => congrArg Database.senderKeyDistributions same, fun same => ?_⟩
  rw [same]

theorem revokeGroupMessage_changes (messageId : MessageId) (senderId : UserId) :
    commit db (.revokeGroupMessage messageId senderId) ≠ db ↔
      ∃ msg ∈ db.groupMessages, sentAs messageId senderId msg = true := by
  have committed : commit db (.revokeGroupMessage messageId senderId) =
      (revokeGroupMessage db messageId senderId).1 := rfl
  rw [committed, revokeGroupMessage_fst, ← filter_ne_iff]
  refine not_congr ⟨fun same => congrArg Database.groupMessages same, fun same => ?_⟩
  rw [← revokeGroupMessage_fst, revokeGroupMessage]
  have none_ : ¬ db.groupMessages.any (sentAs messageId senderId) = true := by
    simpa using same
  rw [if_neg none_]

theorem changes_iff (c : Constraints db) {session : Session} {currentUser : User} {group : Group}
    {request : GroupRequest} (acts : request.actsOnGroup = true) :
    (handle db ⟨session, currentUser, .onGroup group request⟩).1 ≠ db ↔
      Applies db currentUser.id group.id request := by
  rw [handle_onGroup acts]
  cases request with
  | info | listMessages | addMember | removeMember => cases acts
  | sendMessage epoch ciphertext => exact storeGroupMessage_changes c _ _ epoch ciphertext
  | sendSkdms skdmCiphertexts atLeastOne => exact storeSkdms_changes atLeastOne
  | popSkdms => exact popSkdms_changes _ _
  | recordReceipt msgId => exact recordGroupReceipt_changes msgId _
  | revokeMessage msgId => exact revokeGroupMessage_changes msgId _

/-! ## The tracking is right -/

/-- A tracked request is marked exactly if its requester is not in the group. -/
def Tracked.Right (db : Database) (tracked : Tracked) : Prop :=
  ∀ group request, tracked.pending.endpoint = .onGroup group request →
    (tracked.putOut = false ↔ db.IsMember group.id tracked.pending.currentUser.id)

structure Follows (st : State) (tracked : List Tracked) : Prop where
  constraints : Constraints st.db
  same : tracked.map Tracked.pending = st.inFlight
  right : ∀ t ∈ tracked, t.Right st.db

@[simp] theorem note_pending (db : Database) (call : Option (Session × Operation))
    (tracked : Tracked) : (tracked.note db call).pending = tracked.pending := by
  unfold Tracked.note
  split
  · split
    · rfl
    · split <;> rfl
  · rfl

theorem joins_of_removes {session : Session} {groupId : GroupId} {userId : UserId} {op : Operation}
    (out : removes session db groupId userId op = true) : joins db groupId userId op = false := by
  cases op with
  | createGroup | addMember => cases out
  | _ => rfl

theorem note_right (c : Constraints db) {tracked : Tracked} (right : tracked.Right db)
    (session : Session) (op : Operation) :
    (tracked.note db (some (session, op))).Right (commitIn session db op) := by
  intro group request onGroup
  rw [note_pending] at onGroup
  have before := right group request onGroup
  rw [note_pending, commitIn_isMember c, ← before]
  simp only [Tracked.note, onGroup]
  cases out : removes session db group.id tracked.pending.currentUser.id op with
  | true => simp [joins_of_removes out]
  | false =>
      cases back : joins db group.id tracked.pending.currentUser.id op with
      | true => simp
      | false => simp

theorem dependencies_onGroup {requesterId : UserId} {request : Request} {pending : Pending}
    (ready : dependencies db requesterId request = .ok pending) {group : Group}
    {groupRequest : GroupRequest} (onGroup : pending.endpoint = .onGroup group groupRequest) :
    db.IsMember group.id pending.currentUser.id := by
  obtain ⟨currentUser, -, rest⟩ := bind_eq_ok.mp ready
  cases request with
  | listGroups | createGroup | deleteMe =>
      cases rest
      cases onGroup
  | onGroup groupId request =>
      obtain ⟨⟨session, loaded⟩, member, returned⟩ := bind_eq_ok.mp rest
      cases returned
      cases onGroup
      unfold requireGroupMember at member
      cases found : getGroup .fresh db groupId with
      | none => simp [found] at member
      | some row =>
          by_cases isIn : isMember db groupId currentUser.id = true
          · simp only [found, isIn, if_true, Except.ok.injEq, Prod.mk.injEq] at member
            obtain ⟨-, rfl⟩ := member
            rw [getGroup, Session.selectGroup_fresh] at found
            rw [(Database.findGroup_some found).2]
            exact of_decide_eq_true isIn
          · simp [found, isIn] at member

theorem advanceState_db (st : State) (s : Step) :
    (advanceState st s).db =
      match stepCall st s with
      | none => st.db
      | some (session, op) => commitIn session st.db op := by
  cases s with
  | arrive requesterId request => exact advanceState_arrive requesterId request
  | other op => exact (commitIn_fresh st.db op).symm
  | handle n =>
      cases next : st.inFlight[n]? with
      | none => simp [advanceState, stepCall, next]
      | some pending =>
          rw [advanceState_handle next, handle_fst]
          simp only [stepCall, next, Option.bind_some]
          cases pending.call <;> rfl

/-- What is noted is right after the step. -/
theorem notes_right {st : State} {tracked : List Tracked} (f : Follows st tracked) (s : Step) :
    ∀ t ∈ tracked.map (Tracked.note st.db (stepCall st s)), t.Right (advanceState st s).db := by
  intro t listed
  obtain ⟨before, inList, rfl⟩ := List.mem_map.mp listed
  rw [advanceState_db]
  cases stepCall st s with
  | none => exact f.right before inList
  | some call => exact note_right f.constraints (f.right before inList) call.1 call.2

theorem follows_step {st : State} {tracked : List Tracked} (f : Follows st tracked) (s : Step) :
    Follows (advanceState st s) (track st s tracked) := by
  have noted := notes_right f s
  have samePending : (tracked.map (Tracked.note st.db (stepCall st s))).map Tracked.pending =
      st.inFlight := by
    rw [List.map_map, ← f.same]
    exact List.map_congr_left fun t _ => note_pending _ _ t
  refine ⟨advanceState_constraints f.constraints s, ?_, ?_⟩
  · cases s with
    | arrive requesterId request =>
        simp only [track, advanceState]
        cases dependencies st.db requesterId request with
        | ok pending => simp [f.same]
        | error response => exact f.same
    | other op => exact samePending
    | handle n =>
        have erased : (advanceState st (.handle n)).inFlight = st.inFlight.eraseIdx n := by
          simp only [advanceState]
          cases next : st.inFlight[n]? with
          | none => exact (List.eraseIdx_of_length_le (List.getElem?_eq_none_iff.mp next)).symm
          | some pending => rfl
        rw [erased, ← samePending, track, ← List.eraseIdx_map]
  · intro t listed
    cases s with
    | other op => exact noted t listed
    | handle n => exact noted t (List.mem_of_mem_eraseIdx listed)
    | arrive requesterId request =>
        rw [advanceState_arrive]
        simp only [track] at listed
        cases ready : dependencies st.db requesterId request with
        | error response =>
            rw [ready] at listed
            exact f.right t listed
        | ok pending =>
            rw [ready] at listed
            rcases List.mem_append.mp listed with before | new
            · exact f.right t before
            · cases List.mem_singleton.mp new
              intro group groupRequest onGroup
              exact iff_of_true rfl (dependencies_onGroup ready onGroup)

theorem follows (steps : List Step) : Follows (interleaved.run steps) (trackedOf steps) :=
  interleaved.observe_invariant (P := Follows)
    ⟨sound_empty.constraints, rfl, by rintro t ⟨⟩⟩ (fun _ s _ f => follows_step f s) steps

/-! ## Every interleaving -/

theorem actsAsMember_iff {st : State} {tracked : List Tracked} (f : Follows st tracked) (s : Step) :
    ActsAsMember st s ↔ NotPutOut st.db tracked s := by
  cases s with
  | arrive requesterId request => exact Iff.rfl
  | other op => exact Iff.rfl
  | handle n =>
      have at_ : st.inFlight[n]? = tracked[n]?.map Tracked.pending := by
        rw [← f.same, List.getElem?_map]
      simp only [ActsAsMember, NotPutOut, at_]
      cases found : tracked[n]? with
      | none => simp
      | some t =>
          have right := f.right t (List.mem_of_getElem? found)
          simp only [Option.map_some, Option.mem_some_iff, forall_eq']
          refine forall_congr' fun group => forall_congr' fun request => forall_congr' fun onGroup => ?_
          rw [right group request onGroup]
          obtain ⟨⟨session, currentUser, endpoint⟩, putOut⟩ := t
          cases onGroup
          cases acts : request.actsOnGroup with
          | true => rw [changes_iff f.constraints acts, forall_prop_of_true rfl]
          | false =>
              refine iff_of_true (by simp) fun applies => ?_
              cases request with
              | info | listMessages | addMember | removeMember => cases applies
              | _ => cases acts

/-- **Only members act on a group** exactly in the interleavings in which no handler
with something to change runs for a requester who was put out since the check. -/
theorem members_act_iff (steps : List Step) :
    EachStep (fun earlier s => ActsAsMember (interleaved.run earlier) s) steps ↔
      EachStep (fun earlier s => NotPutOut (interleaved.run earlier).db (trackedOf earlier) s) steps :=
  eachStep_congr fun earlier s _ => actsAsMember_iff (follows earlier) s

/-- Bob's message has passed the check when Ada removes him. -/
def kickedWhileSending : List Step :=
  [.other (.createUser "ada" "5a" [1] [2]), .other (.createUser "bob" "5b" [3] [4]),
    .other (.createUser "cyd" "5c" [5] [6]),
    .other (.createGroup "team" 1 ⟨[(2, [12]), (3, [13])], by decide⟩),
    .arrive 2 (.onGroup 1 (.sendMessage 1 [9])),
    .arrive 1 (.onGroup 1 (.removeMember 2 Dict.empty)), .handle 1]

theorem outsider_sends :
    (interleaved.run (kickedWhileSending ++ [.handle 0])).db.groupMessages = [⟨1, 2, 1, 1, [9]⟩] ∧
      ¬ EachStep (fun earlier s => ActsAsMember (interleaved.run earlier) s)
        (kickedWhileSending ++ [.handle 0]) := by
  refine ⟨by decide, fun members => ?_⟩
  have last := members kickedWhileSending (.handle 0) (List.prefix_refl _)
  let team : Group := ⟨1, "team", 1, 1⟩
  let sending : Pending := ⟨⟨[team]⟩, ⟨2, "bob", "5b", [3], [4]⟩, .onGroup team (.sendMessage 1 [9])⟩
  have changes : (handle (interleaved.run kickedWhileSending).db sending).1 ≠
      (interleaved.run kickedWhileSending).db := by
    decide
  have member := last sending rfl team (.sendMessage 1 [9]) rfl rfl changes
  revert member
  decide

end SecureMsg.Api
