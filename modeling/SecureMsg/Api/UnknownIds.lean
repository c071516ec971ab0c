/-
# Api.UnknownIds — requests that name users who may not exist

Five endpoints take user ids from the request: a recipient, the members of a new
group, a member to add or to remove, the recipients of sender keys.  Nothing
looks the ids up first; an id without an account surfaces as the driver's error
at the statement or the flush that writes it.

`add_member` alone catches `IntegrityError`, and not the `DataError` of an id
that no `INTEGER` column holds.  `answered_iff`: the other endpoints answer
exactly when every id they come to write is known (`NamesHandled`), and
`create_group` when its name is also one the driver sends.  Whatever they answer,
an error leaves the database as it was.
-/
import SecureMsg.Api.Messages
import SecureMsg.Groups.BulkCreation

namespace SecureMsg.Api

open SecureMsg.Theory SecureMsg.Store SecureMsg.Repository SecureMsg.Groups

set_option autoImplicit false

/-! ## The five requests -/

inductive NamingRequest where
  | sendMessage (body : SendMessageRequest)
  | createGroup (name : String) (initialMembers : Ciphertexts)
  | addMember (groupId : GroupId) (userId : UserId) (skdmCiphertext : Bytes)
  | removeMember (groupId : GroupId) (userId : UserId) (skdmCiphertexts : Ciphertexts)
  | sendSkdms (groupId : GroupId) (skdmCiphertexts : Ciphertexts)
      (atLeastOne : skdmCiphertexts.nonempty = true)

inductive Answer where
  | messages (response : MessagesResponse)
  | groups (response : Response)

/-- The exception no handler caught. -/
def Answer.raised : Answer → Option Error
  | .messages (.unhandled e) => some e
  | .groups (.unhandled e) => some e
  | _ => none

def Answer.isError : Answer → Bool
  | .messages (.httpException ..) | .messages (.unhandled _) => true
  | .groups (.httpException ..) | .groups (.unhandled _) => true
  | _ => false

/-- Dependencies, then the endpoint. -/
def serveNaming (db : Database) (requesterId : UserId) : NamingRequest → Database × Answer
  | .sendMessage body =>
      match getCurrentUser db requesterId with
      | .error response => (db, .groups response)
      | .ok currentUser => (sendMessage db currentUser body).map id .messages
  | .createGroup name initialMembers =>
      (serve db requesterId (.createGroup name initialMembers)).map id .groups
  | .addMember groupId userId skdmCiphertext =>
      (serve db requesterId (.onGroup groupId (.addMember userId skdmCiphertext))).map id .groups
  | .removeMember groupId userId skdmCiphertexts =>
      (serve db requesterId (.onGroup groupId (.removeMember userId skdmCiphertexts))).map id
        .groups
  | .sendSkdms groupId skdmCiphertexts atLeastOne =>
      (serve db requesterId (.onGroup groupId (.sendSkdms skdmCiphertexts atLeastOne))).map id
        .groups

/-- A response or an `HTTPException`, and after an error the database of before. -/
structure Answered (db : Database) (requesterId : UserId) (request : NamingRequest) : Prop where
  handled : (serveNaming db requesterId request).2.raised = none
  unchanged : (serveNaming db requesterId request).2.isError = true →
    (serveNaming db requesterId request).1 = db

/-- The requester is the group's creator. -/
def Creates (db : Database) (requesterId : UserId) (groupId : GroupId) : Prop :=
  ∃ row ∈ db.groups, row.id = groupId ∧ row.creatorId = requesterId

/-- The removal is permitted, and a group of two or more goes on without the user. -/
def RemovesAndGoesOn (db : Database) (requesterId : UserId) (groupId : GroupId)
    (userId : UserId) : Prop :=
  db.IsMember groupId requesterId ∧ (requesterId = userId ∨ Creates db requesterId groupId) ∧
    db.IsMember groupId userId ∧ 1 < (remaining db groupId userId).length

/-- Every id that comes to be written has an account; a new group's map does not name its
creator, and its name has no NUL in it; a member to be added needs only be an id a column
holds. -/
def NamesHandled (db : Database) (requesterId : UserId) : NamingRequest → Prop
  | .sendMessage body => body.recipientId ∈ db.userIds
  | .createGroup name initialMembers =>
      Sendable name ∧ requesterId ∉ initialMembers.keys ∧ ∀ uid ∈ initialMembers.keys, uid ∈ db.userIds
  | .addMember groupId userId _ =>
      Creates db requesterId groupId → userId ∈ db.userIds ∨ FitsInteger userId
  | .removeMember groupId userId skdmCiphertexts =>
      RemovesAndGoesOn db requesterId groupId userId →
        ∀ uid ∈ skdmCiphertexts.keys, uid ∈ db.userIds
  | .sendSkdms groupId skdmCiphertexts _ =>
      db.IsMember groupId requesterId → ∀ uid ∈ skdmCiphertexts.keys, uid ∈ db.userIds

variable {db : Database} {r : UserId} {g : GroupId}

/-! ## Errors change nothing -/

theorem answer_unchanged {β : Type} {result : Except Error (Database × β)} {ok : β → Response}
    {raised : Error → Response} (fine : ∀ value, (Answer.groups (ok value)).isError = false)
    (isError : (Answer.groups (answer db result ok raised).2).isError = true) :
    (answer db result ok raised).1 = db := by
  cases result with
  | ok value =>
      rw [answer, fine] at isError
      cases isError
  | error e => rfl

theorem answerDone_unchanged {result : Except Error Database} {raised : Error → Response}
    (isError : (Answer.groups (answerDone db result raised).2).isError = true) :
    (answerDone db result raised).1 = db := by
  cases result with
  | ok after => cases isError
  | error e => rfl

theorem serve_unchanged {request : Request}
    (handler : ∀ pending, dependencies db r request = .ok pending →
      (Answer.groups (handle db pending).2).isError = true → (handle db pending).1 = db)
    (isError : (Answer.groups (serve db r request).2).isError = true) :
    (serve db r request).1 = db := by
  unfold serve at isError ⊢
  cases ready : dependencies db r request with
  | error response => rfl
  | ok pending =>
      rw [ready] at isError
      exact handler pending ready isError

theorem sendMessage_unchanged {currentUser : User} {body : SendMessageRequest}
    (isError : (Answer.messages (sendMessage db currentUser body).2).isError = true) :
    (sendMessage db currentUser body).1 = db := by
  unfold sendMessage at isError ⊢
  by_cases self : body.recipientId = currentUser.id
  · rw [if_pos self]
  · rw [if_neg self] at isError ⊢
    cases stored : storeMessage db currentUser.id body.recipientId body.ciphertext
        body.ratchetHeaderEnc with
    | ok result =>
        rw [stored] at isError
        cases isError
    | error e => cases e <;> rfl

/-- **An error answer leaves the database as it was.** -/
theorem serveNaming_unchanged (request : NamingRequest)
    (isError : (serveNaming db r request).2.isError = true) :
    (serveNaming db r request).1 = db := by
  have onGroup : ∀ groupId groupRequest, (∀ session currentUser group,
      (Answer.groups (handleOnGroup db session currentUser group groupRequest).2).isError = true →
        (handleOnGroup db session currentUser group groupRequest).1 = db) →
      (Answer.groups (serve db r (.onGroup groupId groupRequest)).2).isError = true →
        (serve db r (.onGroup groupId groupRequest)).1 = db := by
    intro groupId groupRequest endpoint
    refine serve_unchanged fun pending ready => ?_
    obtain ⟨currentUser, -, rest⟩ := bind_eq_ok.mp ready
    obtain ⟨⟨session, group⟩, -, returned⟩ := bind_eq_ok.mp rest
    cases returned
    exact endpoint session currentUser group
  cases request with
  | sendMessage body =>
      unfold serveNaming at isError ⊢
      cases current : getCurrentUser db r with
      | error response => rfl
      | ok currentUser =>
          rw [current] at isError
          exact sendMessage_unchanged isError
  | createGroup name initialMembers =>
      refine serve_unchanged (fun pending ready => ?_) isError
      obtain ⟨currentUser, -, returned⟩ := bind_eq_ok.mp ready
      cases returned
      exact answer_unchanged fun _ => rfl
  | addMember groupId userId skdmCiphertext =>
      exact onGroup _ _ (fun _ _ _ => answerDone_unchanged) isError
  | removeMember groupId userId skdmCiphertexts =>
      exact onGroup _ _ (fun _ _ _ => answer_unchanged fun _ => rfl) isError
  | sendSkdms groupId skdmCiphertexts atLeastOne =>
      exact onGroup _ _ (fun _ _ _ => answerDone_unchanged) isError

/-! ## Which requests are answered -/

section Handled

variable {integers : List Int} {violated : Violation}

theorem answer_raised {β : Type} {result : Except Error (Database × β)} {ok : β → Response}
    {raised : Error → Response} (fine : ∀ value, (Answer.groups (ok value)).raised = none) :
    (Answer.groups (answer db result ok raised).2).raised = none ↔
      ∀ e, result = .error e → (Answer.groups (raised e)).raised = none := by
  cases result with
  | ok value => simp [answer, fine]
  | error e => simp [answer]

theorem answerDone_raised {result : Except Error Database} {raised : Error → Response} :
    (Answer.groups (answerDone db result raised).2).raised = none ↔
      ∀ e, result = .error e → (Answer.groups (raised e)).raised = none := by
  cases result with
  | ok after => simp [answerDone, Answer.raised]
  | error e => simp [answerDone]

/-- Nothing is caught: the endpoint answers when the call succeeds. -/
theorem all_unhandled {β : Type} {result : Except Error β} :
    (∀ e, result = .error e → (Answer.groups (.unhandled e)).raised = none) ↔
      ∃ value, result = .ok value := by
  cases result with
  | ok value => simp
  | error e => simp [Answer.raised]

theorem addMemberRaised_refusal :
    (Answer.groups (addMemberRaised (refusal integers violated))).raised = none ↔
      ∀ n ∈ integers, FitsInteger n := by
  unfold refusal
  by_cases fits : ∀ n ∈ integers, FitsInteger n
  · rw [if_pos fits]
    exact iff_of_true rfl fits
  · rw [if_neg fits]
    exact iff_of_false (by simp [addMemberRaised, Answer.raised]) fits

theorem removeMemberRaised_refusal :
    (Answer.groups (removeMemberRaised (refusal integers violated))).raised ≠ none := by
  rcases refusal_cases integers violated with refused | refused
  · rw [refused]
    exact Option.some_ne_none _
  · rw [refused]
    exact Option.some_ne_none _

/-- Requests to a group one is not in end at the dependencies. -/
theorem serve_outsider (known : r ∈ db.userIds) (outside : ¬ db.IsMember g r)
    (request : GroupRequest) :
    (Answer.groups (serve db r (.onGroup g request)).2).raised = none := by
  obtain ⟨user, found, rfl⟩ := getUserById_known known
  have noMember : isMember db g user.id = false := decide_eq_false outside
  unfold serve dependencies getCurrentUser requireGroupMember
  simp only [found, bind, Except.bind, noMember]
  cases getGroup .fresh db g with
  | none => rfl
  | some group => rfl

theorem serve_onGroup (c : Constraints db) (member : db.IsMember g r) (request : GroupRequest) :
    ∃ user group, user.id = r ∧ db.findGroup g = some group ∧ group.id = g ∧
      serve db r (.onGroup g request) =
        handleOnGroup db (Session.fresh.remember group) user group request := by
  obtain ⟨user, group, sameUser, found, ready⟩ := dependencies_member c member request
  refine ⟨user, group, sameUser, found, (Database.findGroup_some found).2, ?_⟩
  unfold serve
  rw [ready]
  rfl

/-- A full inbox has messages, and messages go to accounts. -/
theorem recipient_of_full (c : Constraints db) {u : UserId}
    (full : (inbox db u).length ≥ inboxMaxMessages) : u ∈ db.userIds := by
  have some_ : 0 < (inbox db u).length := lt_of_lt_of_le (by decide) full
  obtain ⟨row, stored⟩ := List.exists_mem_of_length_pos some_
  obtain ⟨inTable, toUser⟩ := List.mem_filter.mp stored
  rw [← of_decide_eq_true toUser]
  exact (c.message_exists inTable).2

theorem sendMessage_handled (c : Constraints db) (known : r ∈ db.userIds)
    (body : SendMessageRequest) :
    (serveNaming db r (.sendMessage body)).2.raised = none ↔ body.recipientId ∈ db.userIds := by
  obtain ⟨user, found, rfl⟩ := getUserById_known known
  have current : getCurrentUser db user.id = .ok user := by
    unfold getCurrentUser
    rw [found]
  simp only [serveNaming, current, sendMessage, Prod.map_snd]
  by_cases self : body.recipientId = user.id
  · rw [if_pos self, self]
    exact iff_of_true rfl known
  · rw [if_neg self]
    cases stored : storeMessage db user.id body.recipientId body.ciphertext
        body.ratchetHeaderEnc with
    | ok result =>
        obtain ⟨-, row, inserted, -⟩ := storeMessage_ok stored
        exact iff_of_true rfl (Database.insertMessage_ok.mp inserted).1.2
    | error e =>
        rcases storeMessage_error stored with ⟨full, rfl⟩ | ⟨unknown, rfl⟩
        · exact iff_of_true rfl (recipient_of_full c full)
        · refine iff_of_false ?_ fun there => unknown ⟨known, there⟩
          rcases refusal_cases [body.recipientId] .foreignKey with refused | refused
          · rw [refused]
            exact Option.some_ne_none _
          · rw [refused]
            exact Option.some_ne_none _

theorem createGroup_handled (c : Constraints db) (known : r ∈ db.userIds) (name : String)
    (initialMembers : Ciphertexts) :
    (serveNaming db r (.createGroup name initialMembers)).2.raised = none ↔
      Sendable name ∧ r ∉ initialMembers.keys ∧
        ∀ uid ∈ initialMembers.keys, uid ∈ db.userIds := by
  obtain ⟨user, found, rfl⟩ := getUserById_known known
  have ready : dependencies db user.id (.createGroup name initialMembers) =
      .ok ⟨.fresh, user, .createGroup name initialMembers⟩ := by
    unfold dependencies getCurrentUser
    rw [found]
    rfl
  have served : serve db user.id (.createGroup name initialMembers) =
      answer db (createGroup db name user.id initialMembers) (fun group => .created group.id)
        .unhandled := by
    unfold serve
    rw [ready]
    rfl
  simp only [serveNaming, served, Prod.map_snd]
  refine (answer_raised fun _ => rfl).trans (all_unhandled.trans ?_)
  constructor
  · rintro ⟨⟨after, group⟩, done⟩
    obtain ⟨sendable, -, members, -⟩ := createGroup_ok c done
    exact ⟨sendable, createGroup_outside done, members⟩
  · rintro ⟨sendable, outside, members⟩
    exact createGroup_succeeds c sendable known members outside

theorem addMember_handled (sound : Sound db) (known : r ∈ db.userIds) (userId : UserId)
    (skdmCiphertext : Bytes) :
    (serveNaming db r (.addMember g userId skdmCiphertext)).2.raised = none ↔
      (Creates db r g → userId ∈ db.userIds ∨ FitsInteger userId) := by
  have c := sound.constraints
  by_cases member : db.IsMember g r
  · obtain ⟨user, group, rfl, found, rfl, served⟩ :=
      serve_onGroup c member (.addMember userId skdmCiphertext)
    simp only [serveNaming, served, Prod.map_snd, handleOnGroup]
    refine answerDone_raised.trans ?_
    constructor
    · rintro handled ⟨row, stored, sameId, creates⟩
      cases added : addMember db group.id user.id userId skdmCiphertext with
      | ok after =>
          obtain ⟨-, -, -, there, -⟩ := addMember_ok added
          exact Or.inl there
      | error e =>
          have isCreator' : isCreator db group.id user.id = true := by
            rw [← sameId]
            exact isCreator_iff.mpr ⟨row, c.findGroup_eq_some.mpr stored, creates⟩
          rcases addMember_error added with ⟨notCreator, -⟩ | ⟨-, violated, rfl⟩
          · rw [isCreator'] at notCreator
            cases notCreator
          · have fits := addMemberRaised_refusal.mp (handled _ added)
            exact Or.inr (fits userId (List.mem_singleton_self userId))
    · intro named e failed
      rcases addMember_error failed with ⟨-, rfl⟩ | ⟨creator, violated, rfl⟩
      · rfl
      · obtain ⟨row, isRow, creates⟩ := isCreator_iff.mp creator
        rw [found] at isRow
        cases isRow
        obtain ⟨stored, -⟩ := Database.findGroup_some found
        rcases named ⟨group, stored, rfl, creates⟩ with there | fits
        · obtain ⟨after, added⟩ := addMember_succeeds sound skdmCiphertext found creates there
          rw [added] at failed
          cases failed
        · refine addMemberRaised_refusal.mpr fun n listed => ?_
          rw [List.mem_singleton.mp listed]
          exact fits
  · refine iff_of_true (serve_outsider known member _) ?_
    rintro ⟨row, stored, rfl, rfl⟩
    exact absurd (sound.creators row stored) member

theorem removeMember_handled (sound : Sound db) (known : r ∈ db.userIds) (userId : UserId)
    (skdmCiphertexts : Ciphertexts) :
    (serveNaming db r (.removeMember g userId skdmCiphertexts)).2.raised = none ↔
      (RemovesAndGoesOn db r g userId → ∀ uid ∈ skdmCiphertexts.keys, uid ∈ db.userIds) := by
  have c := sound.constraints
  by_cases member : db.IsMember g r
  · obtain ⟨user, group, rfl, found, rfl, served⟩ :=
      serve_onGroup c member (.removeMember userId skdmCiphertexts)
    simp only [serveNaming, served, Prod.map_snd, handleOnGroup,
      removeMember_upToDate (remember_upToDate found)]
    refine (answer_raised fun _ => rfl).trans ?_
    have creates_iff : Creates db user.id group.id ↔ group.creatorId = user.id := by
      constructor
      · rintro ⟨row, stored, sameId, creates⟩
        rw [c.groups.unique stored (Database.findGroup_some found).1 sameId] at creates
        exact creates
      · exact fun creates => ⟨group, (Database.findGroup_some found).1, rfl, creates⟩
    constructor
    · rintro handled ⟨-, authorised, target, many⟩
      cases removed : removeMember .fresh db group.id user.id userId skdmCiphertexts with
      | ok result =>
          obtain ⟨after, exit⟩ := result
          cases removeMember_ok removed with
          | groupNotFound absent =>
              rw [absent] at found
              cases found
          | userNotInGroup _ _ _ absent => exact absurd target absent
          | lastMemberLeft _ _ _ _ few => omega
          | removed _ _ _ _ _ _ _ recipients => exact recipients
      | error e =>
          obtain ⟨selected, isSelected, reason⟩ := removeMember_error removed
          rw [Session.selectGroup_fresh, found] at isSelected
          cases isSelected
          rcases reason with ⟨other, notCreator, -⟩ | ⟨-, -, -, violated, rfl⟩
          · rcases authorised with self | creates
            · exact absurd self other
            · exact absurd (creates_iff.mp creates) notCreator
          · exact absurd (handled _ removed) removeMemberRaised_refusal
    · intro named e failed
      obtain ⟨selected, isSelected, reason⟩ := removeMember_error failed
      rw [Session.selectGroup_fresh, found] at isSelected
      cases isSelected
      rcases reason with ⟨-, -, rfl⟩ | ⟨authorised, target, many, -⟩
      · rfl
      · have known' := named ⟨member, authorised.imp_right creates_iff.mpr, target, many⟩
        obtain ⟨after, done⟩ := removeMember_succeeds c
          ((Session.selectGroup_fresh db group.id).trans found) authorised target many known'
        rw [done] at failed
        cases failed
  · exact iff_of_true (serve_outsider known member _) fun goesOn => absurd goesOn.1 member

theorem sendSkdms_handled (sound : Sound db) (known : r ∈ db.userIds)
    (skdmCiphertexts : Ciphertexts) (atLeastOne : skdmCiphertexts.nonempty = true) :
    (serveNaming db r (.sendSkdms g skdmCiphertexts atLeastOne)).2.raised = none ↔
      (db.IsMember g r → ∀ uid ∈ skdmCiphertexts.keys, uid ∈ db.userIds) := by
  have c := sound.constraints
  by_cases member : db.IsMember g r
  · obtain ⟨user, group, rfl, found, rfl, served⟩ :=
      serve_onGroup c member (.sendSkdms skdmCiphertexts atLeastOne)
    simp only [serveNaming, served, Prod.map_snd, handleOnGroup]
    refine (answerDone_raised.trans all_unhandled).trans ?_
    refine storeSkdmsUncommitted_ok_iff.trans ⟨?_, ?_⟩
    · rintro ⟨row, -, recipients, -⟩ -
      exact recipients
    · intro recipients
      refine ⟨group, found, recipients member, skdmKeys_nodup c.senderKeyDistributions ?_⟩
      intro pending inTable sameGroup
      have behind := sound.epochs pending inTable group (Database.findGroup_some found).1
        sameGroup.symm
      omega
  · exact iff_of_true (serve_outsider known member _) fun isMember => absurd isMember member

/-- One request, on a state any run can reach. -/
theorem answered_step (sound : Sound db) (known : r ∈ db.userIds) (request : NamingRequest) :
    Answered db r request ↔ NamesHandled db r request := by
  have handled_iff : (serveNaming db r request).2.raised = none ↔ NamesHandled db r request := by
    cases request with
    | sendMessage body => exact sendMessage_handled sound.constraints known body
    | createGroup name initialMembers =>
        exact createGroup_handled sound.constraints known name initialMembers
    | addMember groupId userId skdmCiphertext =>
        exact addMember_handled sound known userId skdmCiphertext
    | removeMember groupId userId skdmCiphertexts =>
        exact removeMember_handled sound known userId skdmCiphertexts
    | sendSkdms groupId skdmCiphertexts atLeastOne =>
        exact sendSkdms_handled sound known skdmCiphertexts atLeastOne
  exact ⟨fun answered => handled_iff.mp answered.handled,
    fun named => ⟨handled_iff.mpr named, serveNaming_unchanged request⟩⟩

/-- **A request is answered exactly when the ids it comes to write are handled.** -/
theorem answered_iff (ops : List Operation) {r : UserId} (known : r ∈ (service.run ops).userIds)
    (request : NamingRequest) :
    Answered (service.run ops) r request ↔ NamesHandled (service.run ops) r request :=
  answered_step (reachable ops) known request

end Handled

/-- Ada alone, with a group of her own. -/
def adaAlone : List Operation :=
  [.createUser "ada" "5a" [1] [2], .createGroup "notes" 1 Dict.empty]

/-- Adding user 99, who does not exist, is answered 404. -/
theorem answered_iff_addMember :
    Answered (service.run adaAlone) 1 (.addMember 1 99 [7]) ↔
      NamesHandled (service.run adaAlone) 1 (.addMember 1 99 [7]) :=
  answered_iff adaAlone (by decide) (.addMember 1 99 [7])

/-- A sender key for user 99 fails at the insert, and nothing catches that. -/
theorem unknown_recipient_unhandled :
    ¬ ∀ (ops : List Operation) (r : UserId), r ∈ (service.run ops).userIds →
      ∀ request, Answered (service.run ops) r request := by
  intro answered
  have handled := (answered adaAlone 1 (by decide)
    (.sendSkdms 1 (Dict.singleton 99 [7]) rfl)).handled
  have escapes : (serveNaming (service.run adaAlone) 1
      (.sendSkdms 1 (Dict.singleton 99 [7]) rfl)).2.raised =
        some (.integrityError .foreignKey) := by decide
  rw [escapes] at handled
  cases handled

end SecureMsg.Api
