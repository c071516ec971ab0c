/-
# Schemas.MessageSize — is every stored message within `max_message_bytes`?

A direct message is measured by its schema, `BoundedCiphertext`; a group message is
not, its ciphertext is any `Base64`.  What is stored is in both cases what the
validation decoded (`stored_measured`).

`size_cap_iff`: no stored message is larger than the cap, all through a run, exactly
if no member of a group sends a larger one to the group, with an epoch that can be
stored.
-/
import SecureMsg.Schemas.Application

namespace SecureMsg.Schemas

open SecureMsg.Theory SecureMsg.Store SecureMsg.Repository SecureMsg.Api

set_option autoImplicit false

/-! ## What is asked of a run -/

/-- No stored message is larger than the cap. -/
structure Capped (db : Database) : Prop where
  messages : ∀ row ∈ db.messages, row.ciphertext.length ≤ maxMessageBytes
  groupMessages : ∀ row ∈ db.groupMessages, row.ciphertext.length ≤ maxMessageBytes

/-- The messages that came in have a ciphertext of this kind. -/
structure AddsOnly (db after : Database) (wanted : Bytes → Prop) : Prop where
  messages : ∀ row ∈ after.messages, row ∈ db.messages ∨ wanted row.ciphertext
  groupMessages : ∀ row ∈ after.groupMessages, row ∈ db.groupMessages ∨ wanted row.ciphertext

/-- Validation and storage decode the request's ciphertext to these bytes. -/
def Measures (s : Step) (stored : Bytes) : Prop :=
  ∃ text, s.ciphertext? = some text ∧ b64decode true text = some stored ∧
    b64decode false text = some stored

variable {V : Type} (libs : Auth.Libraries V)

/-- What a request stores was measured by its schema. -/
def StoresMeasured (earlier : List Step) (s : Step) : Prop :=
  AddsOnly ((application libs).run earlier).db ((application libs).run (earlier ++ [s])).db
    (Measures s)

/-- The request gets to the endpoint: it is within its limits, and made by a member of
the group. -/
structure Admitted (db : Database) (now : Rat) (exceeded : Option String) (credentials : String)
    (groupId : GroupId) (user : User) : Prop where
  within : exceeded = none
  authenticated : Auth.getCurrentUser libs.toTokenLib db now credentials = .ok user
  member : db.IsMember groupId user.id

/-- A member sends a group message that is larger than the cap, stamped with an epoch that
its column holds. -/
inductive SendsOversized (db : Database) (s : Step) : Prop where
  | sent (credentials : String) (groupId : GroupId) (epoch : Int) (text : String) (user : User)
      (bytes : Bytes)
      (request : s.request = .authorized credentials (.sendGroupMessage groupId epoch text))
      (admitted : Admitted libs db s.reading.decodedAt s.exceeded credentials groupId user)
      (fits : FitsInteger epoch) (decoded : b64decode true text = some bytes)
      (large : maxMessageBytes < bytes.length) : SendsOversized db s

/-! ## What a call stores -/

/-- The ciphertext of the message a call stores. -/
def storedBy : Operation → Option Bytes
  | .storeMessage _ _ ciphertext _ | .storeGroupMessage _ _ _ ciphertext => some ciphertext
  | _ => none

section Calls

variable {db mid after : Database} {wanted : Bytes → Prop}

theorem AddsOnly.refl (db : Database) (wanted : Bytes → Prop) : AddsOnly db db wanted :=
  ⟨fun _ => Or.inl, fun _ => Or.inl⟩

theorem AddsOnly.trans (first : AddsOnly db mid wanted) (second : AddsOnly mid after wanted) :
    AddsOnly db after wanted where
  messages := fun row stored => (second.messages row stored).elim (first.messages row) Or.inr
  groupMessages := fun row stored =>
    (second.groupMessages row stored).elim (first.groupMessages row) Or.inr

theorem Capped.adds (capped : Capped db) (adds : AddsOnly db after wanted)
    (small : ∀ bytes, wanted bytes → bytes.length ≤ maxMessageBytes) : Capped after where
  messages := fun row stored => (adds.messages row stored).elim (capped.messages row) (small _)
  groupMessages := fun row stored =>
    (adds.groupMessages row stored).elim (capped.groupMessages row) (small _)

theorem perform_messages (sound : Sound db) {op : Operation} (done : perform db op = .ok after) :
    ∀ row ∈ after.messages, row ∈ db.messages ∨ storedBy op = some row.ciphertext := by
  intro row stored
  cases perform_personal sound.constraints done with
  | messageStored senderId recipientId ciphertext ratchetHeaderEnc =>
      rcases List.mem_append.mp stored with old | new
      · exact Or.inl old
      · rw [List.mem_singleton.mp new]
        exact Or.inr rfl
  | accountDeleted _ _ _ gone =>
      rw [gone.messages] at stored
      exact Or.inl (List.mem_of_mem_filter stored)
  | messageDeleted => exact Or.inl (List.mem_of_mem_filter stored)
  | prekeyPopped userId =>
      obtain ⟨rows, popped⟩ := popOneTimePrekey_fst db userId
      rw [popped] at stored
      exact Or.inl stored
  | elsewhere _ _ _ same =>
      rw [same.messages] at stored
      exact Or.inl stored
  | _ => exact Or.inl stored

theorem perform_groupMessages (sound : Sound db) {op : Operation}
    (done : perform db op = .ok after) :
    ∀ row ∈ after.groupMessages, row ∈ db.groupMessages ∨ storedBy op = some row.ciphertext := by
  intro row stored
  cases sound.effect done with
  | messageStored groupId senderId epoch ciphertext msg isMsg =>
      rcases List.mem_append.mp stored with old | new
      · exact Or.inl old
      · rw [List.mem_singleton.mp new, isMsg]
        exact Or.inr rfl
  | accountDeleted _ _ _ gone => exact Or.inl ((gone.groupMessages row).mp stored).1
  | groupDissolved => exact Or.inl (List.mem_of_mem_filter stored)
  | messageRevoked => exact Or.inl (List.mem_of_mem_filter stored)
  | receiptRecorded => exact Or.inl (List.mem_of_mem_filter stored)
  | elsewhere _ _ _ same =>
      rw [same.groupMessages] at stored
      exact Or.inl stored
  | _ => exact Or.inl stored

/-- **A call stores at most the ciphertext it is called with.** -/
theorem perform_adds (sound : Sound db) {op : Operation} (done : perform db op = .ok after) :
    AddsOnly db after fun stored => storedBy op = some stored :=
  ⟨perform_messages sound done, perform_groupMessages sound done⟩

theorem AddsOnly.mono {wanted' : Bytes → Prop} (adds : AddsOnly db after wanted)
    (weaker : ∀ bytes, wanted bytes → wanted' bytes) : AddsOnly db after wanted' where
  messages := fun row stored => (adds.messages row stored).imp_right (weaker _)
  groupMessages := fun row stored => (adds.groupMessages row stored).imp_right (weaker _)

end Calls

/-! ## What a request stores -/

section Requests

variable {libs} {st : Auth.State V} {s : Step} {step : App.Step} {op : Operation} {stored : Bytes}

theorem measures_of_field {field : Base64} (isText : s.ciphertext? = some field.text) :
    Measures s field.bytes :=
  ⟨field.text, isText, field.validated, b64decode_lenient field.validated⟩

/-- An endpoint without base64 stores no message. -/
theorem storedBy_of_plain {request : App.Authorized} (plain : carriesBase64 request = false)
    (mayCall : request.MayCall op) : storedBy op = none := by
  cases request with
  | account request =>
      obtain ⟨requesterId, isCall⟩ := mayCall
      cases request with
      | listGroups => cases isCall
      | createGroup => cases plain
      | deleteMe => cases isCall; rfl
      | onGroup groupId request =>
          cases request with
          | info | listMessages => cases isCall
          | revokeMessage | recordReceipt | popSkdms => cases isCall; rfl
          | _ => cases plain
  | keys request =>
      obtain ⟨requesterId, isCall⟩ := mayCall
      cases request with
      | getPrekeyCount | lookupIdentityPubByUsername => cases isCall
      | fetchBundle => cases List.mem_singleton.mp isCall; rfl
      | _ => cases plain
  | messages request =>
      obtain ⟨requesterId, isCall⟩ := mayCall
      cases request with
      | sendMessage => cases plain
      | listMessages => cases isCall
      | markReceipt | revoke => cases isCall; rfl

theorem storedBy_of_login {request : App.Request} (login : isAuthorized request = false)
    (mayCall : request.MayCall op) : storedBy op = none := by
  cases op with
  | storeMessage | storeGroupMessage =>
      cases request with
      | authorized => cases login
      | _ => cases mayCall
  | _ => rfl

/-- What an accepted body can have stored: the ciphertext of a message. -/
theorem stored_of_accepts {sent : Sent} {request : App.Authorized} (accepts : Accepts sent request)
    (mayCall : request.MayCall op) (stores : storedBy op = some stored) :
    (∃ recipientId header, ∃ field : BoundedCiphertext,
        sent = .sendMessage recipientId field.text header ∧ field.bytes = stored) ∨
      ∃ groupId epoch, ∃ field : Base64,
        sent = .sendGroupMessage groupId epoch field.text ∧ field.bytes = stored := by
  cases accepts with
  | sendMessage recipientId field header =>
      obtain ⟨requesterId, isCall⟩ := mayCall
      rw [MessagesRequest.call] at isCall
      split at isCall
      · cases isCall
      · cases isCall
        exact Or.inl ⟨recipientId, header.text, field, rfl, Option.some.inj stores⟩
  | sendGroupMessage groupId epoch field =>
      obtain ⟨requesterId, isCall⟩ := mayCall
      cases isCall
      exact Or.inr ⟨groupId, epoch, field, rfl, Option.some.inj stores⟩
  | without request plain =>
      rw [storedBy_of_plain plain mayCall] at stores
      cases stores
  | publishBundle =>
      obtain ⟨requesterId, isCall⟩ := mayCall
      simp only [App.keysCalls, List.mem_cons, List.not_mem_nil, or_false] at isCall
      rcases isCall with rfl | rfl
      · cases stores
      · cases stores
  | uploadPrekeys =>
      obtain ⟨requesterId, isCall⟩ := mayCall
      cases List.mem_singleton.mp isCall
      cases stores
  | createGroup | addMember | removeMember | sendSkdms =>
      obtain ⟨requesterId, isCall⟩ := mayCall
      cases isCall
      cases stores

/-- **What a request stores** its schema has measured. -/
theorem stored_measured (accepted : s.accepted = .ok step) (mayCall : step.request.MayCall op)
    (stores : storedBy op = some stored) : Measures s stored := by
  obtain ⟨request, reading, exceeded⟩ := s
  cases request with
  | login request unauthorized =>
      cases accepted
      rw [storedBy_of_login unauthorized mayCall] at stores
      cases stores
  | authorized credentials sent =>
      obtain ⟨request, isAccepted, returned⟩ := bind_eq_ok.mp accepted
      cases returned
      rcases stored_of_accepts (accept_ok isAccepted) mayCall stores with
        ⟨recipientId, header, field, rfl, rfl⟩ | ⟨groupId, epoch, field, rfl, rfl⟩
      · exact measures_of_field rfl
      · exact measures_of_field rfl

/-- A step adds what its calls store. -/
theorem serve_adds (sound : Sound st.db) (accepted : s.accepted = .ok step) {wanted : Bytes → Prop}
    (stores : ∀ op bytes, step.request.MayCall op → storedBy op = some bytes → wanted bytes) :
    AddsOnly st.db (serve libs st s).1.db wanted := by
  rw [serve_accepted_fst accepted]
  have kept : App.KeptBy step.request fun db => Sound db ∧ AddsOnly st.db db wanted := by
    rintro before op after mayCall done ⟨soundBefore, adds⟩
    refine ⟨soundBefore.perform done, adds.trans ?_⟩
    exact (perform_adds soundBefore done).mono fun bytes => stores op bytes mayCall
  exact (App.serve_keeps_of kept ⟨sound, .refl _ _⟩).2

theorem storesMeasured (earlier : List Step) (s : Step) : StoresMeasured libs earlier s := by
  unfold StoresMeasured
  rw [System.run_snoc]
  show AddsOnly _ (serve libs _ s).1.db _
  cases accepted : s.accepted with
  | error invalid =>
      rw [serve_refused accepted]
      exact .refl _ _
  | ok step =>
      exact serve_adds (application_sound libs earlier) accepted fun op bytes mayCall stores =>
        stored_measured accepted mayCall stores

/-! ## The message that is not measured -/

/-- Every request but a group message keeps the cap. -/
theorem capped_other (sound : Sound st.db) (capped : Capped st.db)
    (other : ∀ credentials groupId epoch text,
      s.request ≠ .authorized credentials (.sendGroupMessage groupId epoch text)) :
    Capped (serve libs st s).1.db := by
  cases accepted : s.accepted with
  | error invalid => rwa [serve_refused accepted]
  | ok step =>
      refine capped.adds (serve_adds sound accepted fun op bytes => ?_) fun bytes small => small
      intro mayCall stores
      obtain ⟨request, reading, exceeded⟩ := s
      cases request with
      | login request unauthorized =>
          cases accepted
          rw [storedBy_of_login unauthorized mayCall] at stores
          cases stores
      | authorized credentials sent =>
          obtain ⟨request, isAccepted, returned⟩ := bind_eq_ok.mp accepted
          cases returned
          rcases stored_of_accepts (accept_ok isAccepted) mayCall stores with
            ⟨recipientId, header, field, rfl, rfl⟩ | ⟨groupId, epoch, field, rfl, rfl⟩
          · exact field.bounded
          · exact absurd rfl (other credentials groupId epoch field.text)

section GroupMessage

variable {reading : Auth.Reading} {exceeded : Option String} {credentials : String}
  {groupId : GroupId} {request : GroupRequest} {user : User}

/-- **A member's request** within the limits is served. -/
theorem serve_admitted (c : Constraints st.db)
    (admitted : Admitted libs st.db reading.decodedAt exceeded credentials groupId user) :
    (App.serve libs st ⟨.authorized credentials (.account (.onGroup groupId request)), reading,
      exceeded⟩).1.db = commitCall st.db (request.call user.id groupId) := by
  obtain ⟨rfl, authenticated, member⟩ := admitted
  obtain ⟨user', group, -, -, ready⟩ := dependencies_member c member request
  have passed : App.authorize libs st.db reading.decodedAt credentials
      (.account (.onGroup groupId request)) = .ok (.account _) :=
    bind_eq_ok.mpr ⟨user, mapError_eq_ok.mpr authenticated,
      bind_eq_ok.mpr ⟨_, mapError_eq_ok.mpr ready, rfl⟩⟩
  have handled := handle_dependencies ready
  rw [App.pending_call ready] at handled
  unfold App.serve App.dependencies
  dsimp only
  rw [passed]
  exact handled

/-- A member's message is stored. -/
theorem serve_message (c : Constraints st.db)
    (admitted : Admitted libs st.db reading.decodedAt exceeded credentials groupId user) (epoch : Int)
    (bytes : Bytes) :
    (App.serve libs st ⟨.authorized credentials (.account (.onGroup groupId
        (.sendMessage epoch bytes))), reading, exceeded⟩).1.db =
      commit st.db (.storeGroupMessage groupId user.id epoch bytes) :=
  serve_admitted c admitted

/-- A request that is not admitted commits nothing. -/
theorem serve_not_admitted
    (refused : ∀ user, ¬ Admitted libs st.db reading.decodedAt exceeded credentials groupId user) :
    (App.serve libs st ⟨.authorized credentials (.account (.onGroup groupId request)), reading,
      exceeded⟩).1.db = st.db := by
  have outcome := App.serve_cases libs st
    ⟨.authorized credentials (.account (.onGroup groupId request)), reading, exceeded⟩
  generalize App.serve libs st _ = served at outcome ⊢
  cases outcome with
  | refused db response resolved => exact (Prod.mk.inj resolved).1.symm
  | limited db call detail resolved => exact (Prod.mk.inj resolved).1.symm
  | called db call resolved within =>
      obtain ⟨rfl, passed⟩ := Prod.mk.inj resolved
      obtain ⟨user, authenticated, calls⟩ := App.authorize_ok passed
      cases calls with
      | account _ pending ready =>
          obtain ⟨-, -, -, -, -, -, member⟩ := App.onGroup_ready ready
          exact absurd ⟨App.exceeded_none within rfl, authenticated, member⟩ (refused user)

end GroupMessage

/-- A message in the table after it was sent. -/
theorem commit_groupMessage (c : Constraints st.db) {groupId : GroupId} {senderId : UserId}
    (member : st.db.IsMember groupId senderId) {epoch : Int} (fits : FitsInteger epoch)
    (ciphertext : Bytes) :
    ∃ row ∈ (commit st.db (.storeGroupMessage groupId senderId epoch ciphertext)).groupMessages,
      row.ciphertext = ciphertext := by
  obtain ⟨groupKnown, senderKnown⟩ := c.member_exists member
  obtain ⟨⟨after, row⟩, stored⟩ :=
    storeGroupMessage_succeeds c senderKnown groupKnown fits ciphertext
  have done : perform st.db (.storeGroupMessage groupId senderId epoch ciphertext) = .ok after := by
    rw [perform, stored]
    rfl
  obtain ⟨-, -, -, rfl, rfl⟩ := storeGroupMessage_ok stored
  rw [commit_ok done]
  exact ⟨_, List.mem_append_right _ (List.mem_singleton_self _), rfl⟩

/-- A group message whose text decodes is accepted, whatever its size. -/
theorem accepted_groupMessage {credentials : String} {groupId : GroupId} {epoch : Int}
    {text : String} {bytes : Bytes}
    (request : s.request = .authorized credentials (.sendGroupMessage groupId epoch text))
    (decoded : b64decode true text = some bytes) :
    s.accepted = .ok ⟨.authorized credentials (.account (.onGroup groupId
      (.sendMessage epoch bytes))), s.reading, s.exceeded⟩ := by
  obtain ⟨field, parsed, rfl⟩ := parseBase64_of_decoded decoded
  unfold Step.accepted
  rw [request]
  exact bind_eq_ok.mpr ⟨_, bind_eq_ok.mpr ⟨field, parsed, rfl⟩, rfl⟩

/-- An oversized message is stored. -/
theorem oversized_stored (sound : Sound st.db) (sends : SendsOversized libs st.db s) :
    ¬ Capped (serve libs st s).1.db := by
  obtain ⟨credentials, groupId, epoch, text, user, bytes, request, admitted, fits, decoded, large⟩ :=
    sends
  rw [serve_accepted_fst (accepted_groupMessage request decoded),
    serve_message sound.constraints admitted]
  intro capped
  obtain ⟨row, stored, rfl⟩ := commit_groupMessage sound.constraints admitted.member fits bytes
  exact absurd (capped.groupMessages row stored) (Nat.not_le_of_lt large)

theorem capped_groupMessage (sound : Sound st.db) (capped : Capped st.db) {credentials : String}
    {groupId : GroupId} {epoch : Int} {text : String}
    (request : s.request = .authorized credentials (.sendGroupMessage groupId epoch text))
    (notOversized : ¬ SendsOversized libs st.db s) : Capped (serve libs st s).1.db := by
  cases decoded : b64decode true text with
  | none =>
      have refused : s.accepted = .error .base64 := by
        unfold Step.accepted
        rw [request]
        simp only [accept, parseBase64_of_undecoded decoded]
        rfl
      rwa [serve_refused refused]
  | some bytes =>
      rw [serve_accepted_fst (accepted_groupMessage request decoded)]
      by_cases admits : ∃ user,
          Admitted libs st.db s.reading.decodedAt s.exceeded credentials groupId user
      · obtain ⟨user, admitted⟩ := admits
        rw [serve_message sound.constraints admitted]
        refine commit_keeps capped fun after done => capped.adds (perform_adds sound done) ?_
        intro stored stores
        cases stores
        obtain ⟨msg, isStored⟩ := dropResult_ok done
        obtain ⟨-, -, fits, -⟩ := storeGroupMessage_ok isStored
        by_contra large
        exact notOversized ⟨credentials, groupId, epoch, text, user, bytes, request, admitted, fits,
          decoded, Nat.lt_of_not_le large⟩
      · rw [serve_not_admitted (not_exists.mp admits)]
        exact capped

/-- **One step** keeps the cap unless a member sends a larger group message. -/
theorem capped_step (sound : Sound st.db) (capped : Capped st.db) (s : Step) :
    Capped (serve libs st s).1.db ↔ ¬ SendsOversized libs st.db s := by
  constructor
  · exact fun after sends => oversized_stored sound sends after
  · intro notOversized
    by_cases isGroup : ∃ credentials groupId epoch text,
        s.request = .authorized credentials (.sendGroupMessage groupId epoch text)
    · obtain ⟨credentials, groupId, epoch, text, request⟩ := isGroup
      exact capped_groupMessage sound capped request notOversized
    · push Not at isGroup
      exact capped_other sound capped isGroup

end Requests

/-- **The cap covers every message** of a run, measured as it is stored, exactly if no
member of a group sends it a larger one. -/
theorem size_cap_iff (libs : Auth.Libraries V) (steps : List Step) :
    (Throughout (fun earlier => Capped ((application libs).run earlier).db) steps ∧
      EachStep (StoresMeasured libs) steps) ↔
    ¬ SomeStep (fun earlier s => SendsOversized libs ((application libs).run earlier).db s) steps := by
  have empty : Capped ((application libs).run []).db :=
    ⟨fun row stored => (nomatch stored), fun row stored => (nomatch stored)⟩
  have step : ∀ earlier s, Capped ((application libs).run earlier).db →
      (Capped ((application libs).run (earlier ++ [s])).db ↔
        ¬ SendsOversized libs ((application libs).run earlier).db s) := by
    intro earlier s capped
    rw [System.run_snoc]
    exact capped_step (application_sound libs earlier) capped s
  rw [someStep_iff, not_not, ← throughout_iff_eachStep empty step steps]
  exact and_iff_left fun earlier s _ => storesMeasured earlier s

/-! ## A message one byte too large -/

theorem not_capped_of_oversized {libs : Auth.Libraries V} {earlier : List Step} {s : Step}
    (sends : SendsOversized libs ((application libs).run earlier).db s) :
    ¬ Throughout (fun run => Capped ((application libs).run run).db) (earlier ++ [s]) := by
  intro capped
  have last : Capped ((application libs).run (earlier ++ [s])).db := capped _ (List.prefix_refl _)
  rw [System.run_snoc] at last
  exact oversized_stored (application_sound libs earlier) sends last

/-- Ada logs in and makes a group of her own. -/
def groupOfAda : List Step :=
  adaLogsIn ++ [⟨.authorized adaToken (.createGroup "team" []), { decodedAt := 21 }, none⟩]

/-- One byte more than the cap, sent to the group. -/
def tooLarge : Step :=
  ⟨.authorized adaToken
    (.sendGroupMessage 1 0 (b64encode (List.replicate (maxMessageBytes + 1) 0))),
    { decodedAt := 22 }, none⟩

theorem tooLarge_sent :
    SendsOversized adaLibs ((application adaLibs).run groupOfAda).db tooLarge := by
  have known : ((Auth.getCurrentUser adaLibs.toTokenLib ((application adaLibs).run groupOfAda).db 22
      adaToken).toOption.map User.id) = some 1 := by
    decide +kernel
  have member : ((application adaLibs).run groupOfAda).db.IsMember 1 1 := by decide +kernel
  cases authenticated : Auth.getCurrentUser adaLibs.toTokenLib
      ((application adaLibs).run groupOfAda).db 22 adaToken with
  | error response =>
      rw [authenticated] at known
      cases known
  | ok user =>
      rw [authenticated] at known
      have isAda : user.id = 1 := Option.some.inj known
      refine .sent adaToken 1 0 _ user _ rfl ⟨rfl, authenticated, ?_⟩ (by decide)
        (b64decode_b64encode true _) ?_
      · rw [isAda]
        exact member
      · rw [List.length_replicate]
        exact Nat.lt_succ_self _

/-- The group message is stored. -/
theorem group_message_uncapped :
    ¬ (Throughout (fun earlier => Capped ((application adaLibs).run earlier).db)
        (groupOfAda ++ [tooLarge]) ∧
      EachStep (StoresMeasured adaLibs) (groupOfAda ++ [tooLarge])) := by
  rintro ⟨capped, -⟩
  exact not_capped_of_oversized tooLarge_sent capped

end SecureMsg.Schemas
