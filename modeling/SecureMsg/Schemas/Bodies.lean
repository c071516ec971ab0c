/-
# Schemas.Bodies — the bodies with base64 in them, as they are sent

`app/schemas/common.py`, `messages.py`, `groups.py` and `keys.py`.  A field that
passed the validators of its type is a `Base64` or a `BoundedCiphertext`; it keeps
its text, and is decoded a second time, without `validate=True`, where the
endpoint wants the bytes (`Base64.bytes`).

`accept` turns what was sent into the request the endpoint gets, or says what the
schema objects to.
-/
import SecureMsg.Theory.Base64
import SecureMsg.App.Service

namespace SecureMsg.Schemas

open SecureMsg.Theory SecureMsg.Store SecureMsg.Repository SecureMsg.Api

set_option autoImplicit false

/-! ## Validators -/

/-- What a validator objects to.  `_validate_b64` quotes the exception of the decoder. -/
inductive Invalid where
  | base64
  | ciphertextSize (text : String)
  | minLength (length : Nat)
  | maxLength (length : Nat)
  deriving DecidableEq

def validateB64 (value : String) : Except Invalid String :=
  match b64decode true value with
  | none => .error .base64
  | some _ => .ok value

/-- The decoder's exception is a `ValueError`, and refused like one. -/
def validateCiphertextSize (value : String) : Except Invalid String :=
  match b64decode false value with
  | none => .error .base64
  | some decoded =>
      if maxMessageBytes < decoded.length then
        .error (.ciphertextSize ("ciphertext exceeds maximum size of " ++ toString maxMessageBytes ++
          " bytes"))
      else .ok value

theorem validateB64_ok {value text : String} :
    validateB64 value = .ok text ↔ value = text ∧ ∃ bytes, b64decode true text = some bytes := by
  unfold validateB64
  cases decoded : b64decode true value with
  | none =>
      simp only [reduceCtorEq, false_iff, not_and, not_exists]
      rintro rfl bytes isBytes
      rw [decoded] at isBytes
      cases isBytes
  | some bytes =>
      simp only [Except.ok.injEq, iff_self_and]
      rintro rfl
      exact ⟨bytes, decoded⟩

theorem validateCiphertextSize_ok {value text : String} :
    validateCiphertextSize value = .ok text ↔ value = text ∧
      ∃ bytes, b64decode false text = some bytes ∧ bytes.length ≤ maxMessageBytes := by
  unfold validateCiphertextSize
  cases decoded : b64decode false value with
  | none =>
      simp only [reduceCtorEq, false_iff, not_and, not_exists]
      rintro rfl bytes isBytes
      rw [decoded] at isBytes
      cases isBytes
  | some bytes =>
      dsimp only
      by_cases large : maxMessageBytes < bytes.length
      · rw [if_pos large]
        simp only [reduceCtorEq, false_iff, not_and, not_exists]
        rintro rfl bytes' isBytes
        rw [decoded] at isBytes
        cases isBytes
        exact Nat.not_le_of_lt large
      · rw [if_neg large]
        simp only [Except.ok.injEq, iff_self_and]
        rintro rfl
        exact ⟨bytes, decoded, Nat.le_of_not_lt large⟩

/-! ## Fields -/

/-- A value of the type `Base64`. -/
structure Base64 where
  text : String
  valid : validateB64 text = .ok text

theorem Base64.decoded (field : Base64) : (b64decode false field.text).isSome = true := by
  obtain ⟨-, bytes, accepted⟩ := validateB64_ok.mp field.valid
  rw [b64decode_lenient accepted]
  rfl

/-- `base64.b64decode(self.field)` -/
def Base64.bytes (field : Base64) : Bytes := (b64decode false field.text).get field.decoded

/-- **What is stored is what was validated.** -/
theorem Base64.validated (field : Base64) : b64decode true field.text = some field.bytes := by
  obtain ⟨-, bytes, accepted⟩ := validateB64_ok.mp field.valid
  rw [accepted]
  unfold Base64.bytes
  simp only [b64decode_lenient accepted, Option.get_some]

/-- A value of the type `BoundedCiphertext`. -/
structure BoundedCiphertext extends Base64 where
  sized : validateCiphertextSize text = .ok text

theorem BoundedCiphertext.bounded (field : BoundedCiphertext) :
    field.bytes.length ≤ maxMessageBytes := by
  obtain ⟨-, bytes, measured, small⟩ := validateCiphertextSize_ok.mp field.sized
  rw [b64decode_lenient field.validated] at measured
  cases measured
  exact small

def parseBase64 (value : String) : Except Invalid Base64 :=
  match valid : validateB64 value with
  | .error invalid => .error invalid
  | .ok text => .ok ⟨text, (validateB64_ok.mp valid).1 ▸ valid⟩

/-- The validators of an annotated type run one after the other. -/
def parseBoundedCiphertext (value : String) : Except Invalid BoundedCiphertext := do
  let field ← parseBase64 value
  match sized : validateCiphertextSize field.text with
  | .error invalid => .error invalid
  | .ok text =>
      have same := (validateCiphertextSize_ok.mp sized).1
      .ok ⟨⟨text, same ▸ field.valid⟩, same ▸ sized⟩

theorem parseBase64_ok {value : String} {field : Base64} :
    parseBase64 value = .ok field ↔ value = field.text := by
  constructor
  · intro parsed
    unfold parseBase64 at parsed
    split at parsed
    · cases parsed
    · next text valid =>
        cases parsed
        exact (validateB64_ok.mp valid).1
  · rintro rfl
    unfold parseBase64
    split
    · next invalid refused =>
        rw [field.valid] at refused
        cases refused
    · next text valid =>
        have same := (validateB64_ok.mp valid).1
        subst same
        rfl

theorem parseBoundedCiphertext_ok {value : String} {field : BoundedCiphertext} :
    parseBoundedCiphertext value = .ok field ↔ value = field.text := by
  constructor
  · intro parsed
    obtain ⟨base, isBase, rest⟩ := bind_eq_ok.mp parsed
    rw [parseBase64_ok.mp isBase]
    split at rest
    · cases rest
    · next text sized =>
        cases rest
        exact (validateCiphertextSize_ok.mp sized).1
  · rintro rfl
    refine bind_eq_ok.mpr ⟨field.toBase64, parseBase64_ok.mpr rfl, ?_⟩
    split
    · next invalid refused =>
        rw [field.sized] at refused
        cases refused
    · next text sized =>
        have same := (validateCiphertextSize_ok.mp sized).1
        subst same
        rfl

theorem parseBase64_of_undecoded {value : String} (undecoded : b64decode true value = none) :
    parseBase64 value = .error .base64 := by
  unfold parseBase64
  split
  · next invalid refused =>
      rw [validateB64, undecoded] at refused
      cases refused
      rfl
  · next text valid =>
      rw [validateB64, undecoded] at valid
      cases valid

/-- Text that decodes strictly is accepted. -/
theorem parseBase64_of_decoded {value : String} {bytes : Bytes}
    (decoded : b64decode true value = some bytes) :
    ∃ field, parseBase64 value = .ok field ∧ field.bytes = bytes := by
  let field : Base64 := ⟨value, validateB64_ok.mpr ⟨rfl, bytes, decoded⟩⟩
  refine ⟨field, parseBase64_ok.mpr rfl, ?_⟩
  have validated := field.validated
  rw [decoded] at validated
  exact (Option.some.inj validated).symm

/-- `GroupName` -/
def validateGroupName (value : String) : Except Invalid String :=
  if value.length < 1 then .error (.minLength 1)
  else if 64 < value.length then .error (.maxLength 64)
  else .ok value

theorem validateGroupName_ok {value name : String} (valid : validateGroupName value = .ok name) :
    value = name := by
  unfold validateGroupName at valid
  split at valid
  · cases valid
  · split at valid
    · cases valid
    · cases valid
      rfl

/-- A member of a JSON object, its key read as a user id. -/
abbrev Entry := UserId × String

/-- `dict[int, Base64]`, and `base64.b64decode` of its values. -/
def parseCiphertexts (sent : List Entry) : Except Invalid Ciphertexts := do
  let fields ← sent.mapM fun entry => return (entry.1, (← parseBase64 entry.2).bytes)
  return Dict.ofPairs fields

/-- `list[Base64]`, and `base64.b64decode` of its items. -/
def parsePrekeys (sent : List String) : Except Invalid (List Bytes) :=
  sent.mapM fun value => return (← parseBase64 value).bytes

/-! ## Bodies -/

structure SentKeyBundle where
  identityPub : String
  signedPrekeyPub : String
  signedPrekeySig : String
  oneTimePrekeys : List String
  pqPrekeyPub : String
  pqPrekeySig : String

/-- The endpoint is one with base64 in its body. -/
def carriesBase64 : App.Authorized → Bool
  | .account (.createGroup ..) | .account (.onGroup _ (.addMember ..))
  | .account (.onGroup _ (.removeMember ..)) | .account (.onGroup _ (.sendMessage ..))
  | .account (.onGroup _ (.sendSkdms ..)) => true
  | .keys (.publishBundle _) | .keys (.uploadPrekeys _) => true
  | .messages (.sendMessage _) => true
  | _ => false

/-- What is sent to an endpoint behind `get_current_user`. -/
inductive Sent where
  | sendMessage (recipientId : UserId) (ciphertext ratchetHeaderEnc : String)
  | publishBundle (body : SentKeyBundle)
  | uploadPrekeys (oneTimePrekeys : List String)
  | createGroup (name : String) (initialMembers : List Entry)
  | addMember (groupId : GroupId) (userId : UserId) (skdmCiphertext : String)
  | removeMember (groupId : GroupId) (userId : UserId) (skdmCiphertexts : List Entry)
  | sendGroupMessage (groupId : GroupId) (epoch : Int) (ciphertext : String)
  | sendSkdms (groupId : GroupId) (skdmCiphertexts : List Entry)
  | without (request : App.Authorized) (plain : carriesBase64 request = false)

/-- The group in the path, which the group dependency loads. -/
def Sent.groupId? : Sent → Option GroupId
  | .addMember groupId .. | .removeMember groupId .. | .sendGroupMessage groupId ..
  | .sendSkdms groupId _ => some groupId
  | _ => none

/-- Validation, and the decoding of the accepted fields.  The framework lists every
objection; this is the first. -/
def accept : Sent → Except Invalid App.Authorized
  | .sendMessage recipientId ciphertext ratchetHeaderEnc => do
      let ciphertext ← parseBoundedCiphertext ciphertext
      let ratchetHeaderEnc ← parseBase64 ratchetHeaderEnc
      return .messages (.sendMessage
        ⟨recipientId, ciphertext.bytes, ratchetHeaderEnc.bytes, ciphertext.bounded⟩)
  | .publishBundle body => do
      let identityPub ← parseBase64 body.identityPub
      let signedPrekeyPub ← parseBase64 body.signedPrekeyPub
      let signedPrekeySig ← parseBase64 body.signedPrekeySig
      let oneTimePrekeys ← parsePrekeys body.oneTimePrekeys
      let pqPrekeyPub ← parseBase64 body.pqPrekeyPub
      let pqPrekeySig ← parseBase64 body.pqPrekeySig
      return .keys (.publishBundle ⟨identityPub.bytes, signedPrekeyPub.bytes,
        signedPrekeySig.bytes, oneTimePrekeys, pqPrekeyPub.bytes, pqPrekeySig.bytes⟩)
  | .uploadPrekeys oneTimePrekeys => do
      let oneTimePrekeys ← parsePrekeys oneTimePrekeys
      return .keys (.uploadPrekeys oneTimePrekeys)
  | .createGroup name initialMembers => do
      let name ← validateGroupName name
      let initialMembers ← parseCiphertexts initialMembers
      return .account (.createGroup name initialMembers)
  | .addMember groupId userId skdmCiphertext => do
      let skdmCiphertext ← parseBase64 skdmCiphertext
      return .account (.onGroup groupId (.addMember userId skdmCiphertext.bytes))
  | .removeMember groupId userId skdmCiphertexts => do
      let skdmCiphertexts ← parseCiphertexts skdmCiphertexts
      return .account (.onGroup groupId (.removeMember userId skdmCiphertexts))
  | .sendGroupMessage groupId epoch ciphertext => do
      let ciphertext ← parseBase64 ciphertext
      return .account (.onGroup groupId (.sendMessage epoch ciphertext.bytes))
  | .sendSkdms groupId skdmCiphertexts => do
      let skdmCiphertexts ← parseCiphertexts skdmCiphertexts
      if atLeastOne : skdmCiphertexts.nonempty = true then
        return .account (.onGroup groupId (.sendSkdms skdmCiphertexts atLeastOne))
      else .error (.minLength 1)
  | .without request _ => .ok request

/-- The text of the message a body brings. -/
def Sent.ciphertext? : Sent → Option String
  | .sendMessage _ ciphertext _ | .sendGroupMessage _ _ ciphertext => some ciphertext
  | _ => none

/-! ## What an accepted body is -/

/-- The request that each accepted body becomes. -/
inductive Accepts : Sent → App.Authorized → Prop where
  | sendMessage (recipientId : UserId) (ciphertext : BoundedCiphertext) (header : Base64) :
      Accepts (.sendMessage recipientId ciphertext.text header.text) (.messages (.sendMessage
        ⟨recipientId, ciphertext.bytes, header.bytes, ciphertext.bounded⟩))
  | publishBundle (identity signed signature pq pqSignature : Base64) (sent : List String)
      (prekeys : List Bytes) (parsed : parsePrekeys sent = .ok prekeys) :
      Accepts (.publishBundle
          ⟨identity.text, signed.text, signature.text, sent, pq.text, pqSignature.text⟩)
        (.keys (.publishBundle
          ⟨identity.bytes, signed.bytes, signature.bytes, prekeys, pq.bytes, pqSignature.bytes⟩))
  | uploadPrekeys (sent : List String) (prekeys : List Bytes)
      (parsed : parsePrekeys sent = .ok prekeys) :
      Accepts (.uploadPrekeys sent) (.keys (.uploadPrekeys prekeys))
  | createGroup (name : String) (sent : List Entry) (initialMembers : Ciphertexts)
      (valid : validateGroupName name = .ok name)
      (parsed : parseCiphertexts sent = .ok initialMembers) :
      Accepts (.createGroup name sent) (.account (.createGroup name initialMembers))
  | addMember (groupId : GroupId) (userId : UserId) (skdm : Base64) :
      Accepts (.addMember groupId userId skdm.text)
        (.account (.onGroup groupId (.addMember userId skdm.bytes)))
  | removeMember (groupId : GroupId) (userId : UserId) (sent : List Entry) (skdms : Ciphertexts)
      (parsed : parseCiphertexts sent = .ok skdms) :
      Accepts (.removeMember groupId userId sent)
        (.account (.onGroup groupId (.removeMember userId skdms)))
  | sendGroupMessage (groupId : GroupId) (epoch : Int) (ciphertext : Base64) :
      Accepts (.sendGroupMessage groupId epoch ciphertext.text)
        (.account (.onGroup groupId (.sendMessage epoch ciphertext.bytes)))
  | sendSkdms (groupId : GroupId) (sent : List Entry) (skdms : Ciphertexts)
      (parsed : parseCiphertexts sent = .ok skdms) (atLeastOne : skdms.nonempty = true) :
      Accepts (.sendSkdms groupId sent) (.account (.onGroup groupId (.sendSkdms skdms atLeastOne)))
  | without (request : App.Authorized) (plain : carriesBase64 request = false) :
      Accepts (.without request plain) request

theorem accept_ok {sent : Sent} {request : App.Authorized} (accepted : accept sent = .ok request) :
    Accepts sent request := by
  cases sent with
  | sendMessage recipientId text text' =>
      obtain ⟨ciphertext, isCiphertext, rest⟩ := bind_eq_ok.mp accepted
      obtain ⟨header, isHeader, returned⟩ := bind_eq_ok.mp rest
      cases returned
      rw [parseBoundedCiphertext_ok.mp isCiphertext, parseBase64_ok.mp isHeader]
      exact .sendMessage recipientId ciphertext header
  | publishBundle body =>
      obtain ⟨identity, isIdentity, rest⟩ := bind_eq_ok.mp accepted
      obtain ⟨signed, isSigned, rest⟩ := bind_eq_ok.mp rest
      obtain ⟨signature, isSignature, rest⟩ := bind_eq_ok.mp rest
      obtain ⟨prekeys, parsed, rest⟩ := bind_eq_ok.mp rest
      obtain ⟨pq, isPq, rest⟩ := bind_eq_ok.mp rest
      obtain ⟨pqSignature, isPqSignature, returned⟩ := bind_eq_ok.mp rest
      cases returned
      obtain ⟨identityPub, signedPrekeyPub, signedPrekeySig, texts, pqPrekeyPub, pqPrekeySig⟩ := body
      cases parseBase64_ok.mp isIdentity
      cases parseBase64_ok.mp isSigned
      cases parseBase64_ok.mp isSignature
      cases parseBase64_ok.mp isPq
      cases parseBase64_ok.mp isPqSignature
      exact .publishBundle identity signed signature pq pqSignature texts prekeys parsed
  | uploadPrekeys texts =>
      obtain ⟨prekeys, parsed, returned⟩ := bind_eq_ok.mp accepted
      cases returned
      exact .uploadPrekeys texts prekeys parsed
  | createGroup text entries =>
      obtain ⟨name, isName, rest⟩ := bind_eq_ok.mp accepted
      obtain ⟨initialMembers, parsed, returned⟩ := bind_eq_ok.mp rest
      cases returned
      cases validateGroupName_ok isName
      exact .createGroup text entries initialMembers isName parsed
  | addMember groupId userId text =>
      obtain ⟨skdm, isSkdm, returned⟩ := bind_eq_ok.mp accepted
      cases returned
      rw [parseBase64_ok.mp isSkdm]
      exact .addMember groupId userId skdm
  | removeMember groupId userId entries =>
      obtain ⟨skdms, parsed, returned⟩ := bind_eq_ok.mp accepted
      cases returned
      exact .removeMember groupId userId entries skdms parsed
  | sendGroupMessage groupId epoch text =>
      obtain ⟨ciphertext, isCiphertext, returned⟩ := bind_eq_ok.mp accepted
      cases returned
      rw [parseBase64_ok.mp isCiphertext]
      exact .sendGroupMessage groupId epoch ciphertext
  | sendSkdms groupId entries =>
      obtain ⟨skdms, parsed, rest⟩ := bind_eq_ok.mp accepted
      split at rest
      · next atLeastOne =>
          cases rest
          exact .sendSkdms groupId entries skdms parsed atLeastOne
      · cases rest
  | without plainRequest plain =>
      cases accepted
      exact .without request plain

end SecureMsg.Schemas
