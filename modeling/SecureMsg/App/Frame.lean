/-
# App.Frame — no endpoint looks at the blocklist

Only the single-use dependencies do.  Under any other blocklist every endpoint function
answers the same and does the same to the other tables (`endpoint_frame`), so it leaves the
blocklist there is (`endpoint_blocklist`).
-/
import SecureMsg.Repository.Frame
import SecureMsg.App.Service

namespace SecureMsg.App

open SecureMsg.Theory SecureMsg.Store SecureMsg.Repository SecureMsg.Auth

set_option autoImplicit false

variable {V : Type} {libs : Libraries V} (rows : List RefreshTokenBlocklist) (db : Database)

/-! ## The routers behind `get_current_user` -/

theorem answer_frame {β : Type} {result result' : Except Error (Database × β)}
    (same : result' = result.map (Prod.map (withBlocklist rows) id)) (ok : β → Api.Response)
    (raised : Error → Api.Response) :
    Api.answer (withBlocklist rows db) result' ok raised =
      (Api.answer db result ok raised).map (withBlocklist rows) id := by
  subst same
  cases result with
  | ok value => rfl
  | error e => rfl

theorem answerDone_frame {result result' : Except Error Database}
    (same : result' = result.map (withBlocklist rows)) (raised : Error → Api.Response) :
    Api.answerDone (withBlocklist rows db) result' raised =
      (Api.answerDone db result raised).map (withBlocklist rows) id := by
  subst same
  cases result with
  | ok after => rfl
  | error e => rfl

theorem handleOnGroup_frame (session : Session) (currentUser : User) (group : Group)
    (request : Api.GroupRequest) :
    Api.handleOnGroup (withBlocklist rows db) session currentUser group request =
      (Api.handleOnGroup db session currentUser group request).map (withBlocklist rows) id := by
  cases request with
  | info => rfl
  | listMessages => rfl
  | popSkdms => rfl
  | addMember => exact answerDone_frame rows db (addMember_frame rows db) _
  | removeMember => exact answer_frame rows db (removeMember_frame rows db) _ _
  | sendMessage => exact answer_frame rows db (storeGroupMessage_frame rows db) _ _
  | recordReceipt => exact answerDone_frame rows db (recordGroupReceipt_frame rows db) _
  | sendSkdms => exact answerDone_frame rows db (storeSkdmsUncommitted_frame rows db) _
  | revokeMessage msgId =>
      have same := revokeGroupMessage_frame rows db msgId currentUser.id
      simp only [Api.handleOnGroup, same]
      cases revokeGroupMessage db msgId currentUser.id with
      | mk after revoked => cases revoked with | _ => rfl

theorem handle_frame (pending : Api.Pending) :
    Api.handle (withBlocklist rows db) pending =
      (Api.handle db pending).map (withBlocklist rows) id := by
  obtain ⟨session, currentUser, endpoint⟩ := pending
  cases endpoint with
  | listGroups => rfl
  | createGroup => exact answer_frame rows db (createGroup_frame rows db) _ _
  | onGroup group request => exact handleOnGroup_frame rows db session currentUser group request
  | deleteMe => exact answer_frame rows db (deleteUser_frame rows db) _ _

theorem uploadPrekeys_frame (currentUser : User) (prekeys : List Bytes) :
    Api.uploadPrekeys (withBlocklist rows db) currentUser prekeys =
      (Api.uploadPrekeys db currentUser prekeys).map (withBlocklist rows) id := by
  unfold Api.uploadPrekeys
  rw [addOneTimePrekeys_frame rows db]
  cases addOneTimePrekeys db currentUser.id prekeys with
  | ok after => rfl
  | error e => rfl

theorem handleKeys_frame (currentUser : User) (request : Api.KeysRequest) :
    Api.handleKeys (withBlocklist rows db) currentUser request =
      (Api.handleKeys db currentUser request).map (withBlocklist rows) id := by
  cases request with
  | publishBundle body =>
      show Api.publishBundle _ _ _ = (Api.publishBundle _ _ _).map _ _
      unfold Api.publishBundle
      rw [storeKeyBundle_frame rows db]
      cases storeKeyBundle db (body.row currentUser.id) with
      | ok stored => exact uploadPrekeys_frame rows stored currentUser body.oneTimePrekeys
      | error e => rfl
  | uploadPrekeys prekeys => exact uploadPrekeys_frame rows db currentUser prekeys
  | getPrekeyCount => rfl
  | lookupIdentityPubByUsername => rfl
  | fetchBundle userId =>
      show Api.fetchBundle _ _ = (Api.fetchBundle _ _).map _ _
      have user : getUserById (withBlocklist rows db) userId = getUserById db userId := rfl
      have stored : getKeyBundle (withBlocklist rows db) userId = getKeyBundle db userId := rfl
      unfold Api.fetchBundle
      rw [user, stored, popOneTimePrekey_frame rows db]
      cases getUserById db userId with
      | none => rfl
      | some row =>
          cases getKeyBundle db userId with
          | none => rfl
          | some bundle => rfl

theorem handleMessages_frame (currentUser : User) (request : Api.MessagesRequest) :
    Api.handleMessages (withBlocklist rows db) currentUser request =
      (Api.handleMessages db currentUser request).map (withBlocklist rows) id := by
  cases request with
  | sendMessage body =>
      refine ite_frame Iff.rfl (fun _ => rfl) fun _ => ?_
      rw [storeMessage_frame rows db]
      cases storeMessage db currentUser.id body.recipientId body.ciphertext
          body.ratchetHeaderEnc with
      | ok stored => rfl
      | error e => cases e with | _ => rfl
  | listMessages page => rfl
  | markReceipt messageId => rfl
  | revoke messageId => rfl

/-! ## The service -/

/-- The service's state under another blocklist. -/
def restock (st : State V) : State V := { st with db := withBlocklist rows st.db }

variable (st : State V)

theorem register_frame (reading : Reading) (body : RegisterRequest) :
    register libs (restock rows st) reading body =
      (register libs st reading body).map (restock rows) id := by
  refine ite_frame Iff.rfl (fun _ => rfl) fun _ => ?_
  cases fromHex body.srpVerifier with
  | none => rfl
  | some verifier =>
      dsimp only [restock]
      rw [createUser_frame rows st.db]
      cases createUser st.db body.username body.srpSalt
          (encrypt libs.aead reading.verifierNonce verifier)
          (encrypt libs.aead reading.totpNonce (encodeText reading.totpSecret)) with
      | ok created => rfl
      | error e => rfl

theorem srpInitEndpoint_frame (reading : Reading) (body : SRPInitRequest) :
    srpInitEndpoint libs (restock rows st) reading body =
      (srpInitEndpoint libs st reading body).map (restock rows) id := by
  have user : getUserByUsername (restock rows st).db body.username =
      getUserByUsername st.db body.username := rfl
  unfold srpInitEndpoint
  rw [user]
  cases getUserByUsername st.db body.username with
  | none => rfl
  | some row =>
      dsimp only
      cases decrypt libs.aead row.srpVerifierEnc with
      | none => rfl
      | some verifier => rfl

/-- **Endpoints neither read nor write the blocklist.** -/
theorem endpoint_frame (reading : Reading) (call : Call) :
    endpoint libs (restock rows st) reading call =
      (endpoint libs st reading call).map (restock rows) id := by
  cases call with
  | register body =>
      exact congrArg (Prod.map id Response.login) (register_frame rows st reading body)
  | srpInit body =>
      exact congrArg (Prod.map id Response.login) (srpInitEndpoint_frame rows st reading body)
  | account pending =>
      have same := handle_frame rows st.db pending
      exact congrArg (Prod.map (fun db => { st with db := db }) Response.account) same
  | keys currentUser request =>
      have same := handleKeys_frame rows st.db currentUser request
      exact congrArg (Prod.map (fun db => { st with db := db }) Response.keys) same
  | messages currentUser request =>
      have same := handleMessages_frame rows st.db currentUser request
      exact congrArg (Prod.map (fun db => { st with db := db }) Response.messages) same
  | _ => rfl

/-- An endpoint leaves the blocklist there is. -/
theorem endpoint_blocklist (reading : Reading) (call : Call) :
    (endpoint libs st reading call).1.db.refreshTokenBlocklist = st.db.refreshTokenBlocklist := by
  have same : restock st.db.refreshTokenBlocklist st = st := rfl
  have framed : endpoint libs (restock st.db.refreshTokenBlocklist st) reading call = _ :=
    endpoint_frame st.db.refreshTokenBlocklist st reading call
  rw [same] at framed
  rw [framed]
  rfl

end SecureMsg.App
