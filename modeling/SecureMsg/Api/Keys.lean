/-
# Api.Keys — the key endpoints

`publish_bundle` makes two commits: the bundle row is replaced, then the one-time
prekeys are added to those already stored.  `fetch_bundle` pops the oldest one;
an empty prekey is popped and not shown.

Bodies are taken after validation, so keys are bytes.  `serveKeys_effect` says
what a request does to the stored keys.
-/
import SecureMsg.Api.Groups
import SecureMsg.Repository.Personal

namespace SecureMsg.Api

open SecureMsg.Theory SecureMsg.Store SecureMsg.Repository

set_option autoImplicit false

/-! ## Requests and responses -/

structure KeyBundleUpload where
  identityPub : Bytes
  signedPrekeyPub : Bytes
  signedPrekeySig : Bytes
  oneTimePrekeys : List Bytes
  pqPrekeyPub : Bytes
  pqPrekeySig : Bytes
  deriving DecidableEq

structure KeyBundleResponse where
  identityPub : Bytes
  signedPrekeyPub : Bytes
  signedPrekeySig : Bytes
  oneTimePrekey : Option Bytes
  pqPrekeyPub : Bytes
  pqPrekeySig : Bytes
  deriving DecidableEq

inductive KeysRequest where
  | publishBundle (body : KeyBundleUpload)
  | uploadPrekeys (oneTimePrekeys : List Bytes)
  | getPrekeyCount
  | lookupIdentityPubByUsername (username : String)
  | fetchBundle (userId : UserId)
  deriving DecidableEq

inductive KeysResponse where
  | noContent
  | count (count : Nat)
  | userIdentity (userId : UserId) (identityPub : Bytes)
  | keyBundle (bundle : KeyBundleResponse)
  | httpException (status : Nat) (detail : String)
  /-- An exception no handler catches: the framework answers 500. -/
  | unhandled (raised : Error)
  deriving DecidableEq

/-- The bundle a response carries. -/
def KeysResponse.bundle? : KeysResponse → Option KeyBundleResponse
  | .keyBundle bundle => some bundle
  | _ => none

/-! ## Endpoints -/

def KeyBundleUpload.row (body : KeyBundleUpload) (userId : UserId) : UserKeyBundle :=
  ⟨userId, body.identityPub, body.signedPrekeyPub, body.signedPrekeySig, body.pqPrekeyPub,
    body.pqPrekeySig⟩

def uploadPrekeys (db : Database) (currentUser : User) (prekeys : List Bytes) :
    Database × KeysResponse :=
  match addOneTimePrekeys db currentUser.id prekeys with
  | .ok after => (after, .noContent)
  | .error e => (db, .unhandled e)

/-- The bundle is committed before the prekeys are added. -/
def publishBundle (db : Database) (currentUser : User) (body : KeyBundleUpload) :
    Database × KeysResponse :=
  match storeKeyBundle db (body.row currentUser.id) with
  | .ok stored => uploadPrekeys stored currentUser body.oneTimePrekeys
  | .error e => (db, .unhandled e)

def lookupIdentityPubByUsername (db : Database) (username : String) : KeysResponse :=
  match getIdentityPubByUsername db username with
  | .error e => .unhandled e
  | .ok none => .httpException 404 "User not found"
  | .ok (some (userId, identityPub)) => .userIdentity userId identityPub

/-- `base64.b64encode(opk).decode() if opk else None`: no bytes are shown as no key. -/
def shownPrekey : Option Bytes → Option Bytes
  | none | some [] => none
  | some (byte :: rest) => some (byte :: rest)

def fetchBundle (db : Database) (userId : UserId) : Database × KeysResponse :=
  match getUserById db userId with
  | none => (db, .httpException 404 "User not found")
  | some _ =>
      match getKeyBundle db userId with
      | none => (db, .httpException 404 "Key bundle not found")
      | some bundle =>
          let (after, opk) := popOneTimePrekey db userId
          (after, .keyBundle ⟨bundle.identityPub, bundle.signedPrekeyPub, bundle.signedPrekeySig,
            shownPrekey opk, bundle.pqPrekeyPub, bundle.pqPrekeySig⟩)

def handleKeys (db : Database) (currentUser : User) : KeysRequest → Database × KeysResponse
  | .publishBundle body => publishBundle db currentUser body
  | .uploadPrekeys prekeys => uploadPrekeys db currentUser prekeys
  | .getPrekeyCount => (db, .count (countOneTimePrekeys db currentUser.id))
  | .lookupIdentityPubByUsername username => (db, lookupIdentityPubByUsername db username)
  | .fetchBundle userId => fetchBundle db userId

def serveKeys (db : Database) (requesterId : UserId) (request : KeysRequest) :
    Database × KeysResponse :=
  match getUserById db requesterId with
  | none => (db, .httpException 401 "User not found")
  | some currentUser => handleKeys db currentUser request

/-! ## What a request does to the stored keys -/

variable {db : Database}

inductive KeysEffect (db : Database) (requesterId : UserId) :
    KeysRequest → Database × KeysResponse → Prop where
  | unchanged (request : KeysRequest) (response : KeysResponse) (silent : response.bundle? = none) :
      KeysEffect db requesterId request (db, response)
  | published (body : KeyBundleUpload) (stored after : Database)
      (bundle : storeKeyBundle db (body.row requesterId) = .ok stored)
      (prekeys : addOneTimePrekeys stored requesterId body.oneTimePrekeys = .ok after) :
      KeysEffect db requesterId (.publishBundle body) (after, .noContent)
  | uploaded (prekeys : List Bytes) (after : Database)
      (added : addOneTimePrekeys db requesterId prekeys = .ok after) :
      KeysEffect db requesterId (.uploadPrekeys prekeys) (after, .noContent)
  | fetched (userId : UserId) (bundle : KeyBundleResponse) (known : userId ∈ db.userIds)
      (shown : bundle.oneTimePrekey = shownPrekey (popOneTimePrekey db userId).2) :
      KeysEffect db requesterId (.fetchBundle userId)
        ((popOneTimePrekey db userId).1, .keyBundle bundle)

/-- Once the bundle is stored its owner is there, and the prekeys go in as well. -/
theorem publishBundle_effect {currentUser : User} (known : currentUser.id ∈ db.userIds)
    (body : KeyBundleUpload) :
    KeysEffect db currentUser.id (.publishBundle body) (publishBundle db currentUser body) := by
  unfold publishBundle
  cases bundle : storeKeyBundle db (body.row currentUser.id) with
  | error e => exact .unchanged _ _ rfl
  | ok stored =>
      have still : currentUser.id ∈ stored.userIds := by
        rcases Database.upsertUserKeyBundle_ok.mp bundle with ⟨-, rfl⟩ | ⟨-, -, rfl⟩
        · exact known
        · exact known
      have prekeys : addOneTimePrekeys stored currentUser.id body.oneTimePrekeys = .ok _ :=
        Database.insertOneTimePrekeys_ok.mpr ⟨Or.inr still, rfl⟩
      simp only [uploadPrekeys, prekeys]
      exact .published body stored _ bundle prekeys

theorem serveKeys_effect (db : Database) (requesterId : UserId) (request : KeysRequest) :
    KeysEffect db requesterId request (serveKeys db requesterId request) := by
  unfold serveKeys
  cases found : getUserById db requesterId with
  | none => exact .unchanged _ _ rfl
  | some currentUser =>
      obtain ⟨rfl, known⟩ := getUserById_some found
      cases request with
      | publishBundle body => exact publishBundle_effect known body
      | uploadPrekeys prekeys =>
          simp only [handleKeys, uploadPrekeys]
          cases added : addOneTimePrekeys db currentUser.id prekeys with
          | error e => exact .unchanged _ _ rfl
          | ok after => exact .uploaded prekeys after added
      | getPrekeyCount => exact .unchanged _ _ rfl
      | lookupIdentityPubByUsername username =>
          simp only [handleKeys, lookupIdentityPubByUsername]
          cases getIdentityPubByUsername db username with
          | error e => exact .unchanged _ _ rfl
          | ok result =>
              cases result with
              | none => exact .unchanged _ _ rfl
              | some identity => exact .unchanged _ _ rfl
      | fetchBundle userId =>
          simp only [handleKeys, fetchBundle]
          cases owner : getUserById db userId with
          | none => exact .unchanged _ _ rfl
          | some user =>
              cases getKeyBundle db userId with
              | none => exact .unchanged _ _ rfl
              | some bundle => exact .fetched userId _ (getUserById_some owner).2 rfl

/-- The rule for state properties: a request is repository calls, one after the other. -/
theorem serveKeys_keeps {P : Database → Prop}
    (kept : ∀ before op after, perform before op = .ok after → P before → P after) (now : P db)
    (requesterId : UserId) (request : KeysRequest) : P (serveKeys db requesterId request).1 := by
  have effect := serveKeys_effect db requesterId request
  generalize serveKeys db requesterId request = served at effect ⊢
  cases effect with
  | unchanged => exact now
  | published body stored after bundle prekeys =>
      have first : P stored := kept db (.storeKeyBundle (body.row requesterId)) stored bundle now
      exact kept stored (.addOneTimePrekeys requesterId body.oneTimePrekeys) after prekeys first
  | uploaded prekeys after added =>
      exact kept db (.addOneTimePrekeys requesterId prekeys) after added now
  | fetched userId => exact kept db (.popOneTimePrekey userId) _ rfl now

end SecureMsg.Api
