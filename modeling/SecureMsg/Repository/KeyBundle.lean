/-
# Repository.KeyBundle — `SQLKeyBundleRepository`

Published identity keys, one row per user, and the one-time prekeys, handed out
in id order.
-/
import SecureMsg.Store.Statements

namespace SecureMsg.Repository

open SecureMsg.Theory SecureMsg.Store

set_option autoImplicit false

def storeKeyBundle (db : Database) (bundle : UserKeyBundle) : Except Error Database :=
  db.upsertUserKeyBundle bundle

def getKeyBundle (db : Database) (userId : UserId) : Option UserKeyBundle :=
  db.userKeyBundles.find? fun row => row.userId = userId

def addOneTimePrekeys (db : Database) (userId : UserId) (prekeys : List Bytes) :
    Except Error Database :=
  db.insertOneTimePrekeys userId prekeys

/-- The user's prekeys, in the order they are handed out. -/
def prekeysOf (db : Database) (userId : UserId) : List OneTimePreKey :=
  orderBy OneTimePreKey.id (db.oneTimePrekeys.filter fun row => row.userId = userId)

def popOneTimePrekey (db : Database) (userId : UserId) : Database × Option Bytes :=
  match (prekeysOf db userId).head? with
  | none => (db, none)
  | some row => (db.deleteOneTimePrekey row.id, some row.prekeyPub)

def countOneTimePrekeys (db : Database) (userId : UserId) : Nat :=
  (db.oneTimePrekeys.filter fun row => row.userId = userId).length

/-- Here the username is any text. -/
def getIdentityPubByUsername (db : Database) (username : String) :
    Except Error (Option (UserId × Bytes)) :=
  if ¬ Sendable username then .error nulInText
  else .ok <| ((joinOn (fun (user : User) bundle => bundle.userId = user.id)
    db.users db.userKeyBundles).find? fun pair => pair.1.username = username).map
      fun pair => (pair.1.id, pair.2.identityPub)

/-- A pop writes one table. -/
theorem popOneTimePrekey_fst (db : Database) (userId : UserId) :
    ∃ rows, (popOneTimePrekey db userId).1 = { db with oneTimePrekeys := rows } := by
  unfold popOneTimePrekey
  cases (prekeysOf db userId).head? with
  | none => exact ⟨db.oneTimePrekeys, rfl⟩
  | some row => exact ⟨db.oneTimePrekeys.filter fun r => r.id ≠ row.id, rfl⟩

theorem popOneTimePrekey_constraints {db : Database} (c : Constraints db) (userId : UserId) :
    Constraints (popOneTimePrekey db userId).1 := by
  unfold popOneTimePrekey
  cases (prekeysOf db userId).head? with
  | none => exact c
  | some row => exact c.deleteOneTimePrekey row.id

end SecureMsg.Repository
