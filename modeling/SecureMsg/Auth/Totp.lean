/-
# Auth.Totp — `app/auth/totp.py`

The second factor and the encryption of stored secrets.  AES-GCM under the key
derived from the master secret is a parameter, and so is `pyotp`.
-/
import SecureMsg.Store.Tables

namespace SecureMsg.Auth

open SecureMsg.Store

set_option autoImplicit false

/-- `AESGCM(key).encrypt` and `.decrypt`; `none` is a tag that does not match. -/
structure Aead where
  encrypt : (nonce plaintext : Bytes) → Bytes
  decrypt : (nonce ciphertext : Bytes) → Option Bytes

/-- `pyotp.TOTP(secret)`: the check of a code at a time within a window of steps,
and the provisioning URI. -/
structure Pyotp where
  verify : (secret code : String) → (forTime : Rat) → (validWindow : Nat) → Bool
  provisioningUri : (secret name issuerName : String) → String

def nonceLengthBytes : Nat := 12
def totpWindow : Nat := 1
def appName : String := "SecureMsg"

/-- `text.encode()`. -/
def encodeText (text : String) : Bytes := text.toUTF8.data.toList

/-- `data.decode()`: `none` where the bytes are not UTF-8. -/
def decodeText (data : Bytes) : Option String := String.fromUTF8? ⟨data.toArray⟩

/-- `nonce` is what `secrets.token_bytes` draws. -/
def encrypt (aead : Aead) (nonce plaintext : Bytes) : Bytes :=
  nonce ++ aead.encrypt nonce plaintext

def decrypt (aead : Aead) (data : Bytes) : Option Bytes :=
  aead.decrypt (data.take nonceLengthBytes) (data.drop nonceLengthBytes)

/-- `time` is what `pyotp` reads as the current time. -/
def verifyTotp (pyotp : Pyotp) (time : Rat) (secret code : String) : Bool :=
  pyotp.verify secret code time totpWindow

def getProvisioningUri (pyotp : Pyotp) (secret username : String) : String :=
  pyotp.provisioningUri secret username appName

end SecureMsg.Auth
