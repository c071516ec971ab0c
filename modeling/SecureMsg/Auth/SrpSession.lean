/-
# Auth.SrpSession — `app/auth/srp_session.py`

The table of SRP handshakes between `srp-init` and `srp-verify`, in memory, under
random session ids.  A session lives `srp_session_ttl_seconds` on the monotonic
clock and is popped by the first `srp_verify` that names it, whatever comes of
the proof.

The `srp` package is a parameter: a verifier object of type `V` with its verdict.
`srp_verify` is written as a program that consults it, so what it hands to the library
(`proofsChecked`) and what it answers (`srpVerify`) are read off the same code.
`srpInit_ok` is what a challenge means, `srpVerify_ok` an accepted proof.
-/
import SecureMsg.Theory.Consultation
import SecureMsg.Theory.Hex
import SecureMsg.Auth.Tokens

namespace SecureMsg.Auth

open SecureMsg.Theory SecureMsg.Store

set_option autoImplicit false

/-- `srp.Verifier` objects.  The last argument of `verifier` is the secret the
constructor draws; `getChallenge` is `none` where it gives `(None, None)`. -/
structure SrpLib (V : Type) where
  verifier : (username : String) → (salt verifier clientPublic secret : Bytes) → V
  getChallenge : V → Option (Bytes × Bytes)
  /-- The server proof, or `None`, and the object afterwards. -/
  verifySession : V → (clientProof : Bytes) → Option Bytes × V
  authenticated : V → Bool

structure SRPSession (V : Type) where
  username : String
  verifier : V
  expiresAt : Rat
  deriving DecidableEq

abbrev Sessions (V : Type) := Dict String (SRPSession V)

def srpSessionTtlSeconds : Rat := 120

variable {V : Type}

/-- `now` is what `time.monotonic()` reads. -/
def purgeExpired (sessions : Sessions V) (now : Rat) : Sessions V :=
  sessions.filter fun e => !decide (e.2.expiresAt < now)

/-- What one call of `srp_init` or `srp_verify` reads from outside: the clock in
`_purge_expired` and after it, and what is drawn. -/
structure SrpReading where
  purgedAt : Rat := 0
  readAt : Rat := 0
  sessionId : String := ""
  secret : Bytes := []

def notHexadecimal : Raised := .valueError "non-hexadecimal number found in fromhex() arg"

/-- The session is stored before the challenge is written as hex, which raises
where the library gave no challenge. -/
def srpInit (srp : SrpLib V) (reading : SrpReading) (sessions : Sessions V)
    (username srpSaltHex srpVerifierHex clientPublicHex : String) :
    Sessions V × Except Raised (String × String × String) :=
  let sessions := purgeExpired sessions reading.purgedAt
  match fromHex srpSaltHex, fromHex srpVerifierHex, fromHex clientPublicHex with
  | some salt, some verifier, some clientPublic =>
      let verifierSrp := srp.verifier username salt verifier clientPublic reading.secret
      let sessions := sessions.set reading.sessionId
        ⟨username, verifierSrp, reading.readAt + srpSessionTtlSeconds⟩
      match srp.getChallenge verifierSrp with
      | some (challengeSalt, serverPublic) =>
          (sessions, .ok (reading.sessionId, toHex challengeSalt, toHex serverPublic))
      | none => (sessions, .error (.attributeError "'NoneType' object has no attribute 'hex'"))
  | _, _, _ => (sessions, .error notHexadecimal)

/-- A challenge is answered from a session with the verifier that was handed in. -/
theorem srpInit_ok {srp : SrpLib V} {reading : SrpReading} {sessions : Sessions V}
    {username srpSaltHex clientPublicHex sessionId challengeSalt serverPublic : String}
    {srpVerifier : Bytes}
    (opened : (srpInit srp reading sessions username srpSaltHex (toHex srpVerifier)
      clientPublicHex).2 = .ok (sessionId, challengeSalt, serverPublic)) :
    ∃ salt clientPublic, fromHex srpSaltHex = some salt ∧
      fromHex clientPublicHex = some clientPublic ∧
      (srpInit srp reading sessions username srpSaltHex (toHex srpVerifier) clientPublicHex).1 =
        (purgeExpired sessions reading.purgedAt).set sessionId
          ⟨username, srp.verifier username salt srpVerifier clientPublic reading.secret,
            reading.readAt + srpSessionTtlSeconds⟩ := by
  unfold srpInit at opened ⊢
  rw [fromHex_toHex] at opened ⊢
  cases isSalt : fromHex srpSaltHex with
  | none =>
      rw [isSalt] at opened
      cases opened
  | some salt =>
      cases isPublic : fromHex clientPublicHex with
      | none =>
          rw [isSalt, isPublic] at opened
          cases opened
      | some clientPublic =>
          rw [isSalt, isPublic] at opened
          refine ⟨salt, clientPublic, rfl, rfl, ?_⟩
          dsimp only at opened ⊢
          cases challenge : srp.getChallenge
              (srp.verifier username salt srpVerifier clientPublic reading.secret) with
          | none =>
              rw [challenge] at opened
              cases opened
          | some pair =>
              rw [challenge] at opened
              cases opened
              rfl

/-- The table after `srp_init`: the new session is in it where the texts are hexadecimal,
challenge or not. -/
theorem srpInit_fst (srp : SrpLib V) (reading : SrpReading) (sessions : Sessions V)
    (username srpSaltHex clientPublicHex : String) (srpVerifier : Bytes) :
    (srpInit srp reading sessions username srpSaltHex (toHex srpVerifier) clientPublicHex).1 =
      match fromHex srpSaltHex, fromHex clientPublicHex with
      | some salt, some clientPublic =>
          (purgeExpired sessions reading.purgedAt).set reading.sessionId
            ⟨username, srp.verifier username salt srpVerifier clientPublic reading.secret,
              reading.readAt + srpSessionTtlSeconds⟩
      | _, _ => purgeExpired sessions reading.purgedAt := by
  unfold srpInit
  rw [fromHex_toHex]
  cases fromHex srpSaltHex with
  | none => rfl
  | some salt =>
      cases fromHex clientPublicHex with
      | none => rfl
      | some clientPublic =>
          dsimp only
          split
          · rfl
          · rfl

theorem purgeExpired_some {sessions : Sessions V} {now : Rat} {sessionId : String}
    {entry : SRPSession V} :
    (purgeExpired sessions now).get? sessionId = some entry ↔
      sessions.get? sessionId = some entry ∧ now ≤ entry.expiresAt := by
  rw [purgeExpired, Dict.get?_filter_some, Bool.not_eq_true', decide_eq_false_iff_not, Rat.not_lt]

/-- `verifier.verify_session(client_proof)` -/
def SrpLib.verdict (srp : SrpLib V) (question : V × Bytes) : Option Bytes × V :=
  srp.verifySession question.1 question.2

abbrev Verifying (V : Type) :=
  Consulting (V × Bytes) (Option Bytes × V) (Except Raised (String × String))

/-- What becomes of the library's answer. -/
def judgeProof (srp : SrpLib V) (entry : SRPSession V) : Option Bytes × V → Verifying V
  | (some serverProof, verifier) =>
      .done (if srp.authenticated verifier then .ok (entry.username, toHex serverProof)
        else .error (.valueError "SRP client proof invalid"))
  | (none, _) => .done (.error (.valueError "SRP client proof invalid"))

/-- The check of a popped session's proof. -/
def checkProof (srp : SrpLib V) (reading : SrpReading) (entry : SRPSession V)
    (clientProofHex : String) : Verifying V :=
  if entry.expiresAt < reading.readAt then
    .done (.error (.valueError "SRP session not found or expired"))
  else
    match fromHex clientProofHex with
    | none => .done (.error notHexadecimal)
    | some clientProof => .ask (entry.verifier, clientProof) (judgeProof srp entry)

/-- The table after `srp_verify`, and what is left to do. -/
def popSession (srp : SrpLib V) (reading : SrpReading) (sessions : Sessions V)
    (sessionId clientProofHex : String) : Sessions V × Verifying V :=
  let sessions := purgeExpired sessions reading.purgedAt
  match sessions.get? sessionId with
  | none => (sessions, .done (.error (.valueError "SRP session not found or expired")))
  | some entry => (sessions.erase sessionId, checkProof srp reading entry clientProofHex)

def srpVerify (srp : SrpLib V) (reading : SrpReading) (sessions : Sessions V)
    (sessionId clientProofHex : String) : Sessions V × Except Raised (String × String) :=
  let popped := popSession srp reading sessions sessionId clientProofHex
  (popped.1, popped.2.result srp.verdict)

/-- The proofs that `srp_verify` hands to the library, each with the verifier it is for. -/
def proofsChecked (srp : SrpLib V) (reading : SrpReading) (sessions : Sessions V)
    (sessionId clientProofHex : String) : List (V × Bytes) :=
  (popSession srp reading sessions sessionId clientProofHex).2.asked srp.verdict

theorem popSession_found {srp : SrpLib V} {reading : SrpReading} {sessions : Sessions V}
    {sessionId clientProofHex : String} {entry : SRPSession V}
    (found : (purgeExpired sessions reading.purgedAt).get? sessionId = some entry) :
    popSession srp reading sessions sessionId clientProofHex =
      ((purgeExpired sessions reading.purgedAt).erase sessionId,
        checkProof srp reading entry clientProofHex) := by
  rw [popSession, found]

theorem popSession_missing {srp : SrpLib V} {reading : SrpReading} {sessions : Sessions V}
    {sessionId clientProofHex : String}
    (missing : (purgeExpired sessions reading.purgedAt).get? sessionId = none) :
    popSession srp reading sessions sessionId clientProofHex =
      (purgeExpired sessions reading.purgedAt,
        .done (.error (.valueError "SRP session not found or expired"))) := by
  rw [popSession, missing]

@[simp] theorem judgeProof_asked (srp : SrpLib V) (entry : SRPSession V)
    (answer : Option Bytes × V) : (judgeProof srp entry answer).asked srp.verdict = [] := by
  obtain ⟨serverProof, verifier⟩ := answer
  cases serverProof with
  | none => rfl
  | some serverProof => rfl

/-- The library is asked once at most, for the session's own verifier and before it expires. -/
theorem checkProof_asked (srp : SrpLib V) (reading : SrpReading) (entry : SRPSession V)
    (clientProofHex : String) :
    (checkProof srp reading entry clientProofHex).asked srp.verdict = [] ∨
      ∃ clientProof, reading.readAt ≤ entry.expiresAt ∧
        (checkProof srp reading entry clientProofHex).asked srp.verdict =
          [(entry.verifier, clientProof)] := by
  unfold checkProof
  by_cases late : entry.expiresAt < reading.readAt
  · rw [if_pos late]
    exact Or.inl rfl
  · rw [if_neg late]
    cases fromHex clientProofHex with
    | none => exact Or.inl rfl
    | some clientProof =>
        refine Or.inr ⟨clientProof, Rat.not_lt.mp late, ?_⟩
        dsimp only
        rw [Consulting.asked_ask, judgeProof_asked]

/-- What `srp_verify` asks, for the session that was stored. -/
theorem proofsChecked_cases (srp : SrpLib V) (reading : SrpReading) (sessions : Sessions V)
    (sessionId clientProofHex : String) :
    proofsChecked srp reading sessions sessionId clientProofHex = [] ∨
      ∃ entry clientProof, sessions.get? sessionId = some entry ∧
        reading.readAt ≤ entry.expiresAt ∧
        proofsChecked srp reading sessions sessionId clientProofHex =
          [(entry.verifier, clientProof)] := by
  unfold proofsChecked
  cases found : (purgeExpired sessions reading.purgedAt).get? sessionId with
  | none =>
      rw [popSession_missing found]
      exact Or.inl rfl
  | some entry =>
      rw [popSession_found found]
      rcases checkProof_asked srp reading entry clientProofHex with
        nothing | ⟨clientProof, inTime, asked⟩
      · exact Or.inl nothing
      · exact Or.inr ⟨entry, clientProof, (purgeExpired_some.mp found).1, inTime, asked⟩

/-- Where nothing is asked, any other library gives the same outcome. -/
theorem srpVerify_unchecked {srp : SrpLib V} (srp' : SrpLib V) {reading : SrpReading}
    {sessions : Sessions V} {sessionId clientProofHex : String}
    (nothing : proofsChecked srp reading sessions sessionId clientProofHex = []) :
    srpVerify srp' reading sessions sessionId clientProofHex =
      srpVerify srp reading sessions sessionId clientProofHex := by
  unfold proofsChecked at nothing
  unfold srpVerify
  cases found : (purgeExpired sessions reading.purgedAt).get? sessionId with
  | none =>
      rw [popSession_missing found, popSession_missing found]
      rfl
  | some entry =>
      rw [popSession_found found] at nothing
      rw [popSession_found found, popSession_found found]
      unfold checkProof at nothing ⊢
      by_cases late : entry.expiresAt < reading.readAt
      · rw [if_pos late, if_pos late]
        rfl
      · rw [if_neg late] at nothing
        rw [if_neg late, if_neg late]
        cases isHex : fromHex clientProofHex with
        | none => rfl
        | some clientProof =>
            rw [isHex] at nothing
            cases nothing

/-- The library accepts the proof against the session's verifier. -/
def ProofAccepted (srp : SrpLib V) (entry : SRPSession V) (clientProofHex : String) : Prop :=
  ∃ clientProof serverProof verifier, fromHex clientProofHex = some clientProof ∧
    srp.verifySession entry.verifier clientProof = (some serverProof, verifier) ∧
    srp.authenticated verifier = true

theorem checkProof_ok {srp : SrpLib V} {reading : SrpReading} {entry : SRPSession V}
    {clientProofHex username serverProof : String}
    (accepted : (checkProof srp reading entry clientProofHex).result srp.verdict =
      .ok (username, serverProof)) :
    username = entry.username ∧ reading.readAt ≤ entry.expiresAt ∧
      ProofAccepted srp entry clientProofHex := by
  unfold checkProof at accepted
  by_cases late : entry.expiresAt < reading.readAt
  · rw [if_pos late] at accepted
    cases accepted
  · rw [if_neg late] at accepted
    cases isHex : fromHex clientProofHex with
    | none =>
        rw [isHex] at accepted
        cases accepted
    | some clientProof =>
        rw [isHex] at accepted
        dsimp only [Consulting.result_ask, SrpLib.verdict] at accepted
        match verdict : srp.verifySession entry.verifier clientProof with
        | (none, _) =>
            rw [verdict] at accepted
            cases accepted
        | (some proof, verifier) =>
            rw [verdict] at accepted
            dsimp only [judgeProof, Consulting.result_done] at accepted
            by_cases authentic : srp.authenticated verifier = true
            · rw [if_pos authentic] at accepted
              cases accepted
              exact ⟨rfl, Rat.not_lt.mp late, clientProof, proof, verifier, isHex, verdict, authentic⟩
            · rw [if_neg authentic] at accepted
              cases accepted

theorem checkProof_accepts {srp : SrpLib V} {reading : SrpReading} {entry : SRPSession V}
    {clientProofHex : String} (inTime : reading.readAt ≤ entry.expiresAt)
    (accepted : ProofAccepted srp entry clientProofHex) :
    ∃ serverProof, (checkProof srp reading entry clientProofHex).result srp.verdict =
      .ok (entry.username, serverProof) := by
  obtain ⟨clientProof, serverProof, verifier, isHex, verdict, authentic⟩ := accepted
  refine ⟨toHex serverProof, ?_⟩
  rw [checkProof, if_neg (Rat.not_lt.mpr inTime), isHex]
  dsimp only [Consulting.result_ask, SrpLib.verdict]
  rw [verdict]
  exact if_pos authentic

/-- The session is neither purged nor found expired. -/
def Live (reading : SrpReading) (entry : SRPSession V) : Prop :=
  reading.purgedAt ≤ entry.expiresAt ∧ reading.readAt ≤ entry.expiresAt

instance (reading : SrpReading) (entry : SRPSession V) : Decidable (Live reading entry) :=
  inferInstanceAs (Decidable (_ ∧ _))

/-- **An accepted proof** was made for a stored session that has not expired. -/
theorem srpVerify_ok {srp : SrpLib V} {reading : SrpReading} {sessions : Sessions V}
    {sessionId clientProofHex username serverProof : String}
    (accepted : (srpVerify srp reading sessions sessionId clientProofHex).2 =
      .ok (username, serverProof)) :
    ∃ entry, sessions.get? sessionId = some entry ∧ username = entry.username ∧
      Live reading entry ∧ ProofAccepted srp entry clientProofHex := by
  cases found : (purgeExpired sessions reading.purgedAt).get? sessionId with
  | none =>
      rw [srpVerify, popSession_missing found] at accepted
      cases accepted
  | some entry =>
      rw [srpVerify, popSession_found found] at accepted
      obtain ⟨sameName, inTime, proof⟩ := checkProof_ok accepted
      obtain ⟨stored, notPurged⟩ := purgeExpired_some.mp found
      exact ⟨entry, stored, sameName, ⟨notPurged, inTime⟩, proof⟩

theorem srpVerify_accepts {srp : SrpLib V} {reading : SrpReading} {sessions : Sessions V}
    {sessionId clientProofHex : String} {entry : SRPSession V}
    (stored : sessions.get? sessionId = some entry) (live : Live reading entry)
    (accepted : ProofAccepted srp entry clientProofHex) :
    ∃ serverProof, (srpVerify srp reading sessions sessionId clientProofHex).2 =
      .ok (entry.username, serverProof) := by
  rw [srpVerify, popSession_found (purgeExpired_some.mpr ⟨stored, live.1⟩)]
  exact checkProof_accepts live.2 accepted

/-- Verifying opens no session. -/
theorem srpVerify_session {srp : SrpLib V} {reading : SrpReading} {sessions : Sessions V}
    {sessionId sessionId' clientProofHex : String} {entry : SRPSession V}
    (stored : (srpVerify srp reading sessions sessionId clientProofHex).1.get? sessionId' =
      some entry) : sessions.get? sessionId' = some entry := by
  cases found : (purgeExpired sessions reading.purgedAt).get? sessionId with
  | none =>
      rw [srpVerify, popSession_missing found] at stored
      exact (purgeExpired_some.mp stored).1
  | some popped =>
      rw [srpVerify, popSession_found found] at stored
      exact (purgeExpired_some.mp (Dict.get?_filter_some.mp stored).1).1

end SecureMsg.Auth
