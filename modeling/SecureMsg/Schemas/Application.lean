/-
# Schemas.Application — the application over bodies as they are sent

The framework resolves the dependencies of a request and validates its body; a
dependency that raises answers first, an objection of the schema answers 422, and
neither is seen by the limiter or the endpoint.

`run_accepted`: the validated application is the application of `App.Service` on
the requests whose bodies are accepted.  Every result about all runs of the one
holds of the runs of the other.
-/
import SecureMsg.Schemas.Bodies
import SecureMsg.App.Calls
import SecureMsg.Auth.Login

namespace SecureMsg.Schemas

open SecureMsg.Theory SecureMsg.Store SecureMsg.Repository

set_option autoImplicit false

/-! ## Requests and responses -/

def isAuthorized : App.Request → Bool
  | .authorized _ _ => true
  | _ => false

inductive Request where
  | login (request : App.Request) (unauthorized : isAuthorized request = false)
  | authorized (credentials : String) (sent : Sent)

structure Step where
  request : Request
  reading : Auth.Reading := {}
  /-- The limit that is exceeded when the endpoint function is called. -/
  exceeded : Option String := none

/-- The text of the message a request brings. -/
def Step.ciphertext? (s : Step) : Option String :=
  match s.request with
  | .login _ _ => none
  | .authorized _ sent => sent.ciphertext?

/-- The request with its body validated and decoded. -/
def Step.accepted (s : Step) : Except Invalid App.Step :=
  match s.request with
  | .login request _ => .ok ⟨request, s.reading, s.exceeded⟩
  | .authorized credentials sent => do
      let request ← accept sent
      return ⟨.authorized credentials request, s.reading, s.exceeded⟩

inductive Response (lib : Auth.TokenLib) where
  | served (response : App.Response lib)
  /-- Status 422. -/
  | unprocessable (invalid : Invalid)

/-- A `KeyBundleResponse` as it is sent. -/
structure KeyBundleResponse where
  identityPub : String
  signedPrekeyPub : String
  signedPrekeySig : String
  oneTimePrekey : Option String
  pqPrekeyPub : String
  pqPrekeySig : String
  deriving DecidableEq

/-- `base64.b64encode(...).decode()` of every field. -/
def encodeBundle (bundle : Api.KeyBundleResponse) : KeyBundleResponse where
  identityPub := b64encode bundle.identityPub
  signedPrekeyPub := b64encode bundle.signedPrekeyPub
  signedPrekeySig := b64encode bundle.signedPrekeySig
  oneTimePrekey := bundle.oneTimePrekey.map b64encode
  pqPrekeyPub := b64encode bundle.pqPrekeyPub
  pqPrekeySig := b64encode bundle.pqPrekeySig

/-! ## Serving -/

section Serve

variable {V : Type} (libs : Auth.Libraries V)

/-- The answer to a body the schema objects to: a dependency that raises comes first. -/
def refuse (db : Database) (now : Rat) (credentials : String) (sent : Sent) (invalid : Invalid) :
    Response libs.toTokenLib :=
  match Auth.getCurrentUser libs.toTokenLib db now credentials with
  | .error response => .served (.login response)
  | .ok currentUser =>
      match sent.groupId? with
      | none => .unprocessable invalid
      | some groupId =>
          match Api.requireGroupMember .fresh db groupId currentUser with
          | .error response => .served (.account response)
          | .ok _ => .unprocessable invalid

def serve (st : Auth.State V) (s : Step) : Auth.State V × Response libs.toTokenLib :=
  match s.request with
  | .login request _ => (App.serve libs st ⟨request, s.reading, s.exceeded⟩).map id .served
  | .authorized credentials sent =>
      match accept sent with
      | .ok request =>
          (App.serve libs st ⟨.authorized credentials request, s.reading, s.exceeded⟩).map id .served
      | .error invalid => (st, refuse libs st.db s.reading.decodedAt credentials sent invalid)

/-- The application from an empty database and no handshake. -/
def application : System (Auth.State V) Step := ⟨{}, fun st s => (serve libs st s).1⟩

def respond (earlier : List Step) (s : Step) : Response libs.toTokenLib :=
  (serve libs ((application libs).run earlier) s).2

end Serve

/-! ## The application behind the validation -/

section Accepted

variable {V : Type} {libs : Auth.Libraries V} {st : Auth.State V} {s : Step}

theorem serve_accepted {step : App.Step} (accepted : s.accepted = .ok step) :
    serve libs st s = (App.serve libs st step).map id .served := by
  obtain ⟨request, reading, exceeded⟩ := s
  cases request with
  | login request unauthorized =>
      cases accepted
      rfl
  | authorized credentials sent =>
      obtain ⟨request, isAccepted, returned⟩ := bind_eq_ok.mp accepted
      cases returned
      simp only [serve, isAccepted]

theorem serve_accepted_fst {step : App.Step} (accepted : s.accepted = .ok step) :
    (serve libs st s).1 = (App.serve libs st step).1 := by
  rw [serve_accepted accepted]
  rfl

/-- A refused body changes nothing. -/
theorem serve_refused {invalid : Invalid} (refused : s.accepted = .error invalid) :
    (serve libs st s).1 = st := by
  obtain ⟨request, reading, exceeded⟩ := s
  cases request with
  | login request unauthorized => cases refused
  | authorized credentials sent =>
      rcases bind_eq_error.mp refused with isRefused | ⟨request, -, returned⟩
      · simp only [serve, isRefused]
      · cases returned

/-- The accepted requests of a run. -/
def acceptedSteps (steps : List Step) : List App.Step :=
  steps.filterMap fun s => s.accepted.toOption

theorem acceptedSteps_snoc (steps : List Step) (s : Step) :
    acceptedSteps (steps ++ [s]) = acceptedSteps steps ++ s.accepted.toOption.toList := by
  unfold acceptedSteps
  rw [List.filterMap_append]
  cases accepted : s.accepted with
  | ok step => simp [accepted, Except.toOption]
  | error invalid => simp [accepted, Except.toOption]

/-- **Refinement**: a run is a run of the application on the accepted requests. -/
theorem run_accepted (libs : Auth.Libraries V) (steps : List Step) :
    (application libs).run steps = (App.application libs).run (acceptedSteps steps) := by
  induction steps using List.reverseRecOn with
  | nil => rfl
  | append_singleton steps s ih =>
      rw [System.run_snoc, acceptedSteps_snoc]
      show (serve libs ((application libs).run steps) s).1 = _
      cases accepted : s.accepted with
      | error invalid =>
          rw [serve_refused accepted, ih]
          exact congrArg _ (List.append_nil _).symm
      | ok step =>
          rw [serve_accepted_fst accepted, ih]
          exact ((App.application libs).run_snoc (acceptedSteps steps) step).symm

theorem application_sound (libs : Auth.Libraries V) (steps : List Step) :
    Sound ((application libs).run steps).db := by
  rw [run_accepted]
  exact App.application_keeps libs (fun _ _ _ done sound => sound.perform done) sound_empty _

end Accepted

/-! ## A login, for other runs -/

def adaLibs : Auth.Libraries Bool where
  toTokenLib := Auth.recordingLib [Auth.preAuthPayload, Auth.accessPayload] Auth.sampleDigest
  srp := Auth.loginLibs.srp
  aead := Auth.loginLibs.aead
  pyotp := Auth.loginLibs.pyotp

/-- Ada registers and logs in with both factors. -/
def adaLogsIn : List Step :=
  [⟨.login (.register ⟨Auth.ada, Auth.adaSalt, Auth.adaVerifier⟩) rfl, Auth.adaDraws, none⟩,
    ⟨.login (.srpInit ⟨Auth.ada, Auth.adaPublic⟩) rfl,
      { srp := { readAt := 5, sessionId := "s1" } }, none⟩,
    ⟨.login (.srpVerify ⟨"s1", Auth.adaProof⟩) rfl,
      { issuedAt := 10, jti := "a1", srp := { purgedAt := 6, readAt := 6 } }, none⟩,
    ⟨.login (.verify2fa ⟨Auth.adaCode, Auth.payloadText Auth.preAuthPayload⟩) rfl,
      { decodedAt := 19, issuedAt := 20, refreshIssuedAt := 20, jti := "b2" }, none⟩]

/-- Her access token. -/
def adaToken : String := Auth.payloadText Auth.accessPayload

end SecureMsg.Schemas
