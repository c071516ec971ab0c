/-
# Middleware.Security — `app/middleware/security.py`

An ASGI application is a machine that sends messages and waits for what the server
gives back, an event or the outcome of the sending.  The middleware hands it a
`send` that rewrites the headers of each `http.response.start`: they go through a
dictionary, which keeps one line of a name.

`adds_without_losing_iff`: over every run of every inner application the security
headers are added and nothing else is lost exactly if no response repeats a name
that is none of the middleware's own.
-/
import Mathlib.Data.List.Forall2
import SecureMsg.Theory.Dict
import SecureMsg.Auth.Totp

namespace SecureMsg.Middleware

open SecureMsg.Theory SecureMsg.Store SecureMsg.Auth

set_option autoImplicit false

/-! ## ASGI -/

/-- A name and a value. -/
abbrev Header := Bytes × Bytes

structure Scope (γ : Type) where
  type : String
  rest : γ

/-- `headers` is `none` where the message has no such key; the other keys are `rest`. -/
structure Message (β : Type) where
  type : String
  headers : Option (List Header) := none
  rest : β

inductive Action (β ρ σ : Type) where
  | ended
  | send (message : Message β) (next : ρ → σ)
  | receive (next : ρ → σ)

structure ASGIApp (γ β ρ : Type) where
  State : Type
  start : Scope γ → State
  act : State → Action β ρ State

namespace ASGIApp

variable {γ β ρ : Type}

/-- What is sent from a state on, to a server that replies as listed. -/
def sentFrom (app : ASGIApp γ β ρ) : List ρ → app.State → List (Message β)
  | [], s =>
      match app.act s with
      | .send message _ => [message]
      | _ => []
  | reply :: replies, s =>
      match app.act s with
      | .ended => []
      | .send message next => message :: sentFrom app replies (next reply)
      | .receive next => sentFrom app replies (next reply)

def sent (app : ASGIApp γ β ρ) (scope : Scope γ) (replies : List ρ) : List (Message β) :=
  app.sentFrom replies (app.start scope)

end ASGIApp

/-! ## The middleware -/

/-- `server.time_for_enforced_http` of the configuration. -/
def timeForEnforcedHttpSeconds : Nat := 63072000

def timeForEnforcedHttp : Bytes :=
  encodeText ("max-age=" ++ toString timeForEnforcedHttpSeconds ++ "; includeSubDomains")
def blockFraming : Bytes := encodeText "DENY"
def blockContentSniffing : Bytes := encodeText "nosniff"
def allowedContentSources : Bytes := encodeText "default-src 'none'"
def referrerExposure : Bytes := encodeText "no-referrer"

def serverName : Bytes := encodeText "server"

def responseStart : String := "http.response.start"

section Middleware

variable {γ β ρ : Type}

/-- The headers of a response as `send_with_headers` rebuilds them. -/
def withHeaders (headers : List Header) : Dict Bytes Bytes :=
  let headers := Dict.ofPairs headers
  let headers := headers.set (encodeText "strict-transport-security") timeForEnforcedHttp
  let headers := headers.set (encodeText "x-frame-options") blockFraming
  let headers := headers.set (encodeText "x-content-type-options") blockContentSniffing
  let headers := headers.set (encodeText "content-security-policy") allowedContentSources
  let headers := headers.set (encodeText "referrer-policy") referrerExposure
  headers.erase serverName

/-- What `send_with_headers` sends on. -/
def sendWithHeaders (message : Message β) : Message β :=
  if message.type = responseStart then
    { message with headers := some (withHeaders (message.headers.getD [])).entries }
  else message

/-- The state says beside the application's whether the scope is one of HTTP. -/
def securityHeadersMiddleware (app : ASGIApp γ β ρ) : ASGIApp γ β ρ where
  State := Bool × app.State
  start scope := (scope.type = "http", app.start scope)
  act := fun (isHttp, s) =>
    match app.act s with
    | .ended => .ended
    | .send message next =>
        .send (if isHttp then sendWithHeaders message else message) fun reply => (isHttp, next reply)
    | .receive next => .receive fun reply => (isHttp, next reply)

/-- The security headers as configured. -/
def securityHeaders : List Header :=
  [(encodeText "strict-transport-security", timeForEnforcedHttp),
    (encodeText "x-frame-options", blockFraming),
    (encodeText "x-content-type-options", blockContentSniffing),
    (encodeText "content-security-policy", allowedContentSources),
    (encodeText "referrer-policy", referrerExposure)]

/-- A name the middleware neither sets nor removes. -/
def isOther (name : Bytes) : Bool := name ∉ securityHeaders.map Prod.fst && name ≠ serverName

/-- The response carries each security header once, no `server`, and every other line
in order, as often as before. -/
structure Secured (message message' : Message β) : Prop where
  type : message'.type = message.type
  rest : message'.rest = message.rest
  secured : ∀ header ∈ securityHeaders,
    (message'.headers.getD []).filter (fun line => line.1 = header.1) = [header]
  noServer : ∀ line ∈ message'.headers.getD [], line.1 ≠ serverName
  others : (message'.headers.getD []).filter (fun line => isOther line.1) =
    (message.headers.getD []).filter fun line => isOther line.1

/-- How a message is to be passed on. -/
def Passed (message message' : Message β) : Prop :=
  if message.type = responseStart then Secured message message' else message' = message

/-- What the application sends and what is sent on, message by message. -/
def AddsWithoutLosing (app : ASGIApp γ β ρ) (scope : Scope γ) (replies : List ρ) : Prop :=
  List.Forall₂ Passed (app.sent scope replies) ((securityHeadersMiddleware app).sent scope replies)

/-- No two lines of one name, the middleware's own names apart. -/
def NoneRepeated (headers : List Header) : Prop :=
  ((headers.filter fun line => isOther line.1).map Prod.fst).Nodup

/-! ## One response -/

theorem securityHeaders_distinct : (securityHeaders.map Prod.fst).Nodup := by decide +kernel

theorem server_not_set : serverName ∉ securityHeaders.map Prod.fst := by decide +kernel

/-- The source's statements are one loop over the table. -/
theorem withHeaders_eq (headers : List Header) :
    withHeaders headers = ((Dict.ofPairs headers).setAll securityHeaders).erase serverName := by
  simp only [withHeaders, securityHeaders, Dict.setAll, List.foldl_cons, List.foldl_nil]

theorem withHeaders_secured {headers : List Header} {header : Header}
    (listed : header ∈ securityHeaders) :
    (withHeaders headers).entries.filter (fun line => line.1 = header.1) = [header] := by
  refine Dict.entries_filter_key (x := header.2) ?_
  rw [withHeaders_eq, Dict.erase, Dict.get?_filter_some, decide_eq_true_eq]
  refine ⟨Dict.get?_setAll _ securityHeaders_distinct listed, ?_⟩
  rintro same
  exact server_not_set (same ▸ List.mem_map_of_mem listed)

theorem withHeaders_noServer {headers : List Header} {line : Header}
    (listed : line ∈ (withHeaders headers).entries) : line.1 ≠ serverName := by
  rw [withHeaders_eq] at listed
  exact Dict.ne_of_mem_erase listed

theorem not_isOther_of_set {name : Bytes} (isSet : name ∈ securityHeaders.map Prod.fst) :
    isOther name = false := by
  rw [isOther, decide_eq_false (not_not.mpr isSet), Bool.false_and]

theorem not_isOther_serverName : isOther serverName = false := by
  rw [isOther, decide_eq_false (not_not.mpr (rfl : serverName = serverName)), Bool.and_false]

/-- The other lines are those of a dictionary. -/
theorem withHeaders_others (headers : List Header) : (withHeaders headers).restrict isOther =
    Dict.ofPairs (headers.filter fun line => isOther line.1) := by
  rw [withHeaders_eq, Dict.restrict_erase_of_not _ not_isOther_serverName,
    Dict.restrict_setAll_of_not _ fun header listed => not_isOther_of_set (List.mem_map_of_mem listed),
    Dict.restrict_ofPairs]

/-- **One response** is secured, and keeps its other lines if none repeats a name. -/
theorem secured_iff (message : Message β) (headers : List Header)
    (isHeaders : message.headers.getD [] = headers) :
    Secured message { message with headers := some (withHeaders headers).entries } ↔
      NoneRepeated headers := by
  have others : (withHeaders headers).entries.filter (fun line => isOther line.1) =
      (Dict.ofPairs (headers.filter fun line => isOther line.1)).entries := by
    rw [← Dict.entries_restrict, withHeaders_others]
  rw [NoneRepeated, ← Dict.ofPairs_entries, ← others]
  constructor
  · intro secured
    have same := secured.others
    rwa [Option.getD_some, isHeaders] at same
  · intro same
    refine ⟨rfl, rfl, ?_, ?_, ?_⟩
    · intro header listed
      rw [Option.getD_some]
      exact withHeaders_secured listed
    · intro line listed
      rw [Option.getD_some] at listed
      exact withHeaders_noServer listed
    · rw [Option.getD_some, isHeaders]
      exact same

theorem passed_iff (message : Message β) : Passed message (sendWithHeaders message) ↔
    (message.type = responseStart → NoneRepeated (message.headers.getD [])) := by
  unfold Passed sendWithHeaders
  by_cases start : message.type = responseStart
  · rw [if_pos start, if_pos start, forall_prop_of_true start]
    exact secured_iff message _ rfl
  · rw [if_neg start, if_neg start]
    exact iff_of_true rfl fun isStart => absurd isStart start

/-! ## Every run -/

theorem sentFrom_middleware (app : ASGIApp γ β ρ) (isHttp : Bool) (replies : List ρ) (s : app.State) :
    (securityHeadersMiddleware app).sentFrom replies (isHttp, s) =
      (app.sentFrom replies s).map fun message =>
        if isHttp then sendWithHeaders message else message := by
  induction replies generalizing s with
  | nil =>
      simp only [ASGIApp.sentFrom, securityHeadersMiddleware]
      cases app.act s with
      | ended => rfl
      | send message next => rfl
      | receive next => rfl
  | cons reply replies ih =>
      simp only [ASGIApp.sentFrom, securityHeadersMiddleware]
      cases app.act s with
      | ended => rfl
      | send message next => exact congrArg _ (ih (next reply))
      | receive next => exact ih (next reply)

theorem sent_middleware (app : ASGIApp γ β ρ) {scope : Scope γ} (http : scope.type = "http")
    (replies : List ρ) : (securityHeadersMiddleware app).sent scope replies =
      (app.sent scope replies).map sendWithHeaders := by
  have isHttp : decide (scope.type = "http") = true := decide_eq_true http
  have run := sentFrom_middleware app true replies (app.start scope)
  simpa only [ASGIApp.sent, securityHeadersMiddleware, isHttp, if_true] using run

/-- A connection of another type is handed through. -/
theorem sent_middleware_other (app : ASGIApp γ β ρ) {scope : Scope γ} (other : scope.type ≠ "http")
    (replies : List ρ) :
    (securityHeadersMiddleware app).sent scope replies = app.sent scope replies := by
  have notHttp : decide (scope.type = "http") = false := decide_eq_false other
  have run := sentFrom_middleware app false replies (app.start scope)
  simpa [ASGIApp.sent, securityHeadersMiddleware, notHttp] using run

theorem addsWithoutLosing_iff_passed (app : ASGIApp γ β ρ) {scope : Scope γ}
    (http : scope.type = "http") (replies : List ρ) : AddsWithoutLosing app scope replies ↔
      ∀ message ∈ app.sent scope replies, Passed message (sendWithHeaders message) := by
  rw [AddsWithoutLosing, sent_middleware app http, List.forall₂_map_right_iff, List.forall₂_same]

/-- **The middleware adds without losing** exactly if no response of the application
repeats a name that is none of the middleware's. -/
theorem adds_without_losing_iff (app : ASGIApp γ β ρ) {scope : Scope γ} (http : scope.type = "http")
    (replies : List ρ) : AddsWithoutLosing app scope replies ↔
      ∀ message ∈ app.sent scope replies,
        message.type = responseStart → NoneRepeated (message.headers.getD []) := by
  rw [addsWithoutLosing_iff_passed app http]
  simp only [passed_iff]

end Middleware

/-! ## Two cookies -/

/-- An application that answers every request alike. -/
def constantApp (headers : List Header) : ASGIApp Unit Bytes Unit where
  State := Nat
  start _ := 0
  act
    | 0 => .send ⟨responseStart, some headers, []⟩ fun _ => 1
    | 1 => .send ⟨"http.response.body", none, encodeText "ok"⟩ fun _ => 2
    | _ => .ended

def twoCookies : List Header :=
  [(encodeText "set-cookie", encodeText "a=1"), (encodeText "server", encodeText "uvicorn"),
    (encodeText "set-cookie", encodeText "b=2")]

theorem adds_without_losing_iff_twoCookies :
    AddsWithoutLosing (constantApp twoCookies) ⟨"http", ()⟩ [(), ()] ↔
      ∀ message ∈ (constantApp twoCookies).sent ⟨"http", ()⟩ [(), ()],
        message.type = responseStart → NoneRepeated (message.headers.getD []) :=
  adds_without_losing_iff (constantApp twoCookies) rfl [(), ()]

/-- The first cookie is lost. -/
theorem cookie_lost : ¬ AddsWithoutLosing (constantApp twoCookies) ⟨"http", ()⟩ [(), ()] := by
  intro adds
  rw [addsWithoutLosing_iff_passed _ rfl] at adds
  have repeated : ¬ NoneRepeated twoCookies := by
    unfold NoneRepeated
    decide +kernel
  have sent : ⟨responseStart, some twoCookies, []⟩ ∈
      (constantApp twoCookies).sent ⟨"http", ()⟩ [(), ()] := List.mem_cons_self
  exact repeated ((passed_iff _).mp (adds _ sent) rfl)

end SecureMsg.Middleware
