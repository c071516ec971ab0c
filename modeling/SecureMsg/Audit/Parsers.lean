/-
# Audit.Parsers — the two log parsers of `app/audit_watcher.py`

An auditd line is searched with three regular expressions; a vault line is JSON,
of which three members are read with `.get`.  Either parser returns an event,
`None` for a line that is not watched, or raises: `parser_raises_iff` says for
which lines.

What a parser depends on beside its line is a `Host`: the character table, the
interpreter's recursion limit, and what `/proc/<pid>/comm` reads at the time.
-/
import SecureMsg.Theory.Dict
import SecureMsg.Theory.Rows
import SecureMsg.Theory.Json
import SecureMsg.Theory.Pattern

namespace SecureMsg.Audit

open SecureMsg.Theory

set_option autoImplicit false

/-! ## Configuration -/

/-- `audit.vault_watch_path` of the configuration. -/
def vaultWatchPath : String := "secret/data/securemsg/prod"

/-- `audit.auditd_key_map` of the configuration. -/
def auditdKeyMap : Dict String String where
  entries :=
    [("canary_read", "/home/student/CyberSec-Backend/.env"),
      ("vault_credentials_read", "/etc/securemsg/vault-credentials")]
  distinct := by decide

/-- `key="([^"]+)"` -/
def auditdKeyPattern : Pattern :=
  literal ['k', 'e', 'y', '=', '"'] ++ [.run fun c => c ≠ '"', .char '"']

/-- `\bpid=(\d+)` -/
def auditdPidPattern (unicode : Unicode) : Pattern :=
  .boundary :: literal ['p', 'i', 'd', '='] ++ [.run unicode.isDecimal]

/-- `\buid=(\d+)` -/
def auditdUidPattern (unicode : Unicode) : Pattern :=
  .boundary :: literal ['u', 'i', 'd', '='] ++ [.run unicode.isDecimal]

/-! ## Events -/

/-- A member of a vault entry can be any JSON value. -/
structure AuditEvent where
  path : String
  principal : Json := .str []
  agent : Json := .str []

inductive Raised where
  | valueError (detail : String)
  /-- The `ValueError` of an integer with too many digits. -/
  | integerTooLong
  | recursionError
  | attributeError (detail : String)
  | unicodeDecodeError

/-- How reading a file as text can fail. -/
inductive ReadError where
  | osError
  | unicodeDecodeError

structure Host where
  unicode : Unicode
  /-- How deep JSON containers can be nested before the interpreter gives up. -/
  maxDepth : Nat
  /-- `Path("/proc/%s/comm" % pid).read_text()` -/
  comm : String → Except ReadError String

/-- A host that knows no process. -/
def bareHost : Host := ⟨.ascii, 100, fun _ => .error .osError⟩

variable (host : Host)

/-! ## Audit records -/

def pidToName (pid : String) : Except Raised String :=
  match host.comm pid with
  | .ok text => .ok (String.ofList (host.unicode.strip text.toList))
  | .error .osError => .ok pid
  | .error .unicodeDecodeError => .error .unicodeDecodeError

/-- `re.search(pattern, line)` and then `group(1)`. -/
def searchGroup (pattern : Pattern) (line : String) : Option String :=
  ((search host.unicode pattern line.toList).bind List.head?).map String.ofList

def parseAuditdEvent (line : String) : Except Raised (Option AuditEvent) :=
  match searchGroup host auditdKeyPattern line with
  | none => .ok none
  | some key =>
      match auditdKeyMap.get? key with
      | none => .ok none
      | some path =>
          match searchGroup host (auditdPidPattern host.unicode) line,
            searchGroup host (auditdUidPattern host.unicode) line with
          | some pid, some uid => do
              let agent ← pidToName host pid
              return some ⟨path, .str (codePoints uid), .str (codePoints agent)⟩
          | _, _ =>
              .error (.valueError ("malformed auditd line: " ++
                String.ofList (host.unicode.rstrip line.toList)))

/-! ## Vault entries -/

def typeName : Json → String
  | .null => "NoneType"
  | .bool _ => "bool"
  | .int _ => "int"
  | .float _ => "float"
  | .str _ => "str"
  | .array _ => "list"
  | .object _ => "dict"

/-- `value.get(key, default)` -/
def getMember (value : Json) (key : String) (default : Json) : Except Raised Json :=
  match value with
  | .object members => .ok ((lookup members key).getD default)
  | other =>
      .error (.attributeError ("'" ++ typeName other ++ "' object has no attribute 'get'"))

/-- `value == text` -/
def isText (text : String) : Json → Bool
  | .str points => points = codePoints text
  | _ => false

def parseVaultEvent (line : String) : Except Raised (Option AuditEvent) :=
  match loads host.maxDepth line.toList with
  | .error .jsonDecodeError => .ok none
  | .error .valueError => .error .integerTooLong
  | .error .recursionError => .error .recursionError
  | .ok entry => do
      let type ← getMember entry "type" .null
      if ¬ isText "request" type then return none
      let request ← getMember entry "request" (.object [])
      let path ← getMember request "path" .null
      if ¬ isText vaultWatchPath path then return none
      let auth ← getMember entry "auth" (.object [])
      let principal ← getMember auth "display_name" (.str [])
      let agent ← getMember auth "accessor" (.str [])
      return some ⟨vaultWatchPath, principal, agent⟩

/-! ## The two sources -/

inductive Source where
  | auditd
  | vault
  deriving DecidableEq, Repr

def parser : Source → String → Except Raised (Option AuditEvent)
  | .auditd => parseAuditdEvent host
  | .vault => parseVaultEvent host

/-! ## The lines a parser raises on -/

/-- A watched key without a pid or uid, or a process name that is no text. -/
structure AuditdRaises (line : String) : Prop where
  watched : ∃ key, searchGroup host auditdKeyPattern line = some key ∧
    key ∈ auditdKeyMap.keys
  malformed : searchGroup host (auditdPidPattern host.unicode) line = none ∨
    searchGroup host (auditdUidPattern host.unicode) line = none ∨
    ∃ pid, searchGroup host (auditdPidPattern host.unicode) line = some pid ∧
      host.comm pid = .error .unicodeDecodeError

/-- The member is there, and is no object. -/
def NoObjectAt (members : List (CodePoints × Json)) (key : String) : Prop :=
  ∃ value, lookup members key = some value ∧ ∀ inner, value ≠ .object inner

/-- The member's text. -/
def HasText (members : List (CodePoints × Json)) (key text : String) : Prop :=
  lookup members key = some (.str (codePoints text))

/-- A text beyond the interpreter's limits, or JSON that is no object where one is
expected. -/
inductive VaultRaises (line : String) : Prop where
  | tooLong (loaded : loads host.maxDepth line.toList = .error .valueError)
  | tooDeep (loaded : loads host.maxDepth line.toList = .error .recursionError)
  | entry (value : Json) (loaded : loads host.maxDepth line.toList = .ok value)
      (noObject : ∀ members, value ≠ .object members)
  | request (members : List (CodePoints × Json))
      (loaded : loads host.maxDepth line.toList = .ok (.object members))
      (isRequest : HasText members "type" "request") (noObject : NoObjectAt members "request")
  | auth (members request : List (CodePoints × Json))
      (loaded : loads host.maxDepth line.toList = .ok (.object members))
      (isRequest : HasText members "type" "request")
      (there : lookup members "request" = some (.object request))
      (watched : HasText request "path" vaultWatchPath) (noObject : NoObjectAt members "auth")

def Raises : Source → String → Prop
  | .auditd => AuditdRaises host
  | .vault => VaultRaises host

variable {host}

theorem pidToName_error {pid : String} :
    (∃ e, pidToName host pid = .error e) ↔ host.comm pid = .error .unicodeDecodeError := by
  unfold pidToName
  cases host.comm pid with
  | ok text => simp
  | error e => cases e with | _ => simp

theorem mem_keyMap {key : String} : (∃ path, auditdKeyMap.get? key = some path) ↔
    key ∈ auditdKeyMap.keys := by
  simp only [Dict.get?_eq_some, Dict.keys, List.mem_map, Prod.exists, exists_and_right,
    exists_eq_right]

section Auditd

variable {line key path pid uid : String}

theorem parseAuditdEvent_unwatched (unwatched : ∀ key,
    searchGroup host auditdKeyPattern line = some key → auditdKeyMap.get? key = none) :
    parseAuditdEvent host line = .ok none := by
  unfold parseAuditdEvent
  cases found : searchGroup host auditdKeyPattern line with
  | none => rfl
  | some key => simp only [unwatched key found]

theorem parseAuditdEvent_read (found : searchGroup host auditdKeyPattern line = some key)
    (watched : auditdKeyMap.get? key = some path)
    (isPid : searchGroup host (auditdPidPattern host.unicode) line = some pid)
    (isUid : searchGroup host (auditdUidPattern host.unicode) line = some uid) :
    parseAuditdEvent host line = do
      let agent ← pidToName host pid
      return some ⟨path, .str (codePoints uid), .str (codePoints agent)⟩ := by
  unfold parseAuditdEvent
  simp only [found, watched, isPid, isUid]

theorem parseAuditdEvent_malformed (found : searchGroup host auditdKeyPattern line = some key)
    (watched : auditdKeyMap.get? key = some path)
    (missing : searchGroup host (auditdPidPattern host.unicode) line = none ∨
      searchGroup host (auditdUidPattern host.unicode) line = none) :
    ∃ e, parseAuditdEvent host line = .error e := by
  unfold parseAuditdEvent
  rcases missing with noPid | noUid
  · simp [found, watched, noPid]
  · simp only [found, watched, noUid]
    cases searchGroup host (auditdPidPattern host.unicode) line with
    | none => exact ⟨_, rfl⟩
    | some pid => exact ⟨_, rfl⟩

theorem auditd_raises_iff :
    (∃ e, parseAuditdEvent host line = .error e) ↔ AuditdRaises host line := by
  constructor
  · rintro ⟨e, raised⟩
    cases found : searchGroup host auditdKeyPattern line with
    | none =>
        rw [parseAuditdEvent_unwatched fun key isKey => by rw [found] at isKey; cases isKey] at raised
        cases raised
    | some key =>
        cases watched : auditdKeyMap.get? key with
        | none =>
            rw [parseAuditdEvent_unwatched fun key' isKey => by
              rw [found] at isKey; cases isKey; exact watched] at raised
            cases raised
        | some path =>
            refine ⟨⟨key, found, mem_keyMap.mp ⟨path, watched⟩⟩, ?_⟩
            cases isPid : searchGroup host (auditdPidPattern host.unicode) line with
            | none => exact Or.inl rfl
            | some pid =>
                cases isUid : searchGroup host (auditdUidPattern host.unicode) line with
                | none => exact Or.inr (Or.inl rfl)
                | some uid =>
                    rw [parseAuditdEvent_read found watched isPid isUid] at raised
                    refine Or.inr (Or.inr ⟨pid, rfl, pidToName_error.mp ⟨e, ?_⟩⟩)
                    rcases bind_eq_error.mp raised with named | ⟨agent, -, returned⟩
                    · exact named
                    · cases returned
  · rintro ⟨⟨key, found, inMap⟩, malformed⟩
    obtain ⟨path, watched⟩ := mem_keyMap.mpr inMap
    cases isPid : searchGroup host (auditdPidPattern host.unicode) line with
    | none => exact parseAuditdEvent_malformed found watched (Or.inl isPid)
    | some pid =>
        cases isUid : searchGroup host (auditdUidPattern host.unicode) line with
        | none => exact parseAuditdEvent_malformed found watched (Or.inr isUid)
        | some uid =>
            rw [isPid, isUid] at malformed
            rcases malformed with noPid | noUid | ⟨pid', isPid', undecodable⟩
            · cases noPid
            · cases noUid
            · cases isPid'
              obtain ⟨e, raised⟩ := pidToName_error.mpr undecodable
              refine ⟨e, ?_⟩
              rw [parseAuditdEvent_read found watched isPid isUid, raised]
              rfl

end Auditd

theorem isText_iff {text : String} {value : Json} :
    isText text value = true ↔ value = .str (codePoints text) := by
  unfold isText
  split
  · simp
  · rename_i notStr
    simp only [Bool.false_eq_true, false_iff]
    exact fun same => notStr _ same

theorem getMember_error {value default : Json} {key : String} :
    (∃ e, getMember value key default = .error e) ↔ ∀ members, value ≠ .object members := by
  unfold getMember
  split
  · simp
  · rename_i notObject
    simp only [Except.error.injEq, exists_eq', true_iff]
    exact fun members same => notObject members same

theorem getMember_object (members : List (CodePoints × Json)) (key : String) (default : Json) :
    getMember (.object members) key default = .ok ((lookup members key).getD default) := rfl

theorem hasText_iff {members : List (CodePoints × Json)} {key text : String} :
    isText text ((lookup members key).getD .null) = true ↔ HasText members key text := by
  rw [isText_iff, HasText]
  cases lookup members key with
  | none => simp
  | some value => simp

/-- A request entry that is an object, up to its `auth`. -/
theorem parseVaultEvent_object {line : String} {members : List (CodePoints × Json)}
    (loaded : loads host.maxDepth line.toList = .ok (.object members)) :
    (∃ e, parseVaultEvent host line = .error e) ↔
      HasText members "type" "request" ∧ (NoObjectAt members "request" ∨
        ∃ request, lookup members "request" = some (.object request) ∧
          HasText request "path" vaultWatchPath ∧ NoObjectAt members "auth") := by
  unfold parseVaultEvent
  rw [loaded]
  simp only [getMember_object, bind, Except.bind]
  by_cases isRequest : HasText members "type" "request"
  · rw [if_neg (not_not.mpr (hasText_iff.mpr isRequest))]
    cases request : lookup members "request" with
    | none =>
        have unwatched : ¬ isText vaultWatchPath ((lookup [] "path").getD .null) = true := by
          simp [lookup, isText]
        simp [getMember_object, unwatched, NoObjectAt, request, pure, Except.pure]
    | some value =>
        cases value with
        | object request' =>
            simp only [Option.getD_some, getMember_object]
            by_cases watched : HasText request' "path" vaultWatchPath
            · rw [if_neg (not_not.mpr (hasText_iff.mpr watched))]
              have noRequest : ¬ NoObjectAt members "request" := by
                simp [NoObjectAt, request]
              simp only [isRequest, noRequest, watched, true_and, false_or, Option.some.injEq,
                Json.object.injEq, exists_eq_left']
              cases auth : lookup members "auth" with
              | none => simp [getMember, NoObjectAt, auth, pure, Except.pure]
              | some value =>
                  cases value with
                  | _ => simp [getMember, NoObjectAt, auth, pure, Except.pure]
            · rw [if_pos fun isPath => watched (hasText_iff.mp isPath)]
              simp [NoObjectAt, request, watched, pure, Except.pure]
        | _ => simp [getMember, NoObjectAt, request, isRequest]
  · rw [if_pos fun isType => isRequest (hasText_iff.mp isType)]
    simp [isRequest, pure, Except.pure]

theorem vault_raises_iff {line : String} :
    (∃ e, parseVaultEvent host line = .error e) ↔ VaultRaises host line := by
  constructor
  · intro raised
    cases loaded : loads host.maxDepth line.toList with
    | error fault =>
        cases fault with
        | jsonDecodeError =>
            obtain ⟨e, raised⟩ := raised
            rw [parseVaultEvent, loaded] at raised
            cases raised
        | valueError => exact .tooLong loaded
        | recursionError => exact .tooDeep loaded
    | ok value =>
        cases value with
        | object members =>
            obtain ⟨isRequest, noRequest | ⟨request, there, watched, noAuth⟩⟩ :=
              (parseVaultEvent_object loaded).mp raised
            · exact .request members loaded isRequest noRequest
            · exact .auth members request loaded isRequest there watched noAuth
        | _ => exact .entry _ loaded (by simp)
  · intro raises
    cases raises with
    | tooLong loaded => exact ⟨.integerTooLong, by rw [parseVaultEvent, loaded]⟩
    | tooDeep loaded => exact ⟨.recursionError, by rw [parseVaultEvent, loaded]⟩
    | entry value loaded noObject =>
        obtain ⟨e, raised⟩ := getMember_error.mpr noObject
        refine ⟨e, ?_⟩
        rw [parseVaultEvent, loaded]
        exact bind_eq_error.mpr (Or.inl raised)
    | request members loaded isRequest noObject =>
        exact (parseVaultEvent_object loaded).mpr ⟨isRequest, Or.inl noObject⟩
    | auth members request loaded isRequest there watched noObject =>
        exact (parseVaultEvent_object loaded).mpr
          ⟨isRequest, Or.inr ⟨request, there, watched, noObject⟩⟩

theorem parser_raises_iff {source : Source} {line : String} :
    (∃ e, parser host source line = .error e) ↔ Raises host source line := by
  cases source with
  | auditd => exact auditd_raises_iff
  | vault => exact vault_raises_iff

end SecureMsg.Audit
