/-
# Audit.Entries — the vault's log, from entry to event

An entry is a JSON object; the log holds one a line.  The tests of the parser write
their entries with `json.dumps`, and so does this module.

`parse_line`: an entry written is read as what it reports.  `vault_log_reported`: in
any run over both logs the events with the path of the secret are those the entries
report, in order, none lost, none twice and none out of the text of another's member.
-/
import SecureMsg.Theory.JsonText
import SecureMsg.Audit.Watcher

namespace SecureMsg.Audit

open SecureMsg.Theory

set_option autoImplicit false

/-! ## Entries -/

/-- An object whose `request` and `auth` are objects, where they are there. -/
structure Entry where
  members : List (CodePoints × Json)
  depth : Nat
  writable : Writable depth (.object members)
  request : ¬ NoObjectAt members "request"
  auth : ¬ NoObjectAt members "auth"

namespace Entry

/-- The members of a member. -/
def inner (entry : Entry) (key : String) : List (CodePoints × Json) :=
  match lookup entry.members key with
  | some (.object members) => members
  | _ => []

/-- A member of `auth`; without it the event has the empty text. -/
def authText (entry : Entry) (key : String) : Json :=
  (lookup (entry.inner "auth") key).getD (.str [])

/-- What an entry says of the watched secret. -/
def reported (entry : Entry) : Option AuditEvent :=
  if isText "request" ((lookup entry.members "type").getD .null) ∧
      isText vaultWatchPath ((lookup (entry.inner "request") "path").getD .null) then
    some ⟨vaultWatchPath, entry.authText "display_name", entry.authText "accessor"⟩
  else none

/-- `json.dumps(entry)`, as a line of the log. -/
def line (entry : Entry) : List Char := dumps (.object entry.members) ++ ['\n']

theorem isLine (entry : Entry) : IsLine entry.line :=
  ⟨_, fun newline => (oneLine_dumps entry.writable '\n' newline).1 rfl, rfl⟩

/-- Where an object may stand the parser finds one, if only an empty one. -/
theorem getMember_inner {entry : Entry} {key : String} (isObject : ¬ NoObjectAt entry.members key) :
    getMember (.object entry.members) key (.object []) = .ok (.object (entry.inner key)) := by
  rw [getMember_object, inner]
  cases there : lookup entry.members key with
  | none => rfl
  | some value =>
      cases value with
      | object members => rfl
      | _ => exact absurd ⟨_, there, by simp⟩ isObject

end Entry

/-- **An entry, written and parsed.** -/
theorem parse_line {host : Host} (entry : Entry) (deep : entry.depth ≤ host.maxDepth) :
    parseVaultEvent host (String.ofList entry.line) = .ok entry.reported := by
  have loaded : loads host.maxDepth (String.ofList entry.line).toList =
      .ok (.object entry.members) := by
    rw [String.toList_ofList]
    refine loads_dumps entry.writable deep fun c newline => ?_
    rw [List.mem_singleton.mp newline]
    rfl
  rw [parseVaultEvent, loaded]
  simp only [getMember_object, Entry.getMember_inner entry.request,
    Entry.getMember_inner entry.auth, Entry.reported, Entry.authText, bind, Except.bind]
  by_cases isRequest : isText "request" ((lookup entry.members "type").getD .null) = true
  · rw [if_neg (not_not.mpr isRequest)]
    by_cases watched : isText vaultWatchPath ((lookup (entry.inner "request") "path").getD .null) = true
    · rw [if_neg (not_not.mpr watched), if_pos ⟨isRequest, watched⟩]
      rfl
    · rw [if_pos watched, if_neg fun both => watched both.2]
      rfl
  · rw [if_pos isRequest, if_neg fun both => isRequest both.1]
    rfl

/-! ## Both logs -/

/-- What is written to a log before a wake-up: any text, or entries. -/
inductive Wakeup where
  | auditd (host : Host) (text : List Char)
  | vault (host : Host) (entries : List Entry)

namespace Wakeup

def arrival : Wakeup → Arrival
  | .auditd host text => ⟨.auditd, text, host⟩
  | .vault host entries => ⟨.vault, (entries.map Entry.line).flatten, host⟩

def entries : Wakeup → List Entry
  | .auditd _ _ => []
  | .vault _ entries => entries

/-- No entry is nested deeper than the interpreter goes. -/
def Readable : Wakeup → Prop
  | .auditd _ _ => True
  | .vault host entries => ∀ entry ∈ entries, entry.depth ≤ host.maxDepth

/-- An audit record makes its parser raise. -/
def Fails : Wakeup → Prop
  | .auditd host text => ∃ line ∈ readlines text, AuditdRaises host (String.ofList line)
  | .vault _ _ => False

end Wakeup

/-- What the entries of the wake-ups report. -/
def reports (wakeups : List Wakeup) : List AuditEvent :=
  (wakeups.flatMap Wakeup.entries).filterMap Entry.reported

/-- The events with the path of the secret. -/
def ofSecret (events : List AuditEvent) : List AuditEvent :=
  events.filter fun event => event.path = vaultWatchPath

theorem ofSecret_append (events more : List AuditEvent) :
    ofSecret (events ++ more) = ofSecret events ++ ofSecret more :=
  List.filter_append ..

theorem reports_snoc (wakeups : List Wakeup) (wakeup : Wakeup) :
    reports (wakeups ++ [wakeup]) = reports wakeups ++ wakeup.entries.filterMap Entry.reported := by
  rw [reports, List.flatMap_append, List.flatMap_singleton, List.filterMap_append]
  rfl

/-- No audit record has the path of the secret. -/
theorem auditd_path {host : Host} {line : String} {event : AuditEvent}
    (parsed : parseAuditdEvent host line = .ok (some event)) : event.path ≠ vaultWatchPath := by
  have apart : ∀ entry ∈ auditdKeyMap.entries, entry.2 ≠ vaultWatchPath := by decide
  unfold parseAuditdEvent at parsed
  split at parsed
  · cases parsed
  · split at parsed
    · cases parsed
    · rename_i path watched
      split at parsed
      · obtain ⟨agent, -, returned⟩ := bind_eq_ok.mp parsed
        cases returned
        exact apart _ (Dict.get?_eq_some.mp watched)
      · cases parsed

theorem ofSecret_auditd (host : Host) (lines : List (List Char)) :
    ofSecret (processLines (parser host .auditd) lines).1 = [] := by
  induction lines with
  | nil => rfl
  | cons line lines ih =>
      rw [processLines]
      cases parsed : parser host .auditd (String.ofList line) with
      | error e => rfl
      | ok result =>
          cases result with
          | none => exact ih
          | some event =>
              have other := auditd_path parsed
              simpa [ofSecret, other] using ih

theorem reported_path {entry : Entry} {event : AuditEvent} (reported : entry.reported = some event) :
    event.path = vaultWatchPath := by
  unfold Entry.reported at reported
  split at reported
  · cases reported
    rfl
  · cases reported

/-- The lines of the vault's log, handed to its parser. -/
theorem processLines_entries {host : Host} {entries : List Entry}
    (deep : ∀ entry ∈ entries, entry.depth ≤ host.maxDepth) :
    processLines (parser host .vault) (entries.map Entry.line) =
      (entries.filterMap Entry.reported, none) := by
  induction entries with
  | nil => rfl
  | cons entry entries ih =>
      have onEntries := ih fun other listed => deep other (List.mem_cons_of_mem _ listed)
      have parsed : parser host .vault (String.ofList entry.line) = .ok entry.reported :=
        parse_line entry (deep entry List.mem_cons_self)
      rw [List.map_cons, processLines, parsed]
      cases reported : entry.reported with
      | none => rw [List.filterMap_cons_none reported, onEntries]
      | some event => rw [List.filterMap_cons_some reported, onEntries]

theorem readlines_entries (entries : List Entry) :
    readlines (entries.map Entry.line).flatten = entries.map Entry.line := by
  refine readlines_flatten fun line listed => ?_
  obtain ⟨entry, -, rfl⟩ := List.mem_map.mp listed
  exact entry.isLine

/-- One wake-up, as seen by whoever watches the secret. -/
theorem wakeup_processed {wakeup : Wakeup} (readable : wakeup.Readable) :
    ofSecret (processLines (parser wakeup.arrival.host wakeup.arrival.source)
        (readlines wakeup.arrival.text)).1 = wakeup.entries.filterMap Entry.reported ∧
      ((processLines (parser wakeup.arrival.host wakeup.arrival.source)
        (readlines wakeup.arrival.text)).2 = none ↔ ¬ wakeup.Fails) := by
  cases wakeup with
  | auditd host text =>
      refine ⟨ofSecret_auditd host (readlines text), ?_⟩
      rw [processLines_stopped]
      simp only [Wakeup.Fails, not_exists, not_and, ← auditd_raises_iff]
      rfl
  | vault host entries =>
      have processed := processLines_entries readable
      rw [Wakeup.arrival, readlines_entries]
      dsimp only
      rw [processed]
      refine ⟨List.filter_eq_self.mpr fun event listed => ?_, iff_of_true rfl not_false⟩
      obtain ⟨entry, -, reported⟩ := List.mem_filterMap.mp listed
      exact decide_eq_true (reported_path reported)

/-- The wake-ups the loop has handled are those before the first audit record that makes
its parser raise. -/
structure HandledUpTo (wakeups handled rest : List Wakeup) : Prop where
  split : wakeups = handled ++ rest
  fine : ∀ wakeup ∈ handled, ¬ wakeup.Fails
  fault : ∀ wakeup ∈ rest.head?, wakeup.Fails
  submitted : ofSecret ((watch parser).run (wakeups.map Wakeup.arrival)).submitted = reports handled
  running : ((watch parser).run (wakeups.map Wakeup.arrival)).stopped = none ↔ rest = []

theorem entries_of_fails {wakeup : Wakeup} (fails : wakeup.Fails) : wakeup.entries = [] := by
  cases wakeup with
  | auditd host text => rfl
  | vault host entries => exact False.elim fails

theorem HandledUpTo.snoc {wakeups handled rest : List Wakeup} {wakeup : Wakeup}
    (before : HandledUpTo wakeups handled rest) (readable : wakeup.Readable) :
    ∃ handled rest, HandledUpTo (wakeups ++ [wakeup]) handled rest := by
  have last : (wakeups ++ [wakeup]).map Wakeup.arrival =
      wakeups.map Wakeup.arrival ++ [wakeup.arrival] := List.map_append
  cases ended : ((watch parser).run (wakeups.map Wakeup.arrival)).stopped with
  | some e =>
      have some_ : rest ≠ [] := fun none_ => by
        rw [before.running.mpr none_] at ended
        cases ended
      have same : (watch parser).run ((wakeups ++ [wakeup]).map Wakeup.arrival) =
          (watch parser).run (wakeups.map Wakeup.arrival) := by
        rw [last, run_snoc_stopped ended]
      refine ⟨handled, rest ++ [wakeup], ?_, before.fine, ?_, ?_, ?_⟩
      · rw [before.split, List.append_assoc]
      · rw [List.head?_append_of_ne_nil _ some_]
        exact before.fault
      · rw [same]
        exact before.submitted
      · rw [same, ended]
        exact iff_of_false (by simp) (by simp)
  | none =>
      have nothingLeft := before.running.mp ended
      have all : wakeups = handled := by rw [before.split, nothingLeft, List.append_nil]
      obtain ⟨submitted, stopped⟩ := run_snoc_running ended wakeup.arrival
      obtain ⟨events, fine⟩ := wakeup_processed readable
      have more : ofSecret ((watch parser).run ((wakeups ++ [wakeup]).map Wakeup.arrival)).submitted =
          reports (wakeups ++ [wakeup]) := by
        rw [last, submitted, ofSecret_append, before.submitted, events, reports_snoc, all]
      rw [← stopped, ← last] at fine
      by_cases fails : wakeup.Fails
      · refine ⟨wakeups, [wakeup], rfl, all ▸ before.fine, ?_, ?_, ?_⟩
        · rintro other ⟨⟩
          exact fails
        · rw [more, reports_snoc, entries_of_fails fails, List.filterMap_nil, List.append_nil]
        · exact iff_of_false (fun runs => fine.mp runs fails) (List.cons_ne_nil _ _)
      · refine ⟨wakeups ++ [wakeup], [], (List.append_nil _).symm, ?_, ?_, more, ?_⟩
        · intro other listed
          rcases List.mem_append.mp listed with old | new
          · exact before.fine other (all ▸ old)
          · exact List.mem_singleton.mp new ▸ fails
        · exact fun other starts => by cases starts
        · exact iff_of_true (fine.mpr fails) rfl

/-- **The vault's log is reported entry by entry**, up to the audit record that ends the run,
if there is one. -/
theorem vault_log_reported {wakeups : List Wakeup}
    (readable : ∀ wakeup ∈ wakeups, wakeup.Readable) :
    ∃ handled rest, HandledUpTo wakeups handled rest := by
  induction wakeups using List.reverseRecOn with
  | nil =>
      refine ⟨[], [], rfl, ?_, ?_, rfl, iff_of_true rfl rfl⟩
      · exact fun wakeup listed => absurd listed List.not_mem_nil
      · exact fun wakeup starts => by cases starts
  | append_singleton wakeups wakeup ih =>
      obtain ⟨handled, rest, before⟩ := ih fun other listed =>
        readable other (List.mem_append_left _ listed)
      exact before.snoc (readable wakeup (List.mem_append_right _ (List.mem_singleton_self _)))

/-- A read of the secret by a token whose name is meant to look like another entry. -/
def forger : Entry where
  members :=
    [(codePoints "type", .str (codePoints "request")),
      (codePoints "request", .object [(codePoints "path", .str (codePoints vaultWatchPath))]),
      (codePoints "auth", .object [(codePoints "display_name", .str (codePoints
        "token\"\x7d\x7d\n\x7b\"type\": \"request\", \"request\": \x7b\"path\": \"secret/data/securemsg/prod\"\x7d\x7d"))])]
  depth := 2
  writable := by
    have isText := isText_codePoints
    refine .object _ ?_ ?_
    · simp [isText]
    · have text : ∀ text depth, Writable depth (.str (codePoints text)) := fun text depth =>
        .str _ (isText text)
      have member : ∀ key text, Writable 1 (.object [(codePoints key, .str (codePoints text))]) :=
        fun key text_ => .object _ (by simp [isText]) (by simp [text])
      simp [text, member]
  request := by
    rintro ⟨value, there, noObject⟩
    exact noObject _ (Option.some.inj there).symm
  auth := by
    rintro ⟨value, there, noObject⟩
    exact noObject _ (Option.some.inj there).symm

/-- The forger reads the secret, and then an audit record is malformed. -/
theorem vault_log_reported_forger : ∃ handled rest,
    HandledUpTo [.vault bareHost [forger], .auditd bareHost "type=SYSCALL key=\"canary_read\"\n".toList]
      handled rest :=
  vault_log_reported (by
    intro wakeup listed
    simp only [List.mem_cons, List.not_mem_nil, or_false] at listed
    rcases listed with rfl | rfl
    · simp [Wakeup.Readable, forger, bareHost]
    · trivial)

end SecureMsg.Audit
