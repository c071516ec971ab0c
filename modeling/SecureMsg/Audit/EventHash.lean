/-
# Audit.EventHash — what the hash on the chain commits to

`submit_event` hashes path, principal and agent with the packed encoding: the bytes
of the three texts, one after the other, with nothing between them.  No watched
path begins another, so the path can be read off (`path_apart`); where the
principal ends cannot.

`commits_iff`: of two events the parsers can return the hashed bytes tell them
apart exactly if no text has moved from the end of one's principal to the start
of the other's agent.
-/
import SecureMsg.Audit.Parsers

namespace SecureMsg.Audit

open SecureMsg.Theory

set_option autoImplicit false

/-! ## The hashed bytes -/

/-- A surrogate that stands alone is no character. -/
def character (point : Nat) : Option Char :=
  if valid : point.isValidChar then some (Char.ofNatAux point valid) else none

/-- The text of a value, if it is one. -/
def textOf : Json → Option String
  | .str points => (points.mapM character).map String.ofList
  | _ => none

/-- The bytes `solidity_keccak` hashes for three `string`s; it raises for a value that
is no text, and nothing is submitted. -/
def packed (event : AuditEvent) : Option ByteArray := do
  let principal ← textOf event.principal
  let agent ← textOf event.agent
  return event.path.toUTF8 ++ principal.toUTF8 ++ agent.toUTF8

/-- The paths of `auditd_key_map`, and the one watched in the vault's log. -/
def watchedPaths : List String := auditdKeyMap.entries.map Prod.snd ++ [vaultWatchPath]

/-- One of the parsers returns the event for some line on some host. -/
def Produced (event : AuditEvent) : Prop :=
  ∃ host source line, parser host source line = .ok (some event)

def textEvent (path principal agent : String) : AuditEvent :=
  ⟨path, .str (codePoints principal), .str (codePoints agent)⟩

/-- Equal bytes mean equal events. -/
def Commits (event event' : AuditEvent) : Prop :=
  ∀ bytes, packed event = some bytes → packed event' = some bytes → event = event'

/-- What the agent of one event starts with ends the principal of the other. -/
def Moves (event event' : AuditEvent) : Prop :=
  ∃ path principal moved agent, moved ≠ "" ∧ event = textEvent path principal (moved ++ agent) ∧
    event' = textEvent path (principal ++ moved) agent

/-! ## Texts and code points -/

theorem character_some {point : Nat} {c : Char} : character point = some c ↔ point = c.toNat := by
  constructor
  · intro isChar
    by_cases valid : point.isValidChar
    · rw [character, dif_pos valid] at isChar
      cases isChar
      rfl
    · rw [character, dif_neg valid] at isChar
      cases isChar
  · rintro rfl
    exact dif_pos c.valid

theorem mapM_character {points : CodePoints} {chars : List Char} :
    points.mapM character = some chars ↔ points = chars.map Char.toNat := by
  induction points generalizing chars with
  | nil =>
      rw [List.mapM_nil]
      cases chars with
      | nil => simp
      | cons c chars => simp
  | cons point points ih =>
      rw [List.mapM_cons]
      cases chars with
      | nil => simp [Option.bind_eq_some_iff]
      | cons c chars => simp [Option.bind_eq_some_iff, character_some, ih]

theorem textOf_some {value : Json} {text : String} :
    textOf value = some text ↔ value = .str (codePoints text) := by
  cases value with
  | str points =>
      simp only [textOf, Option.map_eq_some_iff, mapM_character, Json.str.injEq, codePoints]
      constructor
      · rintro ⟨chars, rfl, rfl⟩
        rw [String.toList_ofList]
      · rintro rfl
        exact ⟨text.toList, rfl, String.ofList_toList⟩
  | _ => simp [textOf]

/-- Hashed is the concatenation of the three texts. -/
theorem packed_some {event : AuditEvent} {bytes : ByteArray} :
    packed event = some bytes ↔ ∃ path principal agent, event = textEvent path principal agent ∧
      bytes = (path ++ principal ++ agent).toUTF8 := by
  obtain ⟨path, principal, agent⟩ := event
  simp only [packed, textEvent, bind, Option.bind_eq_some_iff, textOf_some, pure, Option.some.injEq,
    AuditEvent.mk.injEq, String.toUTF8_eq_toByteArray, String.toByteArray_append]
  constructor
  · rintro ⟨principal, rfl, agent, rfl, rfl⟩
    exact ⟨path, principal, agent, ⟨rfl, rfl, rfl⟩, rfl⟩
  · rintro ⟨path, principal, agent, ⟨rfl, rfl, rfl⟩, rfl⟩
    exact ⟨principal, rfl, agent, rfl, rfl⟩

theorem codePoints_inj {text text' : String} : codePoints text = codePoints text' ↔ text = text' := by
  refine ⟨fun same => ?_, fun same => congrArg codePoints same⟩
  have read : textOf (.str (codePoints text)) = some text := textOf_some.mpr rfl
  rw [same, textOf_some.mpr rfl] at read
  exact (Option.some.inj read).symm

theorem textEvent_inj {path principal agent path' principal' agent' : String} :
    textEvent path principal agent = textEvent path' principal' agent' ↔
      path = path' ∧ principal = principal' ∧ agent = agent' := by
  simp [textEvent, codePoints_inj]

/-- Two ways to cut one text in two differ by what lies between the cuts. -/
theorem append_eq_append_cases {a b c d : String} (same : a ++ b = c ++ d) :
    (∃ between, c = a ++ between ∧ b = between ++ d) ∨
      ∃ between, a = c ++ between ∧ d = between ++ b := by
  have lists := congrArg (fun text => text.toList) same
  rw [String.toList_append, String.toList_append] at lists
  rcases List.append_eq_append_iff.mp lists with ⟨between, grown, rest⟩ | ⟨between, grown, rest⟩
  · refine Or.inl ⟨String.ofList between, ?_, ?_⟩
    · rw [← String.toList_inj, String.toList_append, String.toList_ofList, grown]
    · rw [← String.toList_inj, String.toList_append, String.toList_ofList, rest]
  · refine Or.inr ⟨String.ofList between, ?_, ?_⟩
    · rw [← String.toList_inj, String.toList_append, String.toList_ofList, grown]
    · rw [← String.toList_inj, String.toList_append, String.toList_ofList, rest]

/-! ## The watched paths -/

/-- No watched path begins another. -/
theorem paths_incomparable : ∀ path ∈ watchedPaths, ∀ path' ∈ watchedPaths,
    path.toList <+: path'.toList → path = path' := by decide

/-- The path can be read off the concatenation. -/
theorem path_apart {path path' rest rest' : String} (watched : path ∈ watchedPaths)
    (watched' : path' ∈ watchedPaths) (same : path ++ rest = path' ++ rest') : path = path' := by
  have lists : path.toList ++ rest.toList = path'.toList ++ rest'.toList := by
    rw [← String.toList_append, same, String.toList_append]
  have one : path.toList <+: path.toList ++ rest.toList := List.prefix_append _ _
  have other : path'.toList <+: path.toList ++ rest.toList := lists ▸ List.prefix_append _ _
  rcases List.prefix_or_prefix_of_prefix one other with begins | begins
  · exact paths_incomparable path watched path' watched' begins
  · exact (paths_incomparable path' watched' path watched begins).symm

theorem produced_watched {event : AuditEvent} (produced : Produced event) :
    event.path ∈ watchedPaths := by
  obtain ⟨host, source, line, parsed⟩ := produced
  cases source with
  | auditd =>
      change parseAuditdEvent host line = _ at parsed
      unfold parseAuditdEvent at parsed
      split at parsed
      · cases parsed
      · split at parsed
        · cases parsed
        · rename_i key _ path watched
          split at parsed
          · obtain ⟨agent, -, returned⟩ := bind_eq_ok.mp parsed
            cases returned
            exact List.mem_append_left _ (List.mem_map_of_mem (Dict.get?_eq_some.mp watched))
          · cases parsed
  | vault =>
      change parseVaultEvent host line = _ at parsed
      unfold parseVaultEvent at parsed
      split at parsed
      · cases parsed
      · cases parsed
      · cases parsed
      · obtain ⟨type, -, parsed⟩ := bind_eq_ok.mp parsed
        split at parsed
        · cases parsed
        · obtain ⟨request, -, parsed⟩ := bind_eq_ok.mp parsed
          obtain ⟨path, -, parsed⟩ := bind_eq_ok.mp parsed
          split at parsed
          · cases parsed
          · obtain ⟨auth, -, parsed⟩ := bind_eq_ok.mp parsed
            obtain ⟨principal, -, parsed⟩ := bind_eq_ok.mp parsed
            obtain ⟨agent, -, returned⟩ := bind_eq_ok.mp parsed
            cases returned
            exact List.mem_append_right _ (List.mem_singleton_self _)

/-! ## What the hash tells apart -/

/-- Moving text leaves the bytes as they are. -/
theorem Moves.packed {event event' : AuditEvent} (moves : Moves event event') :
    event ≠ event' ∧ ∃ bytes, packed event = some bytes ∧ packed event' = some bytes := by
  obtain ⟨path, principal, moved, agent, nonempty, rfl, rfl⟩ := moves
  refine ⟨?_, (path ++ principal ++ (moved ++ agent)).toUTF8, ?_, ?_⟩
  · intro same
    obtain ⟨-, grown, -⟩ := textEvent_inj.mp same
    have lists := congrArg (fun text => text.toList) grown
    rw [String.toList_append, List.self_eq_append_right, String.toList_eq_nil_iff] at lists
    exact nonempty lists
  · exact packed_some.mpr ⟨path, principal, moved ++ agent, rfl, rfl⟩
  · exact packed_some.mpr ⟨path, principal ++ moved, agent, rfl, by simp only [String.append_assoc]⟩

theorem moves_of_append {path principal agent principal' agent' moved : String}
    (different : textEvent path principal agent ≠ textEvent path principal' agent')
    (grown : principal' = principal ++ moved) (rest : agent = moved ++ agent') :
    Moves (textEvent path principal agent) (textEvent path principal' agent') := by
  refine ⟨path, principal, moved, agent', ?_, by rw [rest], by rw [grown]⟩
  rintro rfl
  rw [String.append_empty] at grown
  rw [String.empty_append] at rest
  exact different (by rw [grown, rest])

/-- **What the hash commits to**: all of the event, but for text that moves between
principal and agent. -/
theorem commits_iff {event event' : AuditEvent} (produced : Produced event)
    (produced' : Produced event') :
    Commits event event' ↔ ¬ Moves event event' ∧ ¬ Moves event' event := by
  constructor
  · intro commits
    constructor
    · intro moves
      obtain ⟨different, bytes, isBytes, isBytes'⟩ := moves.packed
      exact different (commits bytes isBytes isBytes')
    · intro moves
      obtain ⟨different, bytes, isBytes', isBytes⟩ := moves.packed
      exact different (commits bytes isBytes isBytes').symm
  · rintro ⟨notMoves, notMoves'⟩ bytes isBytes isBytes'
    obtain ⟨path, principal, agent, rfl, rfl⟩ := packed_some.mp isBytes
    obtain ⟨path', principal', agent', rfl, same⟩ := packed_some.mp isBytes'
    rw [String.toUTF8_eq_toByteArray, String.toUTF8_eq_toByteArray, String.toByteArray_inj,
      String.append_assoc, String.append_assoc] at same
    cases path_apart (produced_watched produced) (produced_watched produced') same
    by_contra different
    rcases append_eq_append_cases ((String.append_right_inj _).mp same) with
      ⟨moved, grown, rest⟩ | ⟨moved, grown, rest⟩
    · exact notMoves (moves_of_append different grown rest)
    · exact notMoves' (moves_of_append (Ne.symm different) grown rest)

/-! ## Two reads with one hash -/

/-- Of a process that is gone the agent is the pid. -/
theorem produced_gone {host : Host} {line key path pid uid : String}
    (found : searchGroup host auditdKeyPattern line = some key)
    (watched : auditdKeyMap.get? key = some path)
    (isPid : searchGroup host (auditdPidPattern host.unicode) line = some pid)
    (isUid : searchGroup host (auditdUidPattern host.unicode) line = some uid)
    (gone : host.comm pid = .error .osError) : Produced (textEvent path uid pid) := by
  refine ⟨host, .auditd, line, (parseAuditdEvent_read found watched isPid isUid).trans ?_⟩
  have named : pidToName host pid = .ok pid := by
    unfold pidToName
    rw [gone]
  rw [named]
  rfl

/-- A read of `.env`. -/
def canaryEvent (uid pid : String) : AuditEvent :=
  textEvent "/home/student/CyberSec-Backend/.env" uid pid

/-- Process 23 of user 1. -/
theorem produced_23 : Produced (canaryEvent "1" "23") := by
  have found : searchGroup bareHost auditdKeyPattern
      "type=SYSCALL pid=23 uid=1 key=\"canary_read\"" = some "canary_read" := by decide +kernel
  have isPid : searchGroup bareHost (auditdPidPattern bareHost.unicode)
      "type=SYSCALL pid=23 uid=1 key=\"canary_read\"" = some "23" := by decide +kernel
  have isUid : searchGroup bareHost (auditdUidPattern bareHost.unicode)
      "type=SYSCALL pid=23 uid=1 key=\"canary_read\"" = some "1" := by decide +kernel
  exact produced_gone found rfl isPid isUid rfl

/-- Process 3 of user 12. -/
theorem produced_3 : Produced (canaryEvent "12" "3") := by
  have found : searchGroup bareHost auditdKeyPattern
      "type=SYSCALL pid=3 uid=12 key=\"canary_read\"" = some "canary_read" := by decide +kernel
  have isPid : searchGroup bareHost (auditdPidPattern bareHost.unicode)
      "type=SYSCALL pid=3 uid=12 key=\"canary_read\"" = some "3" := by decide +kernel
  have isUid : searchGroup bareHost (auditdUidPattern bareHost.unicode)
      "type=SYSCALL pid=3 uid=12 key=\"canary_read\"" = some "12" := by decide +kernel
  exact produced_gone found rfl isPid isUid rfl

/-- The 2 has moved from the agent to the principal. -/
theorem moves_2 : Moves (canaryEvent "1" "23") (canaryEvent "12" "3") :=
  ⟨"/home/student/CyberSec-Backend/.env", "1", "2", "3", by decide, rfl, rfl⟩

/-- The chain does not tell the two reads apart. -/
theorem reads_share_hash : ∃ event event', Produced event ∧ Produced event' ∧
    ¬ Commits event event' := by
  refine ⟨canaryEvent "1" "23", canaryEvent "12" "3", produced_23, produced_3, fun commits => ?_⟩
  obtain ⟨different, bytes, isBytes, isBytes'⟩ := moves_2.packed
  exact different (commits bytes isBytes isBytes')

/-- Of the two reads the bytes are the same, since the 2 moved. -/
theorem commits_iff_twoReads : (Commits (canaryEvent "1" "23") (canaryEvent "12" "3") ↔
    ¬ Moves (canaryEvent "1" "23") (canaryEvent "12" "3") ∧
      ¬ Moves (canaryEvent "12" "3") (canaryEvent "1" "23")) :=
  commits_iff produced_23 produced_3

end SecureMsg.Audit
