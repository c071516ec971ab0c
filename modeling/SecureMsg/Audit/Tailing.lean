/-
# Audit.Tailing — reading a log while it is written

The writer's buffer is flushed where it is full, so a line can arrive in two
pieces with a wake-up between them.  The loop keeps nothing from one wake-up to
the next: what it reads of an unfinished line it parses as a line, and the rest
of it as another.

`tailing_iff`: what the loop makes of a log depends on its lines alone, for every
parser, exactly if every chunk ends with a line; then it does so for the parsers of the
source.
-/
import SecureMsg.Audit.Watcher

namespace SecureMsg.Audit

open SecureMsg.Theory

set_option autoImplicit false

variable {parsers : Host → Source → Parser} {host : Host} {source : Source}
  {lines chunks : List (List Char)}

/-- The chunks as they arrive, one wake-up each. -/
def arrivalsOf (host : Host) (source : Source) (chunks : List (List Char)) : List Arrival :=
  chunks.map fun text => ⟨source, text, host⟩

/-- What the loop has submitted, and what ended it. -/
def outcome (watcher : Watcher) : List AuditEvent × Option Raised :=
  (watcher.submitted, watcher.stopped)

/-- The outcome is that of parsing the lines, one after the other. -/
def Tailed (parsers : Host → Source → Parser) (host : Host) (source : Source)
    (lines chunks : List (List Char)) : Prop :=
  outcome ((watch parsers).run (arrivalsOf host source chunks)) =
    processLines (parsers host source) lines

/-- **The loop parses the pieces it reads.** -/
theorem run_chunks (chunks : List (List Char)) :
    outcome ((watch parsers).run (arrivalsOf host source chunks)) =
      processLines (parsers host source) (chunks.flatMap readlines) := by
  induction chunks using List.reverseRecOn with
  | nil => rfl
  | append_singleton chunks chunk ih =>
      have last : arrivalsOf host source (chunks ++ [chunk]) =
          arrivalsOf host source chunks ++ [⟨source, chunk, host⟩] := by
        simp [arrivalsOf]
      rw [last, List.flatMap_append, List.flatMap_singleton, processLines_append]
      cases ended : ((watch parsers).run (arrivalsOf host source chunks)).stopped with
      | some e =>
          rw [run_snoc_stopped ended, ← ih, outcome, ended]
      | none =>
          obtain ⟨submitted, stopped⟩ := run_snoc_running ended ⟨source, chunk, host⟩
          rw [← ih, outcome, outcome, ended, submitted, stopped]

/-- The parser that returns each line as an event. -/
def echo : Parser := fun line => .ok (some { path := line })

theorem processLines_echo (lines : List (List Char)) :
    processLines echo lines = (lines.map fun line => { path := String.ofList line }, none) := by
  induction lines with
  | nil => rfl
  | cons line lines ih =>
      rw [processLines, echo]
      simp [ih]

/-- **Chunks do not matter, whatever the parser, exactly if each ends with a line**, and then
not for `parse_auditd_event` and `parse_vault_event`. -/
theorem tailing_iff (host : Host) (source : Source) (isLines : ∀ line ∈ lines, IsLine line)
    (sameText : chunks.flatten = lines.flatten) :
    ((∀ parsers, Tailed parsers host source lines chunks) ↔
        ∀ chunk ∈ chunks, Terminated chunk) ∧
      ((∀ chunk ∈ chunks, Terminated chunk) → Tailed parser host source lines chunks) := by
  have pieces := pieces_eq_iff isLines sameText
  have tailed : (∀ chunk ∈ chunks, Terminated chunk) →
      ∀ parsers, Tailed parsers host source lines chunks := by
    intro ended parsers
    rw [Tailed, run_chunks, pieces.mpr ended]
  refine ⟨⟨fun tailed => ?_, tailed⟩, fun ended => tailed ended parser⟩
  have echoed := tailed fun _ _ => echo
  rw [Tailed, run_chunks, processLines_echo, processLines_echo, Prod.mk.injEq] at echoed
  refine pieces.mp (List.map_injective_iff.mpr ?_ echoed.1)
  intro piece line same
  exact String.ofList_injective (AuditEvent.mk.injEq .. ▸ same).1

/-- A read of the canary, as the kernel logs it. -/
def canaryRead : List Char := "type=SYSCALL pid=12 uid=0 comm=\"cat\" key=\"canary_read\"".toList

/-- Two reads, and a record of another key between them. -/
def auditLines : List (List Char) :=
  [canaryRead ++ ['\n'], "type=SYSCALL pid=13 uid=0 key=\"other\"\n".toList, canaryRead ++ ['\n']]

/-- Two lines, then the third. -/
def wholeFlushes : List (List Char) := [(auditLines.take 2).flatten, (auditLines.drop 2).flatten]

/-- One line, then the second and the third cut in its key, then the rest of it. -/
def cutFlushes : List (List Char) :=
  [canaryRead ++ ['\n'],
    "type=SYSCALL pid=13 uid=0 key=\"other\"\n".toList ++ canaryRead.take 50,
    canaryRead.drop 50 ++ ['\n']]

theorem auditLines_isLine : ∀ line ∈ auditLines, IsLine line := by
  have written : ∀ line ∈ auditLines, '\n' ∉ line.dropLast ∧ line.dropLast ++ ['\n'] = line := by
    decide +kernel
  intro line listed
  exact ⟨line.dropLast, (written line listed).1, (written line listed).2.symm⟩

/-- The lines flushed whole, and with the last one cut. -/
theorem tailing_iff_auditLines :
    (((∀ parsers, Tailed parsers bareHost .auditd auditLines wholeFlushes) ↔
          ∀ chunk ∈ wholeFlushes, Terminated chunk) ∧
        ((∀ chunk ∈ wholeFlushes, Terminated chunk) →
          Tailed parser bareHost .auditd auditLines wholeFlushes)) ∧
      ((∀ parsers, Tailed parsers bareHost .auditd auditLines cutFlushes) ↔
          ∀ chunk ∈ cutFlushes, Terminated chunk) ∧
        ((∀ chunk ∈ cutFlushes, Terminated chunk) →
          Tailed parser bareHost .auditd auditLines cutFlushes) :=
  ⟨tailing_iff bareHost .auditd auditLines_isLine (by decide +kernel),
    tailing_iff bareHost .auditd auditLines_isLine (by decide +kernel)⟩

/-- Both reads are reported, one of them where the last line is cut. -/
example : (processLines (parser bareHost .auditd) auditLines).1.length = 2 ∧
    (outcome ((watch parser).run (arrivalsOf bareHost .auditd cutFlushes))).1.length = 1 := by
  decide +kernel

/-- Flushed in the middle of the key, the line reports nothing. -/
theorem cut_line_missed : ¬ ∀ (host : Host) (source : Source) (lines chunks : List (List Char)),
    (∀ line ∈ lines, IsLine line) → (∀ chunk ∈ chunks, chunk ≠ []) →
      chunks.flatten = lines.flatten → Tailed parser host source lines chunks := by
  intro tailed
  have same := tailed bareHost .auditd [canaryRead ++ ['\n']]
    [canaryRead.take 50, canaryRead.drop 50 ++ ['\n']]
    (fun _ listed => ⟨canaryRead, by decide, List.mem_singleton.mp listed⟩) (by decide) (by decide)
  have missed := congrArg (fun result => result.1.length) same
  have nothing : (outcome ((watch parser).run (arrivalsOf bareHost .auditd
      [canaryRead.take 50, canaryRead.drop 50 ++ ['\n']]))).1.length = 0 := by decide +kernel
  have one : (processLines (parser bareHost .auditd) [canaryRead ++ ['\n']]).1.length = 1 := by
    decide +kernel
  rw [nothing, one] at missed
  cases missed

end SecureMsg.Audit
