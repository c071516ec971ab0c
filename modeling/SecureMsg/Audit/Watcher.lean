/-
# Audit.Watcher — the loop of `run`

Text is appended to one of the two watched logs, and the loop wakes up: it reads
the log line by line to its end, parses each line and submits the events.  An
exception of a parser is none the loop handles (`except OSError`), so it ends the
run.  `submit_event` catches what the chain throws at it.

The parsers are an argument of the system; what a host tells them may change from
one wake-up to the next.  `run_alone` says what comes of one log.
`every_line_processed_iff`: the loop gets through a run exactly if no line is one
its parser raises on.
-/
import SecureMsg.Theory.Lines
import SecureMsg.Theory.Run
import SecureMsg.Audit.Parsers
import Mathlib.Logic.Function.Basic

namespace SecureMsg.Audit

open SecureMsg.Theory

set_option autoImplicit false

/-! ## The loop -/

abbrev Parser := String → Except Raised (Option AuditEvent)

/-- `for line in iter(watched_file.readline, "")`: the events submitted, and the
exception that ended the loop. -/
def processLines (parse : Parser) : List (List Char) → List AuditEvent × Option Raised
  | [] => ([], none)
  | line :: lines =>
      match parse (String.ofList line) with
      | .error e => ([], some e)
      | .ok none => processLines parse lines
      | .ok (some event) => (event :: (processLines parse lines).1, (processLines parse lines).2)

/-- What is appended to a log, and the host as the wake-up finds it: one host for all of its
lines, although `pid_to_name` reads `/proc` anew at each. -/
structure Arrival where
  source : Source
  text : List Char
  host : Host

/-- `unread` is what a log has past the position of its reader. -/
structure Watcher where
  unread : Source → List Char := fun _ => []
  submitted : List AuditEvent := []
  stopped : Option Raised := none

variable (parsers : Host → Source → Parser)

/-- One wake-up; a run that has ended does nothing more. -/
def wake (watcher : Watcher) (arrival : Arrival) : Watcher :=
  match watcher.stopped with
  | some _ => watcher
  | none =>
      let lines := readlines (watcher.unread arrival.source ++ arrival.text)
      let (events, raised) := processLines (parsers arrival.host arrival.source) lines
      { unread := Function.update watcher.unread arrival.source []
        submitted := watcher.submitted ++ events
        stopped := raised }

/-- `run`, once the logs are open: their readers stand at the end. -/
def watch : System Watcher Arrival := ⟨{}, wake parsers⟩

/-! ## Lines in a row -/

section Lines

variable {parse : Parser} {lines more : List (List Char)}

theorem processLines_append : processLines parse (lines ++ more) =
    match processLines parse lines with
    | (events, some e) => (events, some e)
    | (events, none) => (events ++ (processLines parse more).1, (processLines parse more).2) := by
  induction lines with
  | nil => rfl
  | cons line lines ih =>
      rw [List.cons_append, processLines, processLines]
      cases parse (String.ofList line) with
      | error e => rfl
      | ok result =>
          cases result with
          | none => exact ih
          | some event =>
              dsimp only
              rw [ih]
              rcases processLines parse lines with ⟨events, _ | e⟩
              · rfl
              · rfl

/-- The event of a line, if it has one. -/
def eventOf (parse : Parser) (line : List Char) : Option AuditEvent :=
  match parse (String.ofList line) with
  | .ok result => result
  | .error _ => none

/-- Without an exception every line has had its event submitted. -/
theorem processLines_of_none (quiet : ∀ line ∈ lines, ∀ e, parse (String.ofList line) ≠ .error e) :
    processLines parse lines = (lines.filterMap (eventOf parse), none) := by
  induction lines with
  | nil => rfl
  | cons line lines ih =>
      have onRest := ih fun other listed => quiet other (List.mem_cons_of_mem _ listed)
      rw [processLines]
      cases parsed : parse (String.ofList line) with
      | error e => exact absurd parsed (quiet line List.mem_cons_self e)
      | ok result =>
          cases result with
          | none =>
              have noEvent : eventOf parse line = none := by rw [eventOf, parsed]
              rw [List.filterMap_cons_none noEvent]
              exact onRest
          | some event =>
              have isEvent : eventOf parse line = some event := by rw [eventOf, parsed]
              rw [List.filterMap_cons_some isEvent, onRest]

theorem processLines_stopped :
    (processLines parse lines).2 = none ↔
      ∀ line ∈ lines, ∀ e, parse (String.ofList line) ≠ .error e := by
  constructor
  · intro quiet
    induction lines with
    | nil => exact fun line listed => absurd listed List.not_mem_nil
    | cons line lines ih =>
        rw [processLines] at quiet
        cases parsed : parse (String.ofList line) with
        | error e =>
            rw [parsed] at quiet
            cases quiet
        | ok result =>
            rw [parsed] at quiet
            have onRest := ih (by cases result with | none => exact quiet | some event => exact quiet)
            intro other listed e
            rcases List.mem_cons.mp listed with rfl | later
            · rw [parsed]
              exact fun raised => by cases raised
            · exact onRest other later e
  · intro quiet
    rw [processLines_of_none quiet]

end Lines

/-! ## Runs -/

section Runs

variable {parsers} {arrivals : List Arrival}

theorem wake_stopped {watcher : Watcher} {arrival : Arrival} {e : Raised}
    (ended : watcher.stopped = some e) : wake parsers watcher arrival = watcher := by
  unfold wake
  rw [ended]

theorem wake_running {watcher : Watcher} {arrival : Arrival} (running : watcher.stopped = none)
    (nothing : watcher.unread arrival.source = []) :
    wake parsers watcher arrival =
      { unread := Function.update watcher.unread arrival.source []
        submitted := watcher.submitted ++
          (processLines (parsers arrival.host arrival.source) (readlines arrival.text)).1
        stopped :=
          (processLines (parsers arrival.host arrival.source) (readlines arrival.text)).2 } := by
  unfold wake
  rw [running]
  simp only [nothing, List.nil_append]

/-- A running loop has read everything. -/
theorem nothing_unread (running : ((watch parsers).run arrivals).stopped = none)
    (source : Source) : ((watch parsers).run arrivals).unread source = [] := by
  refine (watch parsers).invariant (P := fun watcher => watcher.stopped = none →
    ∀ source, watcher.unread source = []) ?_ ?_ arrivals running source
  · exact fun _ _ => rfl
  · intro watcher arrival allRead running source
    cases ended : watcher.stopped with
    | some e =>
        have same : (watch parsers).step watcher arrival = watcher := wake_stopped ended
        rw [same, ended] at running
        cases running
    | none =>
        have step : (watch parsers).step watcher arrival = _ :=
          wake_running ended (allRead ended arrival.source)
        rw [step]
        by_cases same : source = arrival.source
        · rw [same]
          exact Function.update_self _ _ _
        · exact (Function.update_of_ne same _ _).trans (allRead ended source)

/-- What a wake-up does to a loop that runs. -/
theorem run_snoc_running (running : ((watch parsers).run arrivals).stopped = none)
    (arrival : Arrival) :
    ((watch parsers).run (arrivals ++ [arrival])).submitted =
        ((watch parsers).run arrivals).submitted ++
          (processLines (parsers arrival.host arrival.source) (readlines arrival.text)).1 ∧
      ((watch parsers).run (arrivals ++ [arrival])).stopped =
        (processLines (parsers arrival.host arrival.source) (readlines arrival.text)).2 := by
  rw [System.run_snoc]
  have step : (watch parsers).step ((watch parsers).run arrivals) arrival = _ :=
    wake_running running (nothing_unread running arrival.source)
  rw [step]
  exact ⟨rfl, rfl⟩

theorem run_snoc_stopped {e : Raised} (ended : ((watch parsers).run arrivals).stopped = some e)
    (arrival : Arrival) :
    (watch parsers).run (arrivals ++ [arrival]) = (watch parsers).run arrivals := by
  rw [System.run_snoc]
  exact wake_stopped ended

/-- No line that arrives makes its parser raise. -/
def Quiet (parsers : Host → Source → Parser) (arrivals : List Arrival) : Prop :=
  ∀ arrival ∈ arrivals, ∀ line ∈ readlines arrival.text, ∀ e,
    parsers arrival.host arrival.source (String.ofList line) ≠ .error e

/-- The events of all lines that arrive, those that raise left out. -/
def events (parsers : Host → Source → Parser) (arrivals : List Arrival) : List AuditEvent :=
  arrivals.flatMap fun arrival =>
    (readlines arrival.text).filterMap (eventOf (parsers arrival.host arrival.source))

theorem quiet_snoc {arrival : Arrival} : Quiet parsers (arrivals ++ [arrival]) ↔
    Quiet parsers arrivals ∧ ∀ line ∈ readlines arrival.text, ∀ e,
      parsers arrival.host arrival.source (String.ofList line) ≠ .error e := by
  constructor
  · intro quiet
    exact ⟨fun other listed => quiet other (List.mem_append_left _ listed),
      quiet arrival (List.mem_append_right _ (List.mem_singleton_self _))⟩
  · rintro ⟨before, last⟩ other listed
    rcases List.mem_append.mp listed with old | new
    · exact before other old
    · rw [List.mem_singleton.mp new]
      exact last

/-- The loop goes on exactly while nothing raises. -/
theorem running_iff : ((watch parsers).run arrivals).stopped = none ↔ Quiet parsers arrivals := by
  induction arrivals using List.reverseRecOn with
  | nil => exact iff_of_true rfl fun arrival listed => absurd listed List.not_mem_nil
  | append_singleton arrivals arrival ih =>
      rw [quiet_snoc, ← ih]
      cases ended : ((watch parsers).run arrivals).stopped with
      | some e =>
          rw [run_snoc_stopped ended, ended]
          exact iff_of_false (Option.some_ne_none e) fun both => Option.some_ne_none e both.1
      | none =>
          rw [(run_snoc_running ended arrival).2, processLines_stopped]
          exact (and_iff_right rfl).symm

theorem submitted_of_quiet (quiet : Quiet parsers arrivals) :
    ((watch parsers).run arrivals).submitted = events parsers arrivals := by
  induction arrivals using List.reverseRecOn with
  | nil => rfl
  | append_singleton arrivals arrival ih =>
      obtain ⟨before, last⟩ := quiet_snoc.mp quiet
      rw [(run_snoc_running (running_iff.mpr before) arrival).1, ih before,
        processLines_of_none last]
      simp [events]

end Runs

/-! ## Lines that end the run -/

/-- Nothing has ended the loop, and every event has been submitted. -/
structure AllProcessed (arrivals : List Arrival) : Prop where
  running : ((watch parser).run arrivals).stopped = none
  submitted : ((watch parser).run arrivals).submitted = events parser arrivals

/-- No line is one its parser raises on. -/
def NoneRaises (arrivals : List Arrival) : Prop :=
  ∀ arrival ∈ arrivals, ∀ line ∈ readlines arrival.text,
    ¬ Raises arrival.host arrival.source (String.ofList line)

theorem noneRaises_iff {arrivals : List Arrival} : NoneRaises arrivals ↔ Quiet parser arrivals := by
  refine forall_congr' fun arrival => forall_congr' fun _ => forall_congr' fun line =>
    forall_congr' fun _ => ?_
  rw [← parser_raises_iff, not_exists]

/-- **The loop processes every line exactly if none is one its parser raises on.** -/
theorem every_line_processed_iff (arrivals : List Arrival) :
    AllProcessed arrivals ↔ NoneRaises arrivals := by
  rw [noneRaises_iff]
  constructor
  · exact fun all => running_iff.mp all.running
  · exact fun quiet => ⟨running_iff.mpr quiet, submitted_of_quiet quiet⟩

/-- A canary record without pid and uid, and then a read of the canary. -/
def malformedFirst : List Arrival :=
  [⟨.auditd, "type=SYSCALL key=\"canary_read\"\n".toList, bareHost⟩,
    ⟨.auditd, "type=SYSCALL pid=12 uid=0 key=\"canary_read\"\n".toList, bareHost⟩]

/-- The read goes unreported. -/
theorem malformed_line_stops : ¬ ∀ arrivals, AllProcessed arrivals := by
  intro all
  have stopped : ((watch parser).run malformedFirst).stopped.isNone = false := by decide +kernel
  rw [(all malformedFirst).running] at stopped
  cases stopped

end SecureMsg.Audit
