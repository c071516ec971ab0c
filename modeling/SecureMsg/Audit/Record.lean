/-
# Audit.Record — what is read from an audit record

A record as the kernel writes it: unquoted fields, `comm` and `exe` in quotes,
further unquoted fields, and the rule's `key` in quotes.  Names are made of word
characters, no unquoted value of the first part has a `=`, and `pid` and `uid`
are there once, with a number.

The searches for `pid` and `uid` stop at the fields of these names
(`search_field`).  The search for the key stops at the first `key="`, and that
can be the end of what a process calls itself (`search_key`): such a name hides
the key, and no other does (`reads_right_iff`).
-/
import Mathlib.Data.Bool.AllAny
import SecureMsg.Audit.Parsers

namespace SecureMsg.Audit

open SecureMsg.Theory

set_option autoImplicit false

/-! ## Records -/

structure Field where
  name : List Char
  value : List Char
  deriving DecidableEq

def Field.text (field : Field) : List Char := field.name ++ '=' :: field.value

/-- A field whose value stands in double quotes. -/
def quoted (name value : List Char) : List Char := name ++ '=' :: '"' :: value ++ ['"']

structure AuditRecord (unicode : Unicode) where
  leading : List Field
  pid : List Char
  uid : List Char
  comm : List Char
  exe : List Char
  further : List Field
  key : List Char
  /-- The newline, if the line has one. -/
  ending : List Char
  named : ∀ field ∈ leading, ∀ c ∈ field.name, unicode.isWord c = true
  plain : ∀ field ∈ leading, ∀ c ∈ field.value, c ≠ ' ' ∧ c ≠ '"' ∧ c ≠ '='
  pidOnce : leading.filter (fun field => field.name = ['p', 'i', 'd']) = [⟨['p', 'i', 'd'], pid⟩]
  uidOnce : leading.filter (fun field => field.name = ['u', 'i', 'd']) = [⟨['u', 'i', 'd'], uid⟩]
  pidNumeric : pid ≠ [] ∧ ∀ c ∈ pid, unicode.isDecimal c = true
  uidNumeric : uid ≠ [] ∧ ∀ c ∈ uid, unicode.isDecimal c = true
  commQuoted : ∀ c ∈ comm, c ≠ ' ' ∧ c ≠ '"'
  exeQuoted : ∀ c ∈ exe, c ≠ ' ' ∧ c ≠ '"'
  furtherPlain : ∀ field ∈ further, ∀ c ∈ field.name ++ field.value, c ≠ ' ' ∧ c ≠ '"'
  keyQuoted : '"' ∉ key
  endingPlain : '"' ∉ ending

variable {unicode : Unicode}

/-- The fields that precede `comm`, each with the space after it. -/
def leadingText (fields : List Field) : List Char :=
  fields.flatMap fun field => field.text ++ [' ']

def furtherText (fields : List Field) : List Char := fields.flatMap fun field => ' ' :: field.text

namespace AuditRecord

def text (record : AuditRecord unicode) : List Char :=
  leadingText record.leading ++ quoted ['c', 'o', 'm', 'm'] record.comm ++
    ' ' :: quoted ['e', 'x', 'e'] record.exe ++ furtherText record.further ++
    ' ' :: quoted ['k', 'e', 'y'] record.key ++ record.ending

def line (record : AuditRecord unicode) : String := String.ofList record.text

end AuditRecord

/-- The parser returns what the record says, if its key is watched, and else `None`. -/
structure ReadsRight (host : Host) (record : AuditRecord host.unicode) : Prop where
  watched : ∀ path, auditdKeyMap.get? (String.ofList record.key) = some path →
    parseAuditdEvent host record.line = do
      let agent ← pidToName host (String.ofList record.pid)
      return some ⟨path, .str (codePoints (String.ofList record.uid)), .str (codePoints agent)⟩
  unwatched : auditdKeyMap.get? (String.ofList record.key) = none →
    parseAuditdEvent host record.line = .ok none

/-! ## The numeric fields -/

section Numeric

variable {word value rest left : List Char} {before : Option Char} {fields : List Field}

theorem not_word {c : Char} (small : c.toNat < 128) (other : (c.isAlphanum || c = '_') = false) :
    unicode.isWord c = false := (unicode.isWord_ascii small).trans other

/-- A word of word characters does not end a part, at a boundary, unless it is the name. -/
theorem not_endsIn {name : List Char} (isWord : ∀ c ∈ word, unicode.isWord c = true)
    (some_ : word ≠ []) (isName : ∀ c ∈ name, unicode.isWord c = true) (other : name ≠ word)
    (start : (left.getLast?.or before).any unicode.isWord = false) :
    ¬ EndsIn unicode true before word (left ++ name) := by
  rintro ⟨skipped, same, bounded⟩
  have outside : (skipped.getLast?.or before).any unicode.isWord = false := by
    have atEdge := bounded rfl
    obtain ⟨c, word', rfl⟩ := List.exists_cons_of_ne_nil some_
    simpa [atBoundary, isWord c List.mem_cons_self] using atEdge
  rcases List.append_eq_append_iff.mp same with ⟨middle, rfl, isName'⟩ | ⟨middle, rfl, isWord'⟩
  · cases last : middle.getLast? with
    | none =>
        rw [List.getLast?_eq_none_iff.mp last, List.nil_append] at isName'
        exact other isName'
    | some c =>
        have inName : c ∈ name := isName' ▸ List.mem_append_left _ (List.mem_of_getLast? last)
        rw [List.getLast?_append, last] at outside
        rw [← Bool.not_eq_true] at outside
        exact outside (isName c inName)
  · cases last : middle.getLast? with
    | none =>
        rw [List.getLast?_eq_none_iff.mp last, List.nil_append] at isWord'
        exact other isWord'.symm
    | some c =>
        have inWord : c ∈ word := isWord' ▸ List.mem_append_left _ (List.mem_of_getLast? last)
        rw [List.getLast?_append, last] at start
        rw [← Bool.not_eq_true] at start
        exact start (isWord c inWord)

/-- **The search for a name stops at its field.** -/
theorem search_field (isWord : ∀ c ∈ word, unicode.isWord c = true) (some_ : word ≠ [])
    (numeric : value ≠ [] ∧ ∀ c ∈ value, unicode.isDecimal c = true)
    (named : ∀ field ∈ fields, ∀ c ∈ field.name, unicode.isWord c = true)
    (plain : ∀ field ∈ fields, '=' ∉ field.value) (others : ∀ field ∈ fields, field.name ≠ word)
    (noMark : '=' ∉ left) (start : (left.getLast?.or before).any unicode.isWord = false) :
    searchFrom unicode (wordPattern true word '=' [.run unicode.isDecimal]) before
        (left ++ (leadingText fields ++ (word ++ '=' :: (value ++ ' ' :: rest)))) =
      some [value] := by
  have equals : unicode.isWord '=' = false := not_word (by decide) (by decide)
  have blank : unicode.isWord ' ' = false := not_word (by decide) (by decide)
  have noEquals : ∀ {name : List Char}, (∀ c ∈ name, unicode.isWord c = true) → '=' ∉ name := by
    intro name isName inside
    rw [isName '=' inside] at equals
    cases equals
  induction fields generalizing left before with
  | nil =>
      have noDigit : unicode.isDecimal ' ' = false :=
        (unicode.decimal_ascii ' ' (by decide)).trans (by decide)
      have longest : (value ++ ' ' :: rest).takeWhile unicode.isDecimal = value := by
        rw [List.takeWhile_append_of_pos numeric.2,
          List.takeWhile_cons_of_neg (by simp [noDigit]), List.append_nil]
      have isMatch : matchAt unicode [.run unicode.isDecimal] (some '=') (value ++ ' ' :: rest) =
          some [value] := by
        rw [matchAt_run, longest, if_neg numeric.1]
      have ends : EndsIn unicode true before word (left ++ word) := by
        refine ⟨left, rfl, fun _ => ?_⟩
        obtain ⟨c, word', rfl⟩ := List.exists_cons_of_ne_nil some_
        simp [atBoundary, start, isWord c List.mem_cons_self]
      have found := searchFrom_found (noEquals isWord)
        (fun inside => (List.mem_append.mp inside).elim noMark (noEquals isWord)) some_ ends isMatch
      simpa [leadingText] using found
  | cons field fields ih =>
      have isName := named field List.mem_cons_self
      have noMatch := not_endsIn isWord some_ isName (others field List.mem_cons_self) start
      have shape : left ++ (leadingText (field :: fields) ++ (word ++ '=' :: (value ++ ' ' :: rest))) =
          (left ++ field.name) ++ '=' :: ((field.value ++ [' ']) ++ (leadingText fields ++
            (word ++ '=' :: (value ++ ' ' :: rest)))) := by
        simp [leadingText, Field.text]
      rw [shape, searchFrom_skip (noEquals isWord)
        (fun inside => (List.mem_append.mp inside).elim noMark (noEquals isName)) some_
        fun ends => absurd ends noMatch]
      refine ih (fun other listed => named other (List.mem_cons_of_mem _ listed))
        (fun other listed => plain other (List.mem_cons_of_mem _ listed))
        (fun other listed => others other (List.mem_cons_of_mem _ listed)) ?_ ?_
      · intro inside
        rcases List.mem_append.mp inside with inValue | isBlank
        · exact plain field List.mem_cons_self inValue
        · exact absurd (List.mem_singleton.mp isBlank) (by decide)
      · simp [blank]

/-- The same for a line of records: the field is among the leading ones, once. -/
theorem search_leading (isWord : ∀ c ∈ word, unicode.isWord c = true) (some_ : word ≠ [])
    (numeric : value ≠ [] ∧ ∀ c ∈ value, unicode.isDecimal c = true)
    (named : ∀ field ∈ fields, ∀ c ∈ field.name, unicode.isWord c = true)
    (plain : ∀ field ∈ fields, '=' ∉ field.value)
    (once : fields.filter (fun field => field.name = word) = [⟨word, value⟩]) :
    search unicode (wordPattern true word '=' [.run unicode.isDecimal]) (leadingText fields ++ rest) =
      some [value] := by
  obtain ⟨earlier, later, rfl, others, -, -⟩ := List.filter_eq_cons_iff.mp once
  have shape : leadingText (earlier ++ ⟨word, value⟩ :: later) ++ rest =
      [] ++ (leadingText earlier ++ (word ++ '=' :: (value ++ ' ' :: (leadingText later ++ rest)))) := by
    simp [leadingText, Field.text]
  rw [search, shape]
  refine search_field isWord some_ numeric
    (fun field listed => named field (List.mem_append_left _ listed))
    (fun field listed => plain field (List.mem_append_left _ listed)) ?_ (List.not_mem_nil) rfl
  intro field listed same
  exact others field listed (decide_eq_true same)

end Numeric

/-! ## The key -/

section Key

/-- A part between two quotes. -/
theorem endsIn_suffix {word part : List Char} {before : Option Char} :
    EndsIn unicode false before word part ↔ word <:+ part := by
  constructor
  · rintro ⟨left, rfl, -⟩
    exact List.suffix_append left word
  · rintro ⟨left, rfl⟩
    exact ⟨left, rfl, fun isAnchored => absurd isAnchored Bool.false_ne_true⟩

/-- What precedes the quote, in the search for the key. -/
def keyMark : List Char := ['k', 'e', 'y', '=']

def keyItems : Pattern := [.run fun c => c ≠ '"', .char '"']

theorem keyPattern_eq : auditdKeyPattern = wordPattern false keyMark '"' keyItems := rfl

theorem match_keyItems {part rest : List Char} {before : Option Char} (noQuote : '"' ∉ part) :
    matchAt unicode keyItems before (part ++ '"' :: rest) =
      if part = [] then none else some [part] := by
  refine matchAt_run_char (by simp) fun c inside => ?_
  exact decide_eq_true fun same => noQuote (same ▸ inside)

section Search

variable {part rest : List Char} {before : Option Char}

theorem noQuote_keyMark : '"' ∉ keyMark := by decide

theorem keyMark_ne_nil : keyMark ≠ [] := by decide

/-- A part that does not end in `key=` is passed over, with its quote. -/
theorem search_skip (noQuote : '"' ∉ part) (other : ¬ keyMark <:+ part) :
    searchFrom unicode auditdKeyPattern before (part ++ '"' :: rest) =
      searchFrom unicode auditdKeyPattern (some '"') rest :=
  searchFrom_skip noQuote_keyMark noQuote keyMark_ne_nil fun ends =>
    absurd (endsIn_suffix.mp ends) other

/-- After a part that does, the search takes what the next quotes enclose. -/
theorem search_take {next : List Char} (noQuote : '"' ∉ part) (ends : keyMark <:+ part)
    (noQuote' : '"' ∉ next) (some_ : next ≠ []) :
    searchFrom unicode auditdKeyPattern before (part ++ '"' :: (next ++ '"' :: rest)) =
      some [next] := by
  refine searchFrom_found noQuote_keyMark noQuote keyMark_ne_nil (endsIn_suffix.mpr ends) ?_
  exact (match_keyItems noQuote').trans (if_neg some_)

end Search

/-- The record, cut at its quotes. -/
theorem text_eq (record : AuditRecord unicode) : record.text =
    (leadingText record.leading ++ ['c', 'o', 'm', 'm', '=']) ++ '"' :: (record.comm ++ '"' ::
      ([' ', 'e', 'x', 'e', '='] ++ '"' :: (record.exe ++ '"' ::
        ((furtherText record.further ++ ' ' :: keyMark) ++ '"' ::
          (record.key ++ '"' :: record.ending))))) := by
  simp [AuditRecord.text, quoted, keyMark]

theorem noQuote_leading (record : AuditRecord unicode) : '"' ∉ leadingText record.leading := by
  intro inside
  obtain ⟨field, listed, inField⟩ := List.mem_flatMap.mp inside
  rcases List.mem_append.mp inField with inText | isBlank
  · rcases List.mem_append.mp inText with inName | inRest
    · have isWord := record.named field listed '"' inName
      rw [not_word (by decide) (by decide)] at isWord
      cases isWord
    · rcases List.mem_cons.mp inRest with isEquals | inValue
      · exact absurd isEquals (by decide)
      · exact (record.plain field listed '"' inValue).2.1 rfl
  · exact absurd (List.mem_singleton.mp isBlank) (by decide)

theorem noQuote_further (record : AuditRecord unicode) : '"' ∉ furtherText record.further := by
  intro inside
  obtain ⟨field, listed, inField⟩ := List.mem_flatMap.mp inside
  have plain := record.furtherPlain field listed
  rcases List.mem_cons.mp inField with isBlank | inText
  · exact absurd isBlank (by decide)
  · rcases List.mem_append.mp inText with inName | inRest
    · exact (plain '"' (List.mem_append_left _ inName)).2 rfl
    · rcases List.mem_cons.mp inRest with isEquals | inValue
      · exact absurd isEquals (by decide)
      · exact (plain '"' (List.mem_append_right _ inValue)).2 rfl

/-- A suffix of the whole is one of the last part, if that is long enough. -/
theorem not_suffix {part ending : List Char} (long : keyMark.length ≤ ending.length)
    (other : ¬ keyMark <:+ ending) : ¬ keyMark <:+ part ++ ending := fun inside =>
  other (List.suffix_of_suffix_length_le inside (List.suffix_append part ending) long)

/-- **Where the search for the key stops.** -/
theorem search_key (record : AuditRecord unicode) :
    search unicode auditdKeyPattern record.text =
      if keyMark <:+ record.comm then some [[' ', 'e', 'x', 'e', '=']]
      else if keyMark <:+ record.exe then some [furtherText record.further ++ ' ' :: keyMark]
      else if record.key = [] then none
      else some [record.key] := by
  have commPlain : '"' ∉ record.comm := fun inside => (record.commQuoted _ inside).2 rfl
  have exePlain : '"' ∉ record.exe := fun inside => (record.exeQuoted _ inside).2 rfl
  have noQuote : '"' ∉ furtherText record.further ++ ' ' :: keyMark := by
    intro inside
    rcases List.mem_append.mp inside with inFurther | inMark
    · exact noQuote_further record inFurther
    · exact absurd inMark (by decide)
  have ends : keyMark <:+ furtherText record.further ++ ' ' :: keyMark :=
    (List.suffix_cons ' ' keyMark).trans (List.suffix_append _ _)
  rw [search, text_eq, search_skip ?start (not_suffix (by decide) (by decide))]
  case start =>
    intro inside
    rcases List.mem_append.mp inside with inLeading | inName
    · exact noQuote_leading record inLeading
    · exact absurd inName (by decide)
  by_cases hides : keyMark <:+ record.comm
  · rw [if_pos hides]
    exact search_take commPlain hides (by decide) (by decide)
  · rw [if_neg hides, search_skip commPlain hides, search_skip (by decide) (by decide)]
    by_cases hides' : keyMark <:+ record.exe
    · rw [if_pos hides']
      exact search_take exePlain hides' noQuote (by simp)
    · rw [if_neg hides', search_skip exePlain hides']
      by_cases empty : record.key = []
      · rw [if_pos empty, empty, keyPattern_eq,
          searchFrom_skip noQuote_keyMark noQuote keyMark_ne_nil fun _ =>
            (match_keyItems List.not_mem_nil).trans (if_pos rfl)]
        rw [← keyPattern_eq, search_skip List.not_mem_nil (by decide), keyPattern_eq]
        exact searchFrom_none record.endingPlain
      · rw [if_neg empty]
        exact search_take noQuote ends record.keyQuoted empty

end Key

/-! ## What the parser makes of a record -/

section Reading

variable {host : Host} (record : AuditRecord host.unicode)

theorem key_group : searchGroup host auditdKeyPattern record.line =
    if keyMark <:+ record.comm then some (String.ofList [' ', 'e', 'x', 'e', '='])
    else if keyMark <:+ record.exe then
      some (String.ofList (furtherText record.further ++ ' ' :: keyMark))
    else if record.key = [] then none
    else some (String.ofList record.key) := by
  rw [searchGroup, AuditRecord.line, String.toList_ofList, search_key]
  split
  · rfl
  · split
    · rfl
    · split
      · rfl
      · rfl

/-- The two numeric fields have the same pattern and the same place. -/
theorem numeric_group {word value : List Char} (isWord : ∀ c ∈ word, host.unicode.isWord c = true)
    (some_ : word ≠ []) (numeric : value ≠ [] ∧ ∀ c ∈ value, host.unicode.isDecimal c = true)
    (once : record.leading.filter (fun field => field.name = word) = [⟨word, value⟩]) :
    searchGroup host (wordPattern true word '=' [.run host.unicode.isDecimal]) record.line =
      some (String.ofList value) := by
  have plain : ∀ field ∈ record.leading, '=' ∉ field.value := fun field listed inside =>
    (record.plain field listed '=' inside).2.2 rfl
  obtain ⟨rest, isText⟩ : ∃ rest, record.text = leadingText record.leading ++ rest := by
    simp only [AuditRecord.text, List.append_assoc]
    exact ⟨_, rfl⟩
  rw [searchGroup, AuditRecord.line, String.toList_ofList, isText,
    search_leading isWord some_ numeric record.named plain once]
  rfl

theorem isWord_of_letters {word : List Char}
    (letters : ∀ c ∈ word, c.toNat < 128 ∧ c.isAlphanum = true) :
    ∀ c ∈ word, host.unicode.isWord c = true := by
  intro c inside
  obtain ⟨small, isLetter⟩ := letters c inside
  rw [host.unicode.isWord_ascii small, isLetter]
  rfl

theorem pidPattern_eq (unicode : Unicode) : auditdPidPattern unicode =
    wordPattern true ['p', 'i', 'd'] '=' [.run unicode.isDecimal] := rfl

theorem uidPattern_eq (unicode : Unicode) : auditdUidPattern unicode =
    wordPattern true ['u', 'i', 'd'] '=' [.run unicode.isDecimal] := rfl

theorem pid_group : searchGroup host (auditdPidPattern host.unicode) record.line =
    some (String.ofList record.pid) := by
  rw [pidPattern_eq]
  exact numeric_group record (isWord_of_letters (List.all_iff_forall_prop.mp (by decide)))
    (by decide) record.pidNumeric
    record.pidOnce

theorem uid_group : searchGroup host (auditdUidPattern host.unicode) record.line =
    some (String.ofList record.uid) := by
  rw [uidPattern_eq]
  exact numeric_group record (isWord_of_letters (List.all_iff_forall_prop.mp (by decide)))
    (by decide) record.uidNumeric
    record.uidOnce

theorem no_watched_blank {key path : String} (watched : auditdKeyMap.get? key = some path) :
    ' ' ∉ key.toList := by
  have all : ∀ key ∈ auditdKeyMap.keys, ' ' ∉ key.toList := by decide
  exact all key (mem_keyMap.mp ⟨path, watched⟩)

/-- A name that ends in `key=` hides the key: the line is skipped. -/
theorem hidden_unwatched (hides : keyMark <:+ record.comm ∨ keyMark <:+ record.exe) :
    parseAuditdEvent host record.line = .ok none := by
  refine parseAuditdEvent_unwatched fun key found => ?_
  have blank : ' ' ∈ key.toList := by
    rw [key_group] at found
    by_cases byComm : keyMark <:+ record.comm
    · rw [if_pos byComm] at found
      cases found
      decide
    · rw [if_neg byComm, if_pos (hides.resolve_left byComm)] at found
      cases found
      simp
  cases watched : auditdKeyMap.get? key with
  | none => rfl
  | some path => exact absurd blank (no_watched_blank watched)

/-- Otherwise the key is found, unless it is empty. -/
theorem key_found (shows : ¬ keyMark <:+ record.comm ∧ ¬ keyMark <:+ record.exe) :
    searchGroup host auditdKeyPattern record.line =
      if record.key = [] then none else some (String.ofList record.key) := by
  rw [key_group, if_neg shows.1, if_neg shows.2]

theorem readsRight_of_shown (shows : ¬ keyMark <:+ record.comm ∧ ¬ keyMark <:+ record.exe) :
    ReadsRight host record where
  watched := by
    intro path watched
    have some_ : record.key ≠ [] := by
      intro empty
      have none_ : auditdKeyMap.get? (String.ofList []) = none := by decide
      rw [empty, none_] at watched
      cases watched
    have found := key_found record shows
    rw [if_neg some_] at found
    exact parseAuditdEvent_read found watched (pid_group record) (uid_group record)
  unwatched := by
    intro unwatched
    refine parseAuditdEvent_unwatched fun key found => ?_
    rw [key_found record shows] at found
    split at found
    · cases found
    · cases found
      exact unwatched

/-- **A record is read right exactly when no process name hides a watched key.** -/
theorem reads_right_iff (host : Host) (record : AuditRecord host.unicode) :
    ReadsRight host record ↔ (String.ofList record.key ∈ auditdKeyMap.keys →
      ¬ keyMark <:+ record.comm ∧ ¬ keyMark <:+ record.exe) := by
  constructor
  · intro right inMap
    obtain ⟨path, watched⟩ := mem_keyMap.mpr inMap
    refine not_or.mp fun hides => ?_
    have read := right.watched path watched
    rw [hidden_unwatched record hides] at read
    cases named : pidToName host (String.ofList record.pid) with
    | ok agent =>
        rw [named] at read
        cases read
    | error e =>
        rw [named] at read
        cases read
  · intro shows
    by_cases inMap : String.ofList record.key ∈ auditdKeyMap.keys
    · exact readsRight_of_shown record (shows inMap)
    · have unwatched : auditdKeyMap.get? (String.ofList record.key) = none := by
        refine Option.eq_none_iff_forall_ne_some.mpr fun path watched => ?_
        exact inMap (mem_keyMap.mp ⟨path, watched⟩)
      by_cases hides : keyMark <:+ record.comm ∨ keyMark <:+ record.exe
      · refine ⟨fun path watched => ?_, fun _ => hidden_unwatched record hides⟩
        rw [unwatched] at watched
        cases watched
      · exact readsRight_of_shown record (not_or.mp hides)

end Reading

/-- A process that calls itself `key=` reads the canary. -/
def hiddenRead : AuditRecord bareHost.unicode where
  leading :=
    [⟨"type".toList, "SYSCALL".toList⟩, ⟨"msg".toList, "audit(1234567890.000:1):".toList⟩,
      ⟨"ppid".toList, "7".toList⟩, ⟨"pid".toList, "1234".toList⟩, ⟨"auid".toList, "5".toList⟩,
      ⟨"uid".toList, "1000".toList⟩]
  pid := "1234".toList
  uid := "1000".toList
  comm := "key=".toList
  exe := "/usr/bin/cat".toList
  further := [⟨"subj".toList, "unconfined".toList⟩]
  key := "canary_read".toList
  ending := ['\n']
  named := by simp only [← List.all_eq_true]; decide
  plain := by simp only [← List.all_iff_forall_prop]; decide
  pidOnce := by decide
  uidOnce := by decide
  pidNumeric := ⟨by decide, List.all_eq_true.mp (by decide)⟩
  uidNumeric := ⟨by decide, List.all_eq_true.mp (by decide)⟩
  commQuoted := List.all_iff_forall_prop.mp (by decide)
  exeQuoted := List.all_iff_forall_prop.mp (by decide)
  furtherPlain := by simp only [← List.all_iff_forall_prop]; decide
  keyQuoted := by decide
  endingPlain := by decide

/-- No event is returned. -/
theorem canary_read_hidden :
    ¬ ∀ (host : Host) (record : AuditRecord host.unicode), ReadsRight host record := by
  intro right
  have watched := (right bareHost hiddenRead).watched "/home/student/CyberSec-Backend/.env" (by decide)
  rw [hidden_unwatched hiddenRead (by decide)] at watched
  cases watched

end SecureMsg.Audit
