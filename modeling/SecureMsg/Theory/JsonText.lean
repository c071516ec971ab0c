/-
# Theory.JsonText — writing a JSON text

`dumps` writes a value in ASCII, the way a lenient reader finds it easiest: a
string has everything but printable ASCII escaped, what lies beyond the basic
plane as two surrogates; items and members are kept apart by a comma and a blank.

`loads_dumps`: what is written is read back, as deep as the reader goes.
`oneLine_dumps`: and it is a single line, whatever the texts in it hold.
-/
import SecureMsg.Theory.Json
import Mathlib.Data.List.Chain
import Mathlib.Data.List.Find
import Mathlib.Data.List.TakeWhile

namespace SecureMsg.Theory

set_option autoImplicit false

/-! ## Writing -/

/-- `"\\u{0:04x}".format(unit)` -/
def escapeUnit (unit : Nat) : List Char :=
  ['\\', 'u', Nat.digitChar (unit / 4096 % 16), Nat.digitChar (unit / 256 % 16),
    Nat.digitChar (unit / 16 % 16), Nat.digitChar (unit % 16)]

def highSurrogate (point : Nat) : Nat := 0xD800 + (point - 0x10000) / 1024 % 1024

def lowSurrogate (point : Nat) : Nat := 0xDC00 + (point - 0x10000) % 1024

/-- A code point inside a string. -/
def escape (point : Nat) : List Char :=
  if point = 34 then ['\\', '"']
  else if point = 92 then ['\\', '\\']
  else if point = 10 then ['\\', 'n']
  else if point = 13 then ['\\', 'r']
  else if point = 9 then ['\\', 't']
  else if point = 12 then ['\\', 'f']
  else if point = 8 then ['\\', 'b']
  else if 32 ≤ point ∧ point ≤ 126 then [Char.ofNat point]
  else if point < 0x10000 then escapeUnit point
  else escapeUnit (highSurrogate point) ++ escapeUnit (lowSurrogate point)

def quoted (text : CodePoints) : List Char := '"' :: (text.flatMap escape ++ ['"'])

/-- `repr(number)` -/
def writeInt : Int → List Char
  | .ofNat n => Nat.toDigits 10 n
  | .negSucc n => '-' :: Nat.toDigits 10 (n + 1)

mutual

/-- `json.dumps(value)` -/
def dumps : Json → List Char
  | .null => "null".toList
  | .bool true => "true".toList
  | .bool false => "false".toList
  | .int number => writeInt number
  | .float literal => literal
  | .str text => quoted text
  | .array [] => ['[', ']']
  | .array (item :: items) => '[' :: (dumps item ++ dumpsItems items)
  | .object [] => ['{', '}']
  | .object ((key, value) :: members) =>
      '{' :: (quoted key ++ ':' :: ' ' :: (dumps value ++ dumpsMembers members))

/-- The items after the first, and the end of the array. -/
def dumpsItems : List Json → List Char
  | [] => [']']
  | item :: items => ',' :: ' ' :: (dumps item ++ dumpsItems items)

def dumpsMembers : List (CodePoints × Json) → List Char
  | [] => ['}']
  | (key, value) :: members =>
      ',' :: ' ' :: (quoted key ++ ':' :: ' ' :: (dumps value ++ dumpsMembers members))

end

/-! ## What can be written and read back -/

def isHighSurrogate (point : Nat) : Bool := 0xD800 ≤ point && point < 0xDC00

def isLowSurrogate (point : Nat) : Bool := 0xDC00 ≤ point && point < 0xE000

/-- Two surrogates that make one code point would come back as that code point. -/
structure IsText (text : CodePoints) : Prop where
  bounded : ∀ point ∈ text, point < 0x110000
  unpaired : text.IsChain fun point next =>
    ¬ (isHighSurrogate point = true ∧ isLowSurrogate next = true)

/-- A value that nests containers `depth` deep, at most, and whose floats are literals. -/
inductive Writable : Nat → Json → Prop
  | null {depth : Nat} : Writable depth .null
  | bool {depth : Nat} (value : Bool) : Writable depth (.bool value)
  | int {depth : Nat} (number : Int)
      (short : (Nat.toDigits 10 number.natAbs).length ≤ intMaxStrDigits) :
      Writable depth (.int number)
  | float {depth : Nat} (literal : List Char)
      (isLiteral : tokenAt literal = (.constant (.float literal), literal.length)) :
      Writable depth (.float literal)
  | str {depth : Nat} (text : CodePoints) (isText : IsText text) : Writable depth (.str text)
  | array {depth : Nat} (items : List Json) (all : ∀ item ∈ items, Writable depth item) :
      Writable (depth + 1) (.array items)
  | object {depth : Nat} (members : List (CodePoints × Json))
      (keys : ∀ member ∈ members, IsText member.1)
      (values : ∀ member ∈ members, Writable depth member.2) :
      Writable (depth + 1) (.object members)

/-- No character is a surrogate. -/
theorem isText_codePoints (text : String) : IsText (codePoints text) := by
  have scalar : ∀ point ∈ codePoints text, point < 0xD800 ∨ 0xDFFF < point ∧ point < 0x110000 := by
    intro point listed
    obtain ⟨c, -, rfl⟩ := List.mem_map.mp listed
    exact c.valid
  constructor
  · intro point listed
    have isScalar := scalar point listed
    omega
  · generalize codePoints text = points at scalar
    induction points with
    | nil => exact List.IsChain.nil
    | cons point points ih =>
        have onPoints := ih fun other listed => scalar other (List.mem_cons_of_mem _ listed)
        refine List.isChain_cons.mpr ⟨fun next _ pair => ?_, onPoints⟩
        have isScalar := scalar point List.mem_cons_self
        have isHigh := pair.1
        simp only [isHighSurrogate, Bool.and_eq_true, decide_eq_true_eq] at isHigh
        omega

example : String.ofList (dumps (.object [(codePoints "a\n", .array [.int (-12), .null]),
    ([0x1F600], .str [34, 65])])) =
      "\x7b\"a\\n\": [-12, null], \"\\ud83d\\ude00\": \"\\\"A\"\x7d" := by decide +kernel

/-! ## Strings -/

/-- What the reader sees of a code point before it joins surrogates. -/
def units (point : Nat) : CodePoints :=
  if point < 0x10000 then [point] else [highSurrogate point, lowSurrogate point]

theorem highSurrogate_bounds (point : Nat) :
    0xD800 ≤ highSurrogate point ∧ highSurrogate point < 0xDC00 := by
  unfold highSurrogate
  omega

theorem lowSurrogate_bounds (point : Nat) :
    0xDC00 ≤ lowSurrogate point ∧ lowSurrogate point < 0xE000 := by
  unfold lowSurrogate
  omega

theorem hexValue_digit {n : Nat} (small : n < 16) : hexValue (Nat.digitChar n) = some n.toUInt8 :=
  (hexValue_digitChar n small).1

theorem hex4_unit {unit : Nat} (bounded : unit < 0x10000) :
    hex4 (Nat.digitChar (unit / 4096 % 16)) (Nat.digitChar (unit / 256 % 16))
      (Nat.digitChar (unit / 16 % 16)) (Nat.digitChar (unit % 16)) = some unit := by
  have small : ∀ n, n % 16 < 16 := fun n => Nat.mod_lt n (by omega)
  have back : ∀ n, (n % 16).toUInt8.toNat = n % 16 := fun n => by
    rw [Nat.toUInt8, UInt8.toNat_ofNat']
    have := small n
    omega
  simp only [hex4, hexValue_digit (small _), back]
  congr 1
  omega

theorem scanString_unit {unit : Nat} (bounded : unit < 0x10000) (rest : List Char) :
    scanString (escapeUnit unit ++ rest) =
      (scanString rest).map fun (text, length) => (unit :: text, length + 6) := by
  simp only [escapeUnit, List.cons_append, List.nil_append, scanString, hex4_unit bounded]
  cases scanString rest with
  | none => rfl
  | some scanned => rfl

theorem scanString_short {c : Char} {point : Nat} (isEscape : unescape c = some point)
    (rest : List Char) : scanString ('\\' :: c :: rest) =
      (scanString rest).map fun (text, length) => (point :: text, length + 2) := by
  have notUnit : c ≠ 'u' := by
    rintro rfl
    cases isEscape
  rw [scanString]
  · rw [isEscape]
    cases scanString rest with
    | none => rfl
    | some scanned => rfl
  · rintro a b d e tail rfl
    exact absurd rfl notUnit

theorem toNat_ofNat_printable {point : Nat} (printable : point ≤ 126) :
    (Char.ofNat point).toNat = point := by
  have valid : point.isValidChar := Or.inl (by omega)
  rw [Char.ofNat, dif_pos valid]
  rfl

theorem scanString_plain {point : Nat} (printable : 32 ≤ point ∧ point ≤ 126)
    (notQuote : point ≠ 34) (notBackslash : point ≠ 92) (rest : List Char) :
    scanString (Char.ofNat point :: rest) =
      (scanString rest).map fun (text, length) => (point :: text, length + 1) := by
  have same := toNat_ofNat_printable printable.2
  have isPlain : ∀ c : Char, c.toNat ≠ point → Char.ofNat point ≠ c := by
    rintro c different rfl
    exact different same
  rw [scanString]
  · rw [same, if_neg (by omega)]
  · exact isPlain '"' (Ne.symm notQuote)
  · exact fun a b c d tail same _ => isPlain '\\' (Ne.symm notBackslash) same
  · exact fun c tail same _ => isPlain '\\' (Ne.symm notBackslash) same

theorem units_basic {point : Nat} (basic : point < 0x10000) : units point = [point] := if_pos basic

/-- A code point is read back as its units. -/
theorem scanString_escape {point : Nat} (bounded : point < 0x110000) (rest : List Char) :
    scanString (escape point ++ rest) = (scanString rest).map fun (text, length) =>
      (units point ++ text, length + (escape point).length) := by
  by_cases basic : point < 0x10000
  · rw [units_basic basic]
    unfold escape
    split_ifs with h34 h92 h10 h13 h9 h12 h8 printable
    · subst h34
      exact scanString_short rfl rest
    · subst h92
      exact scanString_short rfl rest
    · subst h10
      exact scanString_short rfl rest
    · subst h13
      exact scanString_short rfl rest
    · subst h9
      exact scanString_short rfl rest
    · subst h12
      exact scanString_short rfl rest
    · subst h8
      exact scanString_short rfl rest
    · exact scanString_plain printable h34 h92 rest
    · exact scanString_unit basic rest
  · have beyond : escape point =
        escapeUnit (highSurrogate point) ++ escapeUnit (lowSurrogate point) := by
      unfold escape
      repeat rw [if_neg (by omega)]
    have high := highSurrogate_bounds point
    have low := lowSurrogate_bounds point
    rw [beyond, List.append_assoc, scanString_unit (by omega), scanString_unit (by omega), units,
      if_neg basic]
    cases scanString rest with
    | none => rfl
    | some scanned => rfl

theorem scanString_quoted {text : CodePoints} (bounded : ∀ point ∈ text, point < 0x110000)
    (rest : List Char) : scanString (text.flatMap escape ++ '"' :: rest) =
      some (text.flatMap units, (text.flatMap escape).length + 1) := by
  induction text with
  | nil => simp [scanString]
  | cons point text ih =>
      have onText := ih fun other listed => bounded other (List.mem_cons_of_mem _ listed)
      rw [List.flatMap_cons, List.append_assoc, scanString_escape (bounded point List.mem_cons_self),
        onText, Option.map_some, List.flatMap_cons, List.length_append]
      simp only [Option.some.injEq, Prod.mk.injEq, true_and]
      omega

/-! ## Surrogates -/

theorem joinSurrogates_cons {point : Nat} {rest : CodePoints}
    (apart : ∀ low ∈ rest.head?, ¬ (isHighSurrogate point = true ∧ isLowSurrogate low = true)) :
    joinSurrogates (point :: rest) = point :: joinSurrogates rest := by
  cases rest with
  | nil => rfl
  | cons low rest =>
      have notPair := apart low rfl
      simp only [isHighSurrogate, isLowSurrogate, Bool.and_eq_true, decide_eq_true_eq] at notPair
      rw [joinSurrogates, if_neg]
      omega

theorem joinSurrogates_pair {high low : Nat} (isHigh : 0xD800 ≤ high ∧ high < 0xDC00)
    (isLow : 0xDC00 ≤ low ∧ low < 0xE000) (rest : CodePoints) :
    joinSurrogates (high :: low :: rest) =
      (0x10000 + 1024 * (high - 0xD800) + (low - 0xDC00)) :: joinSurrogates rest := by
  rw [joinSurrogates, if_pos ⟨isHigh.1, isHigh.2, isLow.1, isLow.2⟩]

theorem surrogates_join {point : Nat} (beyond : 0x10000 ≤ point) (bounded : point < 0x110000) :
    0x10000 + 1024 * (highSurrogate point - 0xD800) + (lowSurrogate point - 0xDC00) = point := by
  unfold highSurrogate lowSurrogate
  omega

/-- What a code point starts with is no low surrogate, unless it is one itself. -/
theorem head_units {next low : Nat} {text : CodePoints} (starts : low ∈ (units next ++ text).head?) :
    isLowSurrogate low = true → low = next := by
  unfold units at starts
  split at starts
  · cases starts
    exact fun _ => rfl
  · cases starts
    intro isLow
    simp only [isLowSurrogate, Bool.and_eq_true, decide_eq_true_eq] at isLow
    have isHigh := highSurrogate_bounds next
    omega

theorem joinSurrogates_units {text : CodePoints} (isText : IsText text) :
    joinSurrogates (text.flatMap units) = text := by
  induction text with
  | nil => rfl
  | cons point text ih =>
      have bounded := isText.bounded point List.mem_cons_self
      have onText := ih ⟨fun other listed => isText.bounded other (List.mem_cons_of_mem _ listed),
        isText.unpaired.tail⟩
      rw [List.flatMap_cons]
      by_cases basic : point < 0x10000
      · rw [units_basic basic, List.cons_append, List.nil_append, joinSurrogates_cons, onText]
        rintro low starts ⟨isHigh, isLow⟩
        cases text with
        | nil => cases starts
        | cons next text =>
            rw [List.flatMap_cons] at starts
            have same := head_units starts isLow
            subst same
            exact (List.isChain_cons_cons.mp isText.unpaired).1 ⟨isHigh, isLow⟩
      · rw [units, if_neg basic, List.cons_append, List.cons_append, List.nil_append,
          joinSurrogates_pair (highSurrogate_bounds point) (lowSurrogate_bounds point),
          surrogates_join (by omega) bounded, onText]

theorem tokenAt_quoted {text : CodePoints} (isText : IsText text) (rest : List Char) :
    tokenAt (quoted text ++ rest) = (.string text, (quoted text).length) := by
  have scanned := scanString_quoted isText.bounded rest
  have opened : quoted text ++ rest = '"' :: (text.flatMap escape ++ '"' :: rest) := by
    simp [quoted]
  have notMark : isMark '"' = false := rfl
  rw [opened, tokenAt, notMark, if_neg (by decide), if_pos rfl, scanned]
  simp [joinSurrogates_units isText, quoted]

/-! ## Numbers -/

/-- What may follow a number or a constant: the end, white space or punctuation. -/
def Delimited (rest : List Char) : Prop :=
  ∀ c ∈ rest.head?, isMark c = true ∨ isJsonSpace c = true

theorem delimited_mark {c : Char} (mark : isMark c = true) (rest : List Char) :
    Delimited (c :: rest) := by
  rintro d ⟨⟩
  exact Or.inl mark

/-- A delimiter is no part of a number or a constant. -/
theorem delimiter_apart {c : Char} (delimiter : isMark c = true ∨ isJsonSpace c = true) :
    c.isDigit = false ∧ c ∉ ['.', 'e', 'E', '+', '-'] ∧
      ∀ constant ∈ constants, c ∉ constant.1 := by
  simp only [isMark, isJsonSpace, List.contains_eq_mem, Bool.or_eq_true, decide_eq_true_eq,
    List.mem_cons, List.not_mem_nil, or_false] at delimiter
  rcases delimiter with (rfl | rfl | rfl | rfl | rfl | rfl) | ((rfl | rfl) | rfl) | rfl
  all_goals
    refine ⟨by decide, by decide, ?_⟩
    simp [constants]

section Numbers

variable {text rest : List Char}

theorem digitsLength_append (delimited : Delimited rest) :
    digitsLength (text ++ rest) = digitsLength text := by
  unfold digitsLength
  induction text with
  | nil =>
      cases rest with
      | nil => rfl
      | cons c rest => simp [(delimiter_apart (delimited c rfl)).1]
  | cons c text ih =>
      rw [List.cons_append, List.takeWhile_cons, List.takeWhile_cons]
      split
      · rw [List.length_cons, List.length_cons, ih]
      · rfl

theorem digitsLength_le : digitsLength text ≤ text.length :=
  (List.takeWhile_prefix _).length_le

theorem fractionLength_append (delimited : Delimited rest) :
    fractionLength (text ++ rest) = fractionLength text := by
  cases text with
  | nil =>
      cases rest with
      | nil => rfl
      | cons c rest =>
          have notPoint : c ≠ '.' := by
            rintro rfl
            exact (delimiter_apart (delimited '.' rfl)).2.1 (by decide)
          rw [List.nil_append, fractionLength]
          · rfl
          · rintro tail same
            exact notPoint (List.cons.inj same).1
  | cons c text =>
      by_cases point : c = '.'
      · subst point
        simp only [List.cons_append, fractionLength, digitsLength_append delimited]
      · rw [List.cons_append, fractionLength, fractionLength]
        all_goals
          intro tail same
          exact point (List.cons.inj same).1

theorem fractionLength_le : fractionLength text ≤ text.length := by
  unfold fractionLength
  split
  · rename_i tail
    have bound : digitsLength tail ≤ tail.length := digitsLength_le
    rw [List.length_cons]
    split
    · omega
    · omega
  · exact Nat.zero_le _

/-- A sign in front, of the two an exponent can have. -/
theorem head?_append_sign (delimited : Delimited rest) :
    ((text ++ rest).head? = some '+' ∨ (text ++ rest).head? = some '-') ↔
      (text.head? = some '+' ∨ text.head? = some '-') := by
  cases text with
  | nil =>
      refine iff_of_false ?_ (by simp)
      rintro (plus | minus)
      · exact (delimiter_apart (delimited _ plus)).2.1 (by decide)
      · exact (delimiter_apart (delimited _ minus)).2.1 (by decide)
  | cons c text => rfl

theorem head?_append_minus (delimited : Delimited rest) :
    (text ++ rest).head? = some '-' ↔ text.head? = some '-' := by
  cases text with
  | nil =>
      refine iff_of_false (fun minus => ?_) (by simp)
      exact (delimiter_apart (delimited _ minus)).2.1 (by decide)
  | cons c text => rfl

theorem head?_append_zero (delimited : Delimited rest) :
    (text ++ rest).head? = some '0' ↔ text.head? = some '0' := by
  cases text with
  | nil =>
      refine iff_of_false (fun zero => ?_) (by simp)
      exact Bool.false_ne_true ((delimiter_apart (delimited _ zero)).1.symm.trans rfl)
  | cons c text => rfl

theorem sign_le {p : Prop} [Decidable p] (inText : p → text ≠ []) :
    (if p then 1 else 0) ≤ text.length := by
  split
  · rename_i holds
    exact List.length_pos_iff.mpr (inText holds)
  · exact Nat.zero_le _

theorem ne_nil_of_head? {c : Char} (starts : text.head? = some c) : text ≠ [] := by
  rintro rfl
  cases starts

theorem exponentLength_append (delimited : Delimited rest) :
    exponentLength (text ++ rest) = exponentLength text := by
  cases text with
  | nil =>
      cases rest with
      | nil => rfl
      | cons c rest =>
          have apart := (delimiter_apart (delimited c rfl)).2.1
          rw [List.nil_append, exponentLength, if_neg, exponentLength]
          rintro (rfl | rfl)
          · exact apart (by decide)
          · exact apart (by decide)
  | cons c text =>
      have inText : text.head? = some '+' ∨ text.head? = some '-' → text ≠ [] := by
        rintro (plus | minus)
        · exact ne_nil_of_head? plus
        · exact ne_nil_of_head? minus
      simp only [List.cons_append, exponentLength, head?_append_sign delimited,
        List.drop_append_of_le_length (sign_le inText), digitsLength_append delimited]

theorem exponentLength_le : exponentLength text ≤ text.length := by
  cases text with
  | nil => exact Nat.le_refl _
  | cons c text =>
      have inText : text.head? = some '+' ∨ text.head? = some '-' → text ≠ [] := by
        rintro (plus | minus)
        · exact ne_nil_of_head? plus
        · exact ne_nil_of_head? minus
      have bound := sign_le inText
      have digits : digitsLength (text.drop
          (if text.head? = some '+' ∨ text.head? = some '-' then 1 else 0)) ≤ _ := digitsLength_le
      rw [List.length_drop] at digits
      simp only [exponentLength, List.length_cons]
      generalize (if text.head? = some '+' ∨ text.head? = some '-' then 1 else 0) = sign at *
      split
      · split
        · omega
        · omega
      · omega

/-- A number ends where a delimiter follows. -/
theorem matchNumber_append (delimited : Delimited rest) :
    matchNumber (text ++ rest) = matchNumber text := by
  have signed : (if text.head? = some '-' then 1 else 0) ≤ text.length := sign_le ne_nil_of_head?
  simp only [matchNumber, head?_append_minus delimited]
  generalize (if text.head? = some '-' then 1 else 0) = sign at *
  rw [List.drop_append_of_le_length signed]
  simp only [head?_append_zero delimited, digitsLength_append delimited]
  have starts : (text.drop sign).head? = some '0' → 1 ≤ (text.drop sign).length := fun zero =>
    List.length_pos_iff.mpr (ne_nil_of_head? zero)
  have whole_ : (if (text.drop sign).head? = some '0' then 1
      else digitsLength (text.drop sign)) ≤ (text.drop sign).length := by
    split
    · exact starts ‹_›
    · exact digitsLength_le
  rw [List.length_drop] at whole_
  generalize (if (text.drop sign).head? = some '0' then 1
    else digitsLength (text.drop sign)) = whole at *
  rw [List.drop_append_of_le_length (by omega), fractionLength_append delimited]
  have fraction_ : fractionLength (text.drop (sign + whole)) ≤ _ := fractionLength_le
  rw [List.length_drop] at fraction_
  generalize fractionLength (text.drop (sign + whole)) = fraction at *
  rw [List.drop_append_of_le_length (by omega), exponentLength_append delimited]
  have exponent_ : exponentLength (text.drop (sign + whole + fraction)) ≤ _ := exponentLength_le
  rw [List.length_drop] at exponent_
  generalize exponentLength (text.drop (sign + whole + fraction)) = exponent at *
  rw [List.take_append_of_le_length (by omega)]

theorem matchNumber_literal {token : Token} {length : Nat}
    (matched : matchNumber text = some (token, length)) :
    token = .integer (text.take length) ∨ token = .constant (.float (text.take length)) := by
  simp only [matchNumber] at matched
  generalize (if text.head? = some '-' then 1 else 0) = sign at matched
  generalize (if (text.drop sign).head? = some '0' then 1
    else digitsLength (text.drop sign)) = whole at matched
  split at matched
  · cases matched
  · split at matched
    · cases matched
      exact Or.inl rfl
    · cases matched
      exact Or.inr rfl

/-! ## Constants -/

/-- A delimiter does not complete the name of a constant. -/
theorem isPrefixOf_append (delimited : Delimited rest) {constant : List Char × Json}
    (listed : constant ∈ constants) :
    constant.1.isPrefixOf (text ++ rest) = constant.1.isPrefixOf text := by
  rw [Bool.eq_iff_iff, List.isPrefixOf_iff_prefix, List.isPrefixOf_iff_prefix]
  refine ⟨fun begins => ?_, fun begins => begins.trans (List.prefix_append _ _)⟩
  rcases List.prefix_or_prefix_of_prefix begins (List.prefix_append text rest) with inside | beyond
  · exact inside
  · obtain ⟨tail, same⟩ := beyond
    rw [← same, List.prefix_append_right_inj] at begins
    cases tail with
    | nil => exact ⟨[], by rw [← same, List.append_nil, List.append_nil]⟩
    | cons c tail =>
        obtain ⟨more, followed⟩ := begins
        have inName : c ∈ constant.1 := by
          rw [← same]
          exact List.mem_append_right _ List.mem_cons_self
        have delimiter := delimited c (by rw [← followed]; rfl)
        exact absurd inName ((delimiter_apart delimiter).2.2 constant listed)

/-- A constant or a number at the start of the text, and its length. -/
def literalAt (text : List Char) : Token × Nat :=
  match constants.find? fun constant => constant.1.isPrefixOf text with
  | some (name, value) => (.constant value, name.length)
  | none => (matchNumber text).getD (.junk, 1)

/-- Neither punctuation nor a string starts so. -/
def StartsLiteral (text : List Char) : Prop := ∃ c rest, text = c :: rest ∧ isMark c = false ∧ c ≠ '"'

theorem tokenAt_literal (starts : StartsLiteral text) : tokenAt text = literalAt text := by
  obtain ⟨c, rest, rfl, notMark, notQuote⟩ := starts
  rw [tokenAt, notMark, if_neg (by decide), if_neg notQuote]
  rfl

theorem literalAt_append (delimited : Delimited rest) : literalAt (text ++ rest) = literalAt text := by
  have sameNames : (constants.find? fun constant => constant.1.isPrefixOf (text ++ rest)) =
      constants.find? fun constant => constant.1.isPrefixOf text :=
    List.find?_congr fun constant listed => isPrefixOf_append delimited listed
  rw [literalAt, sameNames, matchNumber_append delimited]
  rfl

theorem literalAt_float {literal : List Char} {length : Nat}
    (isFloat : literalAt text = (.constant (.float literal), length)) : literal <+: text := by
  unfold literalAt at isFloat
  split at isFloat
  · rename_i name value found
    have listed := List.mem_of_find?_eq_some found
    have begins : name.isPrefixOf text = true := List.find?_some (a := (name, value)) found
    simp only [Prod.mk.injEq, Token.constant.injEq] at isFloat
    have sameName : literal = name := by
      rw [isFloat.1] at listed
      simp only [constants, List.mem_cons, Prod.mk.injEq, reduceCtorEq, and_false, Json.float.injEq,
        List.not_mem_nil, or_false, false_or] at listed
      rcases listed with ⟨named, same⟩ | ⟨named, same⟩ | ⟨named, same⟩
      · rw [named, same]
      · rw [named, same]
      · rw [named, same]
    exact sameName ▸ List.isPrefixOf_iff_prefix.mp begins
  · cases matched : matchNumber text with
    | none =>
        rw [matched] at isFloat
        cases isFloat
    | some read =>
        obtain ⟨token, length'⟩ := read
        rw [matched] at isFloat
        cases isFloat
        rcases matchNumber_literal matched with isInteger | isFloat
        · cases isInteger
        · cases isFloat
          exact List.take_prefix _ _

end Numbers

/-! ## Integers -/

theorem digitChar_ne_zero : ∀ n < 10, 0 < n → Nat.digitChar n ≠ '0' := by decide

/-- No leading zero. -/
theorem toDigits_head {n : Nat} (positive : 0 < n) : (Nat.toDigits 10 n).head? ≠ some '0' := by
  induction n using Nat.strongRecOn with
  | ind n ih =>
      by_cases small : n < 10
      · rw [Nat.toDigits_of_lt_base small]
        exact fun zero => digitChar_ne_zero n small positive (Option.some.inj zero)
      · have onTenth := ih (n / 10) (by omega) (by omega)
        rw [Nat.toDigits_of_base_le (by omega) (by omega),
          List.head?_append_of_ne_nil _ Nat.toDigits_ne_nil]
        exact onTenth

theorem digitsLength_toDigits (n : Nat) :
    digitsLength (Nat.toDigits 10 n) = (Nat.toDigits 10 n).length := by
  rw [digitsLength, List.takeWhile_eq_self_iff.mpr fun c => isDigit_of_mem_repr]

/-- All the digits belong to the number, also where it is a lone zero. -/
theorem whole_toDigits (n : Nat) :
    (if (Nat.toDigits 10 n).head? = some '0' then 1 else digitsLength (Nat.toDigits 10 n)) =
      (Nat.toDigits 10 n).length := by
  rcases Nat.eq_zero_or_pos n with rfl | positive
  · rfl
  · rw [if_neg (toDigits_head positive), digitsLength_toDigits]

theorem digits_start (n : Nat) :
    ∃ c rest, Nat.toDigits 10 n = c :: rest ∧ c.isDigit = true := by
  match written : Nat.toDigits 10 n with
  | [] => exact absurd written Nat.toDigits_ne_nil
  | c :: rest => exact ⟨c, rest, rfl, isDigit_of_mem_repr (written ▸ List.mem_cons_self)⟩

theorem digit_ne {c d : Char} (digit : c.isDigit = true) (other : d.isDigit = false) : c ≠ d := by
  rintro rfl
  exact Bool.false_ne_true (other.symm.trans digit)

/-- A text that is all sign and digits. -/
theorem matchNumber_whole {text : List Char} {sign : Nat}
    (isSign : (if text.head? = some '-' then 1 else 0) = sign)
    (isWhole : (if (text.drop sign).head? = some '0' then 1 else digitsLength (text.drop sign)) =
      (text.drop sign).length) (digits : text.drop sign ≠ []) :
    matchNumber text = some (.integer text, text.length) := by
  have positive := List.length_pos_iff.mpr digits
  have all : sign + (text.drop sign).length = text.length := by
    rw [List.length_drop] at positive ⊢
    omega
  have noFraction : fractionLength ([] : List Char) = 0 := rfl
  have noExponent : exponentLength ([] : List Char) = 0 := rfl
  simp only [matchNumber, isSign, isWhole, all, List.drop_length, noFraction, noExponent,
    Nat.add_zero, List.take_length, and_self, if_true]
  rw [if_neg (by omega)]

theorem matchNumber_writeInt (number : Int) :
    matchNumber (writeInt number) =
      some (.integer (writeInt number), (writeInt number).length) := by
  cases number with
  | ofNat n =>
      obtain ⟨c, rest, written, digit⟩ := digits_start n
      have unsigned : ¬ (Nat.toDigits 10 n).head? = some '-' := by
        rw [written]
        exact fun minus => digit_ne digit (by decide) (Option.some.inj minus)
      exact matchNumber_whole (if_neg unsigned) (whole_toDigits n) Nat.toDigits_ne_nil
  | negSucc n => exact matchNumber_whole rfl (whole_toDigits (n + 1)) Nat.toDigits_ne_nil

theorem mem_writeInt {number : Int} {c : Char} (written : c ∈ writeInt number) :
    c.isDigit = true ∨ c = '-' := by
  cases number with
  | ofNat n => exact Or.inl (isDigit_of_mem_repr written)
  | negSucc n =>
      rcases List.mem_cons.mp written with minus | digit
      · exact Or.inr minus
      · exact Or.inl (isDigit_of_mem_repr digit)

/-- Every constant has a letter. -/
theorem constants_lettered : ∀ constant ∈ constants, ∃ c ∈ constant.1, c.isDigit = false ∧ c ≠ '-' := by
  intro constant listed
  simp only [constants, List.mem_cons, List.not_mem_nil, or_false] at listed
  rcases listed with rfl | rfl | rfl | rfl | rfl | rfl
  · exact ⟨'n', by decide, by decide, by decide⟩
  · exact ⟨'t', by decide, by decide, by decide⟩
  · exact ⟨'f', by decide, by decide, by decide⟩
  · exact ⟨'N', by decide, by decide, by decide⟩
  · exact ⟨'I', by decide, by decide, by decide⟩
  · exact ⟨'I', by decide, by decide, by decide⟩

theorem literalAt_writeInt (number : Int) :
    literalAt (writeInt number) = (.integer (writeInt number), (writeInt number).length) := by
  have noConstant : (constants.find? fun constant => constant.1.isPrefixOf (writeInt number)) =
      none := by
    rw [List.find?_eq_none]
    intro constant listed begins
    obtain ⟨c, inName, notDigit, notMinus⟩ := constants_lettered constant listed
    rcases mem_writeInt ((List.isPrefixOf_iff_prefix.mp begins).subset inName) with digit | minus
    · exact digit_ne digit notDigit rfl
    · exact notMinus minus
  rw [literalAt, noConstant, matchNumber_writeInt]
  rfl

theorem startsLiteral_writeInt (number : Int) : StartsLiteral (writeInt number) := by
  cases number with
  | ofNat n =>
      obtain ⟨c, rest, written, digit⟩ := digits_start n
      refine ⟨c, rest, written, ?_, digit_ne digit (by decide)⟩
      by_contra mark
      rw [Bool.not_eq_false] at mark
      exact Bool.false_ne_true ((delimiter_apart (Or.inl mark)).1.symm.trans digit)
  | negSucc n => exact ⟨'-', Nat.toDigits 10 (n + 1), rfl, rfl, by decide⟩

theorem integerValue_writeInt (number : Int) : integerValue (writeInt number) = number := by
  cases number with
  | ofNat n =>
      obtain ⟨c, rest, written, digit⟩ := digits_start n
      have notMinus : c ≠ '-' := digit_ne digit (by decide)
      have value := Nat.ofDigitChars_ten_toDigits (n := n)
      rw [written] at value
      rw [writeInt, written, integerValue]
      · exact congrArg Int.ofNat value
      · exact fun digits same => notMinus (List.cons.inj same).1
  | negSucc n =>
      rw [writeInt, integerValue, Nat.ofDigitChars_ten_toDigits]
      rfl

theorem digits_writeInt (number : Int) :
    (writeInt number).filter Char.isDigit = Nat.toDigits 10 number.natAbs := by
  have all : ∀ n, (Nat.toDigits 10 n).filter Char.isDigit = Nat.toDigits 10 n := fun n =>
    List.filter_eq_self.mpr fun c => isDigit_of_mem_repr
  cases number with
  | ofNat n => exact all n
  | negSucc n => exact all (n + 1)

/-! ## Tokens -/

mutual

/-- The tokens of what `dumps` writes. -/
def phrase : Json → List Token
  | .null => [.constant .null]
  | .bool value => [.constant (.bool value)]
  | .int number => [.integer (writeInt number)]
  | .float literal => [.constant (.float literal)]
  | .str text => [.string text]
  | .array [] => [.mark '[', .mark ']']
  | .array (item :: items) => .mark '[' :: (phrase item ++ phraseItems items)
  | .object [] => [.mark '{', .mark '}']
  | .object ((key, value) :: members) =>
      .mark '{' :: .string key :: .mark ':' :: (phrase value ++ phraseMembers members)

def phraseItems : List Json → List Token
  | [] => [.mark ']']
  | item :: items => .mark ',' :: (phrase item ++ phraseItems items)

def phraseMembers : List (CodePoints × Json) → List Token
  | [] => [.mark '}']
  | (key, value) :: members =>
      .mark ',' :: .string key :: .mark ':' :: (phrase value ++ phraseMembers members)

end

theorem tokens_skip (skipped rest : List Char) :
    tokens skipped.length (skipped ++ rest) = tokens 0 rest := by
  induction skipped with
  | nil => rfl
  | cons c skipped ih => exact ih

/-- A token is taken off the text. -/
theorem tokens_token {text rest : List Char} {token : Token}
    (starts : ∀ c ∈ text.head?, isJsonSpace c = false) (some_ : text ≠ [])
    (read : tokenAt (text ++ rest) = (token, text.length)) :
    tokens 0 (text ++ rest) = token :: tokens 0 rest := by
  cases text with
  | nil => exact absurd rfl some_
  | cons c text =>
      rw [List.cons_append] at read ⊢
      rw [tokens, starts c rfl, if_neg (by decide), read]
      exact congrArg _ (tokens_skip text rest)

theorem tokens_mark {c : Char} (mark : isMark c = true) (rest : List Char) :
    tokens 0 (c :: rest) = .mark c :: tokens 0 rest := by
  have notSpace : isJsonSpace c = false := by
    by_contra space
    simp only [isMark, List.contains_eq_mem, decide_eq_true_eq, List.mem_cons, List.not_mem_nil,
      or_false] at mark
    rcases mark with rfl | rfl | rfl | rfl | rfl | rfl
    all_goals exact space rfl
  show tokens 0 ([c] ++ rest) = _
  refine tokens_token (fun d starts => ?_) (List.cons_ne_nil c []) ?_
  · cases starts
    exact notSpace
  · rw [List.singleton_append, tokenAt, mark]
    rfl

theorem tokens_space (rest : List Char) : tokens 0 (' ' :: rest) = tokens 0 rest := rfl

theorem tokens_quoted {text : CodePoints} (isText : IsText text) (rest : List Char) :
    tokens 0 (quoted text ++ rest) = .string text :: tokens 0 rest := by
  refine tokens_token (fun c starts => ?_) (List.cons_ne_nil _ _) (tokenAt_quoted isText rest)
  cases starts
  rfl

theorem StartsLiteral.append {text : List Char} (starts : StartsLiteral text) (rest : List Char) :
    StartsLiteral (text ++ rest) := by
  obtain ⟨c, tail, rfl, notMark, notQuote⟩ := starts
  exact ⟨c, tail ++ rest, rfl, notMark, notQuote⟩

/-- A delimiter, taken for a literal, is junk. -/
theorem not_delimiter_of_literal {text : List Char} {c : Char} {token : Token} {length : Nat}
    (isLiteral : literalAt (c :: text) = (token, length)) (notJunk : token ≠ .junk) :
    ¬ (isMark c = true ∨ isJsonSpace c = true) := by
  intro delimiter
  have delimited : Delimited (c :: text) := by
    rintro d ⟨⟩
    exact delimiter
  rw [← List.nil_append (c :: text), literalAt_append delimited] at isLiteral
  cases isLiteral
  exact notJunk rfl

/-- A constant or a number, where something else follows. -/
theorem tokens_literal {text rest : List Char} {token : Token} (starts : StartsLiteral text)
    (isLiteral : literalAt text = (token, text.length)) (notJunk : token ≠ .junk)
    (delimited : Delimited rest) : tokens 0 (text ++ rest) = token :: tokens 0 rest := by
  refine tokens_token (fun c first => ?_) ?_ ?_
  · obtain ⟨d, tail, rfl, notMark, notQuote⟩ := starts
    cases first
    have apart := not_delimiter_of_literal isLiteral notJunk
    exact Bool.eq_false_iff.mpr fun space => apart (Or.inr space)
  · obtain ⟨c, tail, rfl, -, -⟩ := starts
    exact List.cons_ne_nil c tail
  · rw [tokenAt_literal (starts.append rest), literalAt_append delimited, isLiteral]

/-- Neither a mark nor a string is read as a float. -/
theorem startsLiteral_float {literal : List Char}
    (isLiteral : tokenAt literal = (.constant (.float literal), literal.length)) :
    StartsLiteral literal := by
  cases literal with
  | nil => cases isLiteral
  | cons c rest =>
      refine ⟨c, rest, rfl, ?_, ?_⟩
      · by_contra mark
        rw [Bool.not_eq_false] at mark
        rw [tokenAt, mark] at isLiteral
        cases isLiteral
      · rintro rfl
        have notMark : isMark '"' = false := rfl
        rw [tokenAt, notMark, if_neg (by decide), if_pos rfl] at isLiteral
        cases scanned : scanString rest with
        | none =>
            rw [scanned] at isLiteral
            cases isLiteral
        | some points =>
            rw [scanned] at isLiteral
            cases isLiteral

section Write

variable {depth : Nat} {value : Json}

theorem delimited_items (items : List Json) (rest : List Char) :
    Delimited (dumpsItems items ++ rest) := by
  cases items with
  | nil => exact delimited_mark rfl rest
  | cons item items =>
      rw [dumpsItems]
      exact delimited_mark rfl _

theorem delimited_members (members : List (CodePoints × Json)) (rest : List Char) :
    Delimited (dumpsMembers members ++ rest) := by
  cases members with
  | nil => exact delimited_mark rfl rest
  | cons member members =>
      rw [dumpsMembers]
      exact delimited_mark rfl _

/-- What is written for a value is read as its tokens. -/
def Spelled (value : Json) : Prop :=
  ∀ rest, Delimited rest → tokens 0 (dumps value ++ rest) = phrase value ++ tokens 0 rest

theorem spelled_items {items : List Json} (all : ∀ item ∈ items, Spelled item) (rest : List Char) :
    tokens 0 (dumpsItems items ++ rest) = phraseItems items ++ tokens 0 rest := by
  induction items with
  | nil => exact tokens_mark rfl rest
  | cons item items ih =>
      have onItems := ih fun other listed => all other (List.mem_cons_of_mem _ listed)
      rw [dumpsItems, phraseItems, List.cons_append, List.cons_append, tokens_mark rfl, tokens_space,
        List.append_assoc, all item List.mem_cons_self _ (delimited_items items rest), onItems,
        List.cons_append, List.append_assoc]

theorem spelled_member {key : CodePoints} (isText : IsText key) (spelled : Spelled value)
    {rest : List Char} (delimited : Delimited rest) :
    tokens 0 (quoted key ++ ':' :: ' ' :: (dumps value ++ rest)) =
      .string key :: .mark ':' :: (phrase value ++ tokens 0 rest) := by
  rw [tokens_quoted isText, tokens_mark rfl, tokens_space, spelled rest delimited]

theorem spelled_members {members : List (CodePoints × Json)}
    (keys : ∀ member ∈ members, IsText member.1) (values : ∀ member ∈ members, Spelled member.2)
    (rest : List Char) :
    tokens 0 (dumpsMembers members ++ rest) = phraseMembers members ++ tokens 0 rest := by
  induction members with
  | nil => exact tokens_mark rfl rest
  | cons member members ih =>
      obtain ⟨key, value⟩ := member
      have onMembers := ih (fun other listed => keys other (List.mem_cons_of_mem _ listed))
        fun other listed => values other (List.mem_cons_of_mem _ listed)
      have onMember := spelled_member (keys _ List.mem_cons_self) (values _ List.mem_cons_self)
        (delimited_members members rest)
      simp only [dumpsMembers, phraseMembers, List.cons_append, List.append_assoc,
        tokens_mark (c := ',') rfl, tokens_space]
      rw [onMember, onMembers]

/-- **The scanner**, on what is written. -/
theorem tokens_dumps (writable : Writable depth value) : Spelled value := by
  induction writable with
  | null => exact fun rest => tokens_literal ⟨'n', _, rfl, rfl, by decide⟩ rfl (by simp)
  | bool value =>
      cases value with
      | true => exact fun rest => tokens_literal ⟨'t', _, rfl, rfl, by decide⟩ rfl (by simp)
      | false => exact fun rest => tokens_literal ⟨'f', _, rfl, rfl, by decide⟩ rfl (by simp)
  | int number short =>
      exact fun rest => tokens_literal (startsLiteral_writeInt number) (literalAt_writeInt number)
        (by simp)
  | float literal isLiteral =>
      have starts := startsLiteral_float isLiteral
      rw [tokenAt_literal starts] at isLiteral
      exact fun rest => tokens_literal starts isLiteral (by simp)
  | str text isText => exact fun rest _ => tokens_quoted isText rest
  | array items all spelled =>
      intro rest _
      cases items with
      | nil => exact (tokens_mark rfl _).trans (congrArg _ (tokens_mark rfl rest))
      | cons item items =>
          have onItems := spelled_items (fun other listed =>
            spelled other (List.mem_cons_of_mem _ listed)) rest
          rw [dumps, phrase, List.cons_append, tokens_mark rfl, List.append_assoc,
            spelled item List.mem_cons_self _ (delimited_items items rest), onItems,
            List.cons_append, List.append_assoc]
  | object members keys values spelled =>
      intro rest _
      cases members with
      | nil => exact (tokens_mark rfl _).trans (congrArg _ (tokens_mark rfl rest))
      | cons member members =>
          obtain ⟨key, value⟩ := member
          have onMembers := spelled_members (fun other listed =>
            keys other (List.mem_cons_of_mem _ listed)) (fun other listed =>
            spelled other (List.mem_cons_of_mem _ listed)) rest
          have onMember := spelled_member (keys _ List.mem_cons_self)
            (spelled _ List.mem_cons_self) (delimited_members members rest)
          simp only [dumps, phrase, List.cons_append, List.append_assoc, tokens_mark (c := '{') rfl]
          rw [onMember, onMembers]

/-! ## The machine -/

/-- The reader takes the tokens of a value, `depth` containers deep at most, as that value. -/
def Taken (maxDepth depth : Nat) (value : Json) : Prop :=
  ∀ stack : List Frame, stack.length + depth ≤ maxDepth →
    (phrase value).foldlM (advanceJson maxDepth) (.value, stack) = complete value stack

variable {maxDepth : Nat}

/-- No value starts with the end of an array, so the first item may come after the
bracket as any item comes after a comma. -/
theorem foldlM_opened (stack : List Frame) (more : List Token) :
    (phrase value ++ more).foldlM (advanceJson maxDepth) (.opened, .array [] :: stack) =
      (phrase value ++ more).foldlM (advanceJson maxDepth) (.value, .array [] :: stack) := by
  have starts : ∀ token ∈ (phrase value).head?, advanceJson maxDepth (.opened, .array [] :: stack) token =
      advanceJson maxDepth (.value, .array [] :: stack) token := by
    intro token first
    match value with
    | .null | .bool _ | .int _ | .float _ | .str _ | .array [] | .array (_ :: _) | .object []
    | .object ((_, _) :: _) => cases first; rfl
  cases spelled : phrase value with
  | nil =>
      match value with
      | .null | .bool _ | .int _ | .float _ | .str _ | .array [] | .array (_ :: _) | .object []
      | .object ((_, _) :: _) => cases spelled
  | cons token tokens =>
      rw [List.cons_append, List.foldlM_cons, List.foldlM_cons, starts token (by rw [spelled]; rfl)]

theorem taken_items {items : List Json} (all : ∀ item ∈ items, Taken maxDepth depth item)
    {stack : List Frame} (deep : stack.length + 1 + depth ≤ maxDepth) (before : List Json) :
    (phraseItems items).foldlM (advanceJson maxDepth) (.entry, .array before :: stack) =
      complete (.array (before ++ items)) stack := by
  induction items generalizing before with
  | nil =>
      rw [List.append_nil]
      exact bind_pure _
  | cons item items ih =>
      have onItem := all item List.mem_cons_self (.array before :: stack) deep
      have onItems := ih (fun other listed => all other (List.mem_cons_of_mem _ listed))
        (before ++ [item])
      rw [List.append_assoc] at onItems
      rw [phraseItems, List.foldlM_cons]
      refine Eq.trans ?_ onItems
      show (phrase item ++ phraseItems items).foldlM (advanceJson maxDepth)
        (.value, .array before :: stack) = _
      rw [List.foldlM_append, onItem]
      rfl

theorem taken_members {members : List (CodePoints × Json)}
    (all : ∀ member ∈ members, Taken maxDepth depth member.2) {stack : List Frame}
    (deep : stack.length + 1 + depth ≤ maxDepth) (before : List (CodePoints × Json)) :
    (phraseMembers members).foldlM (advanceJson maxDepth) (.entry, .object before :: stack) =
      complete (.object (before ++ members)) stack := by
  induction members generalizing before with
  | nil =>
      rw [List.append_nil]
      exact bind_pure _
  | cons member members ih =>
      obtain ⟨key, value⟩ := member
      have onMember := all _ List.mem_cons_self (.member before key :: stack) deep
      have onMembers := ih (fun other listed => all other (List.mem_cons_of_mem _ listed))
        (before ++ [(key, value)])
      rw [List.append_assoc] at onMembers
      refine Eq.trans ?_ onMembers
      show (phrase value ++ phraseMembers members).foldlM (advanceJson maxDepth)
        (.value, .member before key :: stack) = _
      rw [List.foldlM_append, onMember]
      rfl

/-- **The machine**, on the tokens of a value. -/
theorem foldlM_phrase (writable : Writable depth value) : Taken maxDepth depth value := by
  induction writable with
  | null => exact fun stack _ => bind_pure _
  | bool value => exact fun stack _ => bind_pure _
  | int number short =>
      intro stack _
      have value_ : readValue maxDepth stack (.integer (writeInt number)) =
          complete (.int number) stack := by
        rw [readValue, digits_writeInt, if_pos short, integerValue_writeInt]
      show (readValue maxDepth stack (.integer (writeInt number)) >>= pure) = _
      rw [bind_pure, value_]
  | float literal isLiteral => exact fun stack _ => bind_pure _
  | str text isText => exact fun stack _ => bind_pure _
  | @array depth items all taken =>
      intro stack deep
      have room : stack.length < maxDepth := by omega
      have opened : openFrame maxDepth (.array []) stack = .ok (.opened, .array [] :: stack) :=
        if_pos room
      have deeper : stack.length + 1 + depth ≤ maxDepth := by omega
      cases items with
      | nil =>
          show (openFrame maxDepth (.array []) stack >>= fun machine =>
            [Token.mark ']'].foldlM (advanceJson maxDepth) machine) = _
          rw [opened]
          show (complete (.array []) stack >>= pure) = _
          exact bind_pure _
      | cons item items =>
          have onItem := taken item List.mem_cons_self (.array [] :: stack) deeper
          have onItems := taken_items (fun other listed =>
            taken other (List.mem_cons_of_mem _ listed)) deeper [item]
          refine Eq.trans ?_ onItems
          show (openFrame maxDepth (.array []) stack >>= fun machine =>
            (phrase item ++ phraseItems items).foldlM (advanceJson maxDepth) machine) = _
          rw [opened]
          show (phrase item ++ phraseItems items).foldlM (advanceJson maxDepth)
            (.opened, .array [] :: stack) = _
          rw [foldlM_opened, List.foldlM_append, onItem]
          rfl
  | @object depth members keys values taken =>
      intro stack deep
      have room : stack.length < maxDepth := by omega
      have opened : openFrame maxDepth (.object []) stack = .ok (.opened, .object [] :: stack) :=
        if_pos room
      have deeper : stack.length + 1 + depth ≤ maxDepth := by omega
      cases members with
      | nil =>
          show (openFrame maxDepth (.object []) stack >>= fun machine =>
            [Token.mark '}'].foldlM (advanceJson maxDepth) machine) = _
          rw [opened]
          show (complete (.object []) stack >>= pure) = _
          exact bind_pure _
      | cons member members =>
          obtain ⟨key, value⟩ := member
          have onMember := taken _ List.mem_cons_self (.member [] key :: stack) deeper
          have onMembers := taken_members (fun other listed =>
            taken other (List.mem_cons_of_mem _ listed)) deeper [(key, value)]
          refine Eq.trans ?_ onMembers
          show (openFrame maxDepth (.object []) stack >>= fun machine =>
            (Token.string key :: Token.mark ':' :: (phrase value ++ phraseMembers members)).foldlM
              (advanceJson maxDepth) machine) = _
          rw [opened]
          show (phrase value ++ phraseMembers members).foldlM (advanceJson maxDepth)
            (.value, .member [] key :: stack) = _
          rw [List.foldlM_append, onMember]
          rfl

theorem tokens_blank {blank : List Char} (spaces : ∀ c ∈ blank, isJsonSpace c = true) :
    tokens 0 blank = [] := by
  induction blank with
  | nil => rfl
  | cons c blank ih =>
      rw [tokens, if_pos (spaces c List.mem_cons_self)]
      exact ih fun other listed => spaces other (List.mem_cons_of_mem _ listed)

/-- **Written and read back**, by a reader that goes as deep, whatever blanks follow. -/
theorem loads_dumps (writable : Writable depth value) (deep : depth ≤ maxDepth) {blank : List Char}
    (spaces : ∀ c ∈ blank, isJsonSpace c = true) :
    loads maxDepth (dumps value ++ blank) = .ok value := by
  have delimited : Delimited blank := fun c first => Or.inr (spaces c (List.mem_of_mem_head? first))
  have taken : Taken maxDepth depth value := foldlM_phrase writable
  have read := taken [] (by rwa [List.length_nil, Nat.zero_add])
  rw [loads, tokens_dumps writable blank delimited, tokens_blank spaces, List.append_nil, read]
  rfl

end Write

/-! ## One line -/

/-- No end of a line, in any of the conventions. -/
def OneLine (text : List Char) : Prop := ∀ c ∈ text, c ≠ '\n' ∧ c ≠ '\r'

theorem oneLine_append {text more : List Char} :
    OneLine (text ++ more) ↔ OneLine text ∧ OneLine more :=
  List.forall_mem_append

theorem oneLine_cons {c : Char} {text : List Char} :
    OneLine (c :: text) ↔ (c ≠ '\n' ∧ c ≠ '\r') ∧ OneLine text :=
  List.forall_mem_cons

theorem digitChar_oneLine : ∀ n < 16, Nat.digitChar n ≠ '\n' ∧ Nat.digitChar n ≠ '\r' := by decide

theorem oneLine_escapeUnit (unit : Nat) : OneLine (escapeUnit unit) := by
  have digit : ∀ n, Nat.digitChar (n % 16) ≠ '\n' ∧ Nat.digitChar (n % 16) ≠ '\r' := fun n =>
    digitChar_oneLine (n % 16) (Nat.mod_lt n (by omega))
  simp [escapeUnit, digit, OneLine]

theorem oneLine_escape (point : Nat) : OneLine (escape point) := by
  unfold escape
  split_ifs with h34 h92 h10 h13 h9 h12 h8 printable basic
  · simp [OneLine]
  · simp [OneLine]
  · simp [OneLine]
  · simp [OneLine]
  · simp [OneLine]
  · simp [OneLine]
  · simp [OneLine]
  · intro c only
    have same := toNat_ofNat_printable printable.2
    rw [List.mem_singleton.mp only]
    refine ⟨fun newline => ?_, fun newline => ?_⟩
    · rw [newline] at same
      exact h10 same.symm
    · rw [newline] at same
      exact h13 same.symm
  · exact oneLine_escapeUnit point
  · exact oneLine_append.mpr ⟨oneLine_escapeUnit _, oneLine_escapeUnit _⟩

theorem oneLine_quoted (text : CodePoints) : OneLine (quoted text) := by
  have inside : OneLine (text.flatMap escape) := by
    intro c written
    obtain ⟨point, -, inEscape⟩ := List.mem_flatMap.mp written
    exact oneLine_escape point c inEscape
  refine oneLine_cons.mpr ⟨by decide, oneLine_append.mpr ⟨inside, ?_⟩⟩
  simp [OneLine]

theorem oneLine_writeInt (number : Int) : OneLine (writeInt number) := by
  intro c written
  rcases mem_writeInt written with digit | minus
  · exact ⟨digit_ne digit (by decide), digit_ne digit (by decide)⟩
  · rw [minus]
    decide

/-- A literal is cut off where a delimiter stands, so that none stands in it. -/
theorem not_mem_of_delimiter {literal : List Char} {c : Char}
    (isLiteral : tokenAt literal = (.constant (.float literal), literal.length))
    (delimiter : isMark c = true ∨ isJsonSpace c = true) : c ∉ literal := by
  intro inside
  rw [tokenAt_literal (startsLiteral_float isLiteral)] at isLiteral
  obtain ⟨before, after, cut⟩ := List.append_of_mem inside
  have delimited : Delimited (c :: after) := by
    rintro d ⟨⟩
    exact delimiter
  have cutOff : literalAt literal = literalAt before := by
    rw [cut, literalAt_append delimited]
  have short := (literalAt_float (cutOff.symm.trans isLiteral)).length_le
  rw [cut, List.length_append, List.length_cons] at short
  omega

theorem oneLine_items {items : List Json} (all : ∀ item ∈ items, OneLine (dumps item)) :
    OneLine (dumpsItems items) := by
  induction items with
  | nil => simp [dumpsItems, OneLine]
  | cons item items ih =>
      have onItems := ih fun other listed => all other (List.mem_cons_of_mem _ listed)
      rw [dumpsItems]
      exact oneLine_cons.mpr ⟨by decide, oneLine_cons.mpr ⟨by decide,
        oneLine_append.mpr ⟨all item List.mem_cons_self, onItems⟩⟩⟩

theorem oneLine_member {key : CodePoints} {value : Json} {rest : List Char}
    (onValue : OneLine (dumps value)) (onRest : OneLine rest) :
    OneLine (quoted key ++ ':' :: ' ' :: (dumps value ++ rest)) :=
  oneLine_append.mpr ⟨oneLine_quoted key, oneLine_cons.mpr ⟨by decide, oneLine_cons.mpr
    ⟨by decide, oneLine_append.mpr ⟨onValue, onRest⟩⟩⟩⟩

theorem oneLine_members {members : List (CodePoints × Json)}
    (all : ∀ member ∈ members, OneLine (dumps member.2)) : OneLine (dumpsMembers members) := by
  induction members with
  | nil => simp [dumpsMembers, OneLine]
  | cons member members ih =>
      obtain ⟨key, value⟩ := member
      have onMembers := ih fun other listed => all other (List.mem_cons_of_mem _ listed)
      rw [dumpsMembers]
      exact oneLine_cons.mpr ⟨by decide, oneLine_cons.mpr ⟨by decide,
        oneLine_member (all _ List.mem_cons_self) onMembers⟩⟩

/-- **One line**, whatever the texts of the value hold. -/
theorem oneLine_dumps {depth : Nat} {value : Json} (writable : Writable depth value) :
    OneLine (dumps value) := by
  induction writable with
  | null => simp [dumps, OneLine]
  | bool value =>
      cases value with
      | true => simp [dumps, OneLine]
      | false => simp [dumps, OneLine]
  | int number short =>
      rw [dumps]
      exact oneLine_writeInt number
  | float literal isLiteral =>
      rw [dumps]
      intro c inside
      refine ⟨?_, ?_⟩
      · rintro rfl
        exact not_mem_of_delimiter isLiteral (Or.inr rfl) inside
      · rintro rfl
        exact not_mem_of_delimiter isLiteral (Or.inr rfl) inside
  | str text isText =>
      rw [dumps]
      exact oneLine_quoted text
  | array items all ih =>
      cases items with
      | nil => simp [dumps, OneLine]
      | cons item items =>
          rw [dumps]
          exact oneLine_cons.mpr ⟨by decide, oneLine_append.mpr ⟨ih item List.mem_cons_self,
            oneLine_items fun other listed => ih other (List.mem_cons_of_mem _ listed)⟩⟩
  | object members keys values ih =>
      cases members with
      | nil => simp [dumps, OneLine]
      | cons member members =>
          obtain ⟨key, value⟩ := member
          rw [dumps]
          exact oneLine_cons.mpr ⟨by decide, oneLine_member (ih _ List.mem_cons_self)
            (oneLine_members fun other listed => ih other (List.mem_cons_of_mem _ listed))⟩

end SecureMsg.Theory
