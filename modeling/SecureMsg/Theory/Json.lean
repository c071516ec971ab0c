/-
# Theory.Json — reading a JSON text

`loads` reads a text in one pass: a scanner cuts it into tokens (`tokens`), and a
machine with a stack of open arrays and objects takes them one by one (`advance`).
The machine stops at the first thing it does not expect, so of two faults in a
text the first is the one reported.

Beside the syntax, two limits of the interpreter can stop a reading: the depth to
which containers are nested, which is a parameter, and the number of digits of an
integer.  Floats are kept as they are written.
-/
import SecureMsg.Theory.Hex

namespace SecureMsg.Theory

set_option autoImplicit false

/-! ## Values -/

/-- Code points, among which an escape may leave a lone surrogate. -/
abbrev CodePoints := List Nat

def codePoints (text : String) : CodePoints := text.toList.map Char.toNat

inductive Json where
  | null
  | bool (value : Bool)
  | int (value : Int)
  | float (literal : List Char)
  | str (text : CodePoints)
  | array (items : List Json)
  /-- The members as they stand in the text. -/
  | object (members : List (CodePoints × Json))

/-- `dict.get(key)`: of members with one key the last counts. -/
def lookup (members : List (CodePoints × Json)) (key : String) : Option Json :=
  (members.reverse.find? fun member => member.1 = codePoints key).map Prod.snd

/-- What `loads` raises. -/
inductive LoadError where
  | jsonDecodeError
  /-- An integer of too many digits. -/
  | valueError
  | recursionError
  deriving DecidableEq, Repr

/-! ## Tokens -/

inductive Token where
  | mark (c : Char)
  | string (text : CodePoints)
  | integer (literal : List Char)
  | constant (value : Json)
  | junk

/-- `[ \t\n\r]` -/
def isJsonSpace (c : Char) : Bool := c = ' ' || c = '\t' || c = '\n' || c = '\r'

def isMark (c : Char) : Bool := ['{', '}', '[', ']', ':', ','].contains c

def unescape : Char → Option Nat
  | '"' => some 34
  | '\\' => some 92
  | '/' => some 47
  | 'b' => some 8
  | 'f' => some 12
  | 'n' => some 10
  | 'r' => some 13
  | 't' => some 9
  | _ => none

def hex4 (a b c d : Char) : Option Nat :=
  match hexValue a, hexValue b, hexValue c, hexValue d with
  | some a, some b, some c, some d =>
      some (4096 * a.toNat + 256 * b.toNat + 16 * c.toNat + d.toNat)
  | _, _, _, _ => none

/-- The rest of a string after its opening quote, and how long it is in the text. -/
def scanString : List Char → Option (CodePoints × Nat)
  | [] => none
  | '"' :: _ => some ([], 1)
  | '\\' :: 'u' :: a :: b :: c :: d :: rest =>
      match hex4 a b c d, scanString rest with
      | some point, some (text, length) => some (point :: text, length + 6)
      | _, _ => none
  | '\\' :: c :: rest =>
      match unescape c, scanString rest with
      | some point, some (text, length) => some (point :: text, length + 2)
      | _, _ => none
  | c :: rest =>
      if c.toNat < 32 then none
      else (scanString rest).map fun (text, length) => (c.toNat :: text, length + 1)

/-- Two escapes may make one code point. -/
def joinSurrogates : CodePoints → CodePoints
  | high :: low :: rest =>
      if 0xD800 ≤ high ∧ high < 0xDC00 ∧ 0xDC00 ≤ low ∧ low < 0xE000 then
        (0x10000 + 1024 * (high - 0xD800) + (low - 0xDC00)) :: joinSurrogates rest
      else high :: joinSurrogates (low :: rest)
  | points => points

def digitsLength (text : List Char) : Nat := (text.takeWhile Char.isDigit).length

def fractionLength : List Char → Nat
  | '.' :: rest => if digitsLength rest = 0 then 0 else digitsLength rest + 1
  | _ => 0

def exponentLength : List Char → Nat
  | c :: rest =>
      if c = 'e' ∨ c = 'E' then
        let sign := if rest.head? = some '+' ∨ rest.head? = some '-' then 1 else 0
        let digits := digitsLength (rest.drop sign)
        if digits = 0 then 0 else 1 + sign + digits
      else 0
  | [] => 0

/-- A number at the start of the text, and its length. -/
def matchNumber (text : List Char) : Option (Token × Nat) :=
  let sign := if text.head? = some '-' then 1 else 0
  let whole := if (text.drop sign).head? = some '0' then 1 else digitsLength (text.drop sign)
  if whole = 0 then none
  else
    let fraction := fractionLength (text.drop (sign + whole))
    let exponent := exponentLength (text.drop (sign + whole + fraction))
    let length := sign + whole + fraction + exponent
    if fraction = 0 ∧ exponent = 0 then some (.integer (text.take length), length)
    else some (.constant (.float (text.take length)), length)

def constants : List (List Char × Json) :=
  [("null".toList, .null), ("true".toList, .bool true), ("false".toList, .bool false),
    ("NaN".toList, .float "NaN".toList), ("Infinity".toList, .float "Infinity".toList),
    ("-Infinity".toList, .float "-Infinity".toList)]

/-- The token at the start of the text, and its length. -/
def tokenAt (text : List Char) : Token × Nat :=
  match text with
  | [] => (.junk, 1)
  | c :: rest =>
      if isMark c then (.mark c, 1)
      else if c = '"' then
        match scanString rest with
        | some (points, length) => (.string (joinSurrogates points), length + 1)
        | none => (.junk, 1)
      else
        match constants.find? fun constant => constant.1.isPrefixOf text with
        | some (name, value) => (.constant value, name.length)
        | none => (matchNumber text).getD (.junk, 1)

/-- `skipped` characters belong to the token before. -/
def tokens (skipped : Nat) : List Char → List Token
  | [] => []
  | c :: rest =>
      match skipped with
      | k + 1 => tokens k rest
      | 0 =>
          if isJsonSpace c then tokens 0 rest
          else
            let (token, length) := tokenAt (c :: rest)
            token :: tokens (length - 1) rest

/-! ## The machine -/

/-- An array or object being read. -/
inductive Frame where
  | array (items : List Json)
  | object (members : List (CodePoints × Json))
  /-- The value of the key is still to come. -/
  | member (members : List (CodePoints × Json)) (key : CodePoints)

/-- What may come next. -/
inductive Position where
  | value
  /-- The first entry of the container just opened, or its end. -/
  | opened
  | key
  | colon
  /-- A comma, or the end of the container. -/
  | entry
  | done (value : Json)

abbrev Machine := Position × List Frame

/-- A value has been read. -/
def complete (value : Json) : List Frame → Except LoadError Machine
  | [] => .ok (.done value, [])
  | .array items :: stack => .ok (.entry, .array (items ++ [value]) :: stack)
  | .member members key :: stack => .ok (.entry, .object (members ++ [(key, value)]) :: stack)
  | .object _ :: _ => .error .jsonDecodeError

/-- `sys.get_int_max_str_digits()` -/
def intMaxStrDigits : Nat := 4300

def integerValue : List Char → Int
  | '-' :: digits => -(Nat.ofDigitChars 10 digits 0 : Int)
  | digits => Nat.ofDigitChars 10 digits 0

def openFrame (maxDepth : Nat) (frame : Frame) (stack : List Frame) : Except LoadError Machine :=
  if stack.length < maxDepth then .ok (.opened, frame :: stack) else .error .recursionError

def readValue (maxDepth : Nat) (stack : List Frame) : Token → Except LoadError Machine
  | .mark '[' => openFrame maxDepth (.array []) stack
  | .mark '{' => openFrame maxDepth (.object []) stack
  | .string text => complete (.str text) stack
  | .constant value => complete value stack
  | .integer literal =>
      if (literal.filter Char.isDigit).length ≤ intMaxStrDigits then
        complete (.int (integerValue literal)) stack
      else .error .valueError
  | _ => .error .jsonDecodeError

def advanceJson (maxDepth : Nat) : Machine → Token → Except LoadError Machine
  | (.value, stack), token => readValue maxDepth stack token
  | (.opened, .array items :: stack), .mark ']' => complete (.array items) stack
  | (.opened, .array items :: stack), token => readValue maxDepth (.array items :: stack) token
  | (.opened, .object members :: stack), .mark '}' => complete (.object members) stack
  | (.opened, .object members :: stack), .string key => .ok (.colon, .member members key :: stack)
  | (.key, .object members :: stack), .string key => .ok (.colon, .member members key :: stack)
  | (.colon, stack), .mark ':' => .ok (.value, stack)
  | (.entry, .array items :: stack), .mark ',' => .ok (.value, .array items :: stack)
  | (.entry, .array items :: stack), .mark ']' => complete (.array items) stack
  | (.entry, .object members :: stack), .mark ',' => .ok (.key, .object members :: stack)
  | (.entry, .object members :: stack), .mark '}' => complete (.object members) stack
  | _, _ => .error .jsonDecodeError

/-- `json.loads(text)` -/
def loads (maxDepth : Nat) (text : List Char) : Except LoadError Json := do
  match ← (tokens 0 text).foldlM (advanceJson maxDepth) (.value, []) with
  | (.done value, _) => return value
  | _ => .error .jsonDecodeError

end SecureMsg.Theory
