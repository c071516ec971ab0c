/-
# Theory.Decimal — integers as decimal text

`parseInt` reads an integer the way a lenient decimal reader does: blanks around
it, an optional sign, digits, single underscores between digits.  It is total
and structural, so a run that parses can be evaluated.

`parseInt_repr`: what `Int.repr` writes is read back.
-/
import Mathlib.Data.List.Basic
import Mathlib.Data.Int.Init

namespace SecureMsg.Theory

set_option autoImplicit false

/-- The digits of a number; `afterDigit` says whether an underscore, or the end,
may come next. -/
def digitRun (value : Nat) : (afterDigit : Bool) → List Char → Option Nat
  | afterDigit, [] => if afterDigit then some value else none
  | afterDigit, c :: rest =>
      if c.isDigit then digitRun (10 * value + (c.toNat - '0'.toNat)) true rest
      else if c = '_' && afterDigit then digitRun value false rest
      else none

/-- ASCII white space. -/
def isBlank (c : Char) : Bool := c.toNat = 32 || (9 ≤ c.toNat && c.toNat ≤ 13)

def trimBlanks (text : List Char) : List Char :=
  ((text.dropWhile isBlank).reverse.dropWhile isBlank).reverse

def parseSigned : List Char → Option Int
  | '-' :: digits => (digitRun 0 false digits).map fun n => -(n : Int)
  | '+' :: digits => (digitRun 0 false digits).map fun n => (n : Int)
  | digits => (digitRun 0 false digits).map fun n => (n : Int)

def parseInt (text : String) : Option Int := parseSigned (trimBlanks text.toList)

/-! ## Reading back what was written -/

theorem digitRun_digits {digits : List Char} (all : ∀ c ∈ digits, c.isDigit = true) (value : Nat)
    (afterDigit : Bool) :
    digitRun value afterDigit digits =
      if digits = [] then (if afterDigit then some value else none)
      else some (Nat.ofDigitChars 10 digits value) := by
  induction digits generalizing value afterDigit with
  | nil => simp [digitRun]
  | cons c rest ih =>
      have isDigit := all c List.mem_cons_self
      have onRest := ih (fun d inRest => all d (List.mem_cons_of_mem _ inRest))
        (10 * value + (c.toNat - '0'.toNat)) true
      rw [digitRun, if_pos isDigit, onRest, if_neg (List.cons_ne_nil c rest),
        Nat.ofDigitChars_cons]
      by_cases last : rest = []
      · subst last
        rfl
      · rw [if_neg last]

theorem trimBlanks_of_no_blank {text : List Char} (none_ : ∀ c ∈ text, isBlank c = false) :
    trimBlanks text = text := by
  have keeps : ∀ l : List Char, (∀ c ∈ l, isBlank c = false) → l.dropWhile isBlank = l := by
    intro l noBlank
    cases l with
    | nil => rfl
    | cons c rest => simp [noBlank c List.mem_cons_self]
  rw [trimBlanks, keeps text none_, keeps text.reverse, List.reverse_reverse]
  intro c inText
  exact none_ c (List.mem_reverse.mp inText)

theorem not_blank_of_isDigit {c : Char} (digit : c.isDigit = true) : isBlank c = false := by
  simp only [Char.isDigit, Bool.and_eq_true, decide_eq_true_eq] at digit
  have atLeast : 48 ≤ c.toNat := UInt32.le_iff_toNat_le.mp digit.1
  simp only [isBlank, Bool.or_eq_false_iff, Bool.and_eq_false_iff, decide_eq_false_iff_not]
  omega

theorem isDigit_of_mem_repr {n : Nat} {c : Char} (written : c ∈ Nat.toDigits 10 n) :
    c.isDigit = true :=
  Nat.isDigit_of_mem_toDigits (by omega) (by omega) written

theorem digitRun_toDigits (n : Nat) : digitRun 0 false (Nat.toDigits 10 n) = some n := by
  rw [digitRun_digits (fun c => isDigit_of_mem_repr), if_neg Nat.toDigits_ne_nil,
    Nat.ofDigitChars_ten_toDigits]

theorem parseSigned_toDigits (n : Nat) : parseSigned (Nat.toDigits 10 n) = some (n : Int) := by
  have run := digitRun_toDigits n
  match written : Nat.toDigits 10 n with
  | [] => exact absurd written Nat.toDigits_ne_nil
  | c :: rest =>
      have digit : c.isDigit = true := isDigit_of_mem_repr (written ▸ List.mem_cons_self)
      rw [written] at run
      unfold parseSigned
      split
      case h_1 signed =>
          cases signed
          exact absurd digit (by decide)
      case h_2 signed =>
          cases signed
          exact absurd digit (by decide)
      case h_3 =>
          rw [run]
          rfl

/-- **Written and read back.** -/
theorem parseInt_repr (number : Int) : parseInt number.repr = some number := by
  cases number with
  | ofNat n =>
      show parseSigned (trimBlanks n.repr.toList) = some (n : Int)
      rw [Nat.toList_repr, trimBlanks_of_no_blank]
      · exact parseSigned_toDigits n
      · exact fun c written => not_blank_of_isDigit (isDigit_of_mem_repr written)
  | negSucc n =>
      have text : ("-" ++ n.succ.repr).toList = '-' :: Nat.toDigits 10 n.succ := by
        rw [String.toList_append, Nat.toList_repr]
        rfl
      show parseSigned (trimBlanks ("-" ++ n.succ.repr).toList) = _
      rw [text, trimBlanks_of_no_blank]
      · show (digitRun 0 false (Nat.toDigits 10 n.succ)).map (fun n => -(n : Int)) = _
        rw [digitRun_toDigits]
        rfl
      · intro c written
        rcases List.mem_cons.mp written with rfl | digit
        · decide
        · exact not_blank_of_isDigit (isDigit_of_mem_repr digit)

theorem repr_injective {a b : Int} (same : a.repr = b.repr) : a = b := by
  have read := parseInt_repr a
  rw [same, parseInt_repr b] at read
  exact (Option.some.inj read).symm

example : parseInt " +1_000 " = some 1000 := by decide

end SecureMsg.Theory
