/-
# Theory.Hex — bytes as hexadecimal text

`toHex` writes two lower-case digits a byte.  `fromHex` is the lenient reader:
either case, blanks before a byte or at the end, and nothing for an odd number
of digits.

`fromHex_toHex`: what `toHex` writes is read back.  `hexBytes_eq_none`: of digits
alone the reader refuses exactly the odd numbers.
-/
import SecureMsg.Theory.Decimal

namespace SecureMsg.Theory

set_option autoImplicit false

def hexValue (c : Char) : Option UInt8 :=
  if c.isDigit then some (c.toNat - '0'.toNat).toUInt8
  else if 'a' ≤ c ∧ c ≤ 'f' then some (10 + (c.toNat - 'a'.toNat)).toUInt8
  else if 'A' ≤ c ∧ c ≤ 'F' then some (10 + (c.toNat - 'A'.toNat)).toUInt8
  else none

def hexBytes : List Char → Option (List UInt8)
  | [] => some []
  | [c] => if isBlank c then some [] else none
  | c :: d :: rest =>
      if isBlank c then hexBytes (d :: rest)
      else
        match hexValue c, hexValue d, hexBytes rest with
        | some high, some low, some bytes => some ((16 * high + low) :: bytes)
        | _, _, _ => none

def fromHex (text : String) : Option (List UInt8) := hexBytes text.toList

def hexDigit (value : UInt8) : Char := Nat.digitChar value.toNat

def toHex (bytes : List UInt8) : String :=
  String.ofList (bytes.flatMap fun byte => [hexDigit (byte / 16), hexDigit (byte % 16)])

/-- `int.from_bytes(bytes, "big")` -/
def bytesToNat (bytes : List UInt8) : Nat :=
  bytes.foldl (fun number byte => 256 * number + byte.toNat) 0

/-- A digit is read back, and is no blank. -/
theorem hexValue_digitChar : ∀ n < 16, hexValue (Nat.digitChar n) = some n.toUInt8 ∧
    isBlank (Nat.digitChar n) = false := by decide

theorem hexValue_hexDigit {value : UInt8} (small : value < 16) :
    hexValue (hexDigit value) = some value ∧ isBlank (hexDigit value) = false := by
  have below : value.toNat < 16 := UInt8.lt_iff_toNat_lt.mp small
  have digit := hexValue_digitChar value.toNat below
  rwa [Nat.toUInt8, UInt8.ofNat_toNat] at digit

theorem byte_halves (byte : UInt8) : 16 * (byte / 16) + byte % 16 = byte := by
  refine UInt8.toNat_inj.mp ?_
  have size := byte.toNat_lt
  have sixteen : (16 : UInt8).toNat = 16 := rfl
  simp only [UInt8.toNat_add, UInt8.toNat_mul, UInt8.toNat_div, UInt8.toNat_mod, sixteen]
  omega

/-- **Written bytes are read back.** -/
theorem fromHex_toHex (bytes : List UInt8) : fromHex (toHex bytes) = some bytes := by
  unfold fromHex toHex
  rw [String.toList_ofList]
  induction bytes with
  | nil => rfl
  | cons byte rest ih =>
      have high : byte / 16 < 16 := by
        rw [UInt8.lt_iff_toNat_lt, UInt8.toNat_div]
        have size := byte.toNat_lt
        exact Nat.div_lt_of_lt_mul size
      have low : byte % 16 < 16 := by
        rw [UInt8.lt_iff_toNat_lt, UInt8.toNat_mod]
        exact Nat.mod_lt _ (by decide)
      obtain ⟨isHigh, notBlank⟩ := hexValue_hexDigit high
      obtain ⟨isLow, -⟩ := hexValue_hexDigit low
      rw [List.flatMap_cons, List.cons_append, List.cons_append, List.nil_append, hexBytes,
        notBlank, isHigh, isLow, ih]
      simp only [byte_halves]
      rfl

/-! ## Digits alone -/

/-- A digit of either case. -/
def isHexDigit (c : Char) : Bool :=
  c.isDigit || ('a' ≤ c && c ≤ 'f') || ('A' ≤ c && c ≤ 'F')

theorem hexValue_some {c : Char} (digit : isHexDigit c = true) : ∃ value, hexValue c = some value := by
  unfold hexValue
  split
  · exact ⟨_, rfl⟩
  · split
    · exact ⟨_, rfl⟩
    · split
      · exact ⟨_, rfl⟩
      · simp_all [isHexDigit]

theorem not_blank_of_isHexDigit {c : Char} (digit : isHexDigit c = true) : isBlank c = false := by
  simp only [isHexDigit, Bool.or_eq_true, Bool.and_eq_true, decide_eq_true_eq] at digit
  simp only [isBlank, Bool.or_eq_false_iff, Bool.and_eq_false_iff, decide_eq_false_iff_not]
  rcases digit with (decimal | ⟨low, -⟩) | ⟨low, -⟩
  · simpa [isBlank, imp_iff_not_or] using not_blank_of_isDigit decimal
  · have atLeast : 97 ≤ c.toNat := UInt32.le_iff_toNat_le.mp low
    omega
  · have atLeast : 65 ≤ c.toNat := UInt32.le_iff_toNat_le.mp low
    omega

/-- **Digits alone** fail to decode where one is left over. -/
theorem hexBytes_eq_none : ∀ {chars : List Char}, (∀ c ∈ chars, isHexDigit c = true) →
    (hexBytes chars = none ↔ chars.length % 2 = 1)
  | [], _ => by simp [hexBytes]
  | [c], digits => by simp [hexBytes, not_blank_of_isHexDigit (digits c List.mem_cons_self)]
  | c :: d :: rest, digits => by
      have notBlank := not_blank_of_isHexDigit (digits c List.mem_cons_self)
      obtain ⟨high, isHigh⟩ := hexValue_some (digits c List.mem_cons_self)
      obtain ⟨low, isLow⟩ := hexValue_some (digits d (List.mem_cons_of_mem c List.mem_cons_self))
      have ih : hexBytes rest = none ↔ rest.length % 2 = 1 := hexBytes_eq_none fun x inRest =>
        digits x (List.mem_cons_of_mem c (List.mem_cons_of_mem d inRest))
      have sameParity : (c :: d :: rest).length % 2 = rest.length % 2 := by
        rw [List.length_cons, List.length_cons]
        omega
      rw [sameParity, ← ih, hexBytes, notBlank, isHigh, isLow]
      cases hexBytes rest with
      | none => simp
      | some bytes => simp

theorem fromHex_eq_none {text : String} (digits : text.toList.all isHexDigit = true) :
    fromHex text = none ↔ text.length % 2 = 1 :=
  hexBytes_eq_none (List.all_eq_true.mp digits)

example : fromHex "0a Ff" = some [10, 255] := by decide

example : fromHex "abc" = none := by decide

end SecureMsg.Theory
