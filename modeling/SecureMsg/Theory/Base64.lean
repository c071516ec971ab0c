/-
# Theory.Base64 — bytes as base64 text

`b64encode` writes four characters for three bytes, with `=` to fill up the last
group.  `a2bBase64` is the decoder, a loop over the characters that knows two
modes: the strict one raises for characters outside the alphabet and for padding
out of place, the lenient one skips the characters and stops at the padding.  The
strict mode is the one of Python 3.11 and 3.12, where `=` may follow a complete
group.

`b64decode_lenient`: what the strict decoder accepts, the lenient one decodes to
the same bytes.  `b64decode_b64encode`: the strict decoder reads back what was
encoded.
-/

namespace SecureMsg.Theory

set_option autoImplicit false

/-! ## The alphabet -/

def b64Char (value : UInt8) : Char :=
  if value < 26 then Char.ofNat ('A'.toNat + value.toNat)
  else if value < 52 then Char.ofNat ('a'.toNat + (value.toNat - 26))
  else if value < 62 then Char.ofNat ('0'.toNat + (value.toNat - 52))
  else if value = 62 then '+'
  else '/'

/-- Six bits, for a character of the alphabet. -/
def b64Value (c : Char) : Option UInt8 :=
  if 'A' ≤ c ∧ c ≤ 'Z' then some (c.toNat - 'A'.toNat).toUInt8
  else if 'a' ≤ c ∧ c ≤ 'z' then some (c.toNat - 'a'.toNat + 26).toUInt8
  else if c.isDigit then some (c.toNat - '0'.toNat + 52).toUInt8
  else if c = '+' then some 62
  else if c = '/' then some 63
  else none

/-! ## Encoding -/

def b64Chars : List UInt8 → List Char
  | [] => []
  | [a] => [b64Char (a / 4), b64Char (16 * (a % 4)), '=', '=']
  | [a, b] => [b64Char (a / 4), b64Char (16 * (a % 4) + b / 16), b64Char (4 * (b % 16)), '=']
  | a :: b :: c :: rest =>
      b64Char (a / 4) :: b64Char (16 * (a % 4) + b / 16) :: b64Char (4 * (b % 16) + c / 64) ::
        b64Char (c % 64) :: b64Chars rest

def b64encode (bytes : List UInt8) : String := String.ofList (b64Chars bytes)

/-! ## Decoding -/

/-- The variables of the decoder's loop. -/
structure Quad where
  quadPos : Nat := 0
  leftchar : UInt8 := 0
  pads : Nat := 0
  paddingStarted : Bool := false

/-- Six more bits: the byte they complete, if they do. -/
def Quad.take (quad : Quad) (value : UInt8) : List UInt8 × Quad :=
  match quad.quadPos with
  | 0 => ([], { quad with quadPos := 1, leftchar := value, pads := 0 })
  | 1 => ([4 * quad.leftchar + value / 16],
      { quad with quadPos := 2, leftchar := value % 16, pads := 0 })
  | 2 => ([16 * quad.leftchar + value / 4],
      { quad with quadPos := 3, leftchar := value % 4, pads := 0 })
  | _ => ([64 * quad.leftchar + value], { quad with quadPos := 0, leftchar := 0, pads := 0 })

/-- The loop of `binascii.a2b_base64`; `none` is `binascii.Error`. -/
def a2bLoop (strictMode : Bool) (quad : Quad) : List Char → Option (List UInt8)
  | [] => if quad.quadPos = 0 then some [] else none
  | c :: rest =>
      if c = '=' then
        if 2 ≤ quad.quadPos then
          if 4 ≤ quad.quadPos + (quad.pads + 1) then
            if strictMode && !rest.isEmpty then none else some []
          else
            a2bLoop strictMode { quad with pads := quad.pads + 1, paddingStarted := true } rest
        else a2bLoop strictMode { quad with paddingStarted := true } rest
      else
        match b64Value c with
        | none => if strictMode then none else a2bLoop strictMode quad rest
        | some value =>
            if strictMode && quad.paddingStarted then none
            else
              let (bytes, quad) := quad.take value
              (a2bLoop strictMode quad rest).map (bytes ++ ·)

/-- `binascii.a2b_base64`: leading padding is looked for before the loop. -/
def a2bBase64 (strictMode : Bool) (chars : List Char) : Option (List UInt8) :=
  if strictMode && chars.head? = some '=' then none else a2bLoop strictMode {} chars

/-- `base64.b64decode(text, validate=...)`: text that is not ASCII is refused as well. -/
def b64decode (validate : Bool) (text : String) : Option (List UInt8) :=
  if text.toList.all fun c => c.toNat < 128 then a2bBase64 validate text.toList else none

example : b64decode true "aGVsbG8=" = b64decode false "aGVs bG8=\n" := by decide +kernel

example : b64decode true "AAAA=" = some [0, 0, 0] ∧ b64decode true "=" = none := by decide +kernel

/-! ## Two modes, the same bytes -/

theorem a2bLoop_lenient {chars : List Char} {quad : Quad} {bytes : List UInt8}
    (accepted : a2bLoop true quad chars = some bytes) :
    a2bLoop false quad chars = some bytes := by
  induction chars generalizing quad bytes with
  | nil => exact accepted
  | cons c rest ih =>
      simp only [a2bLoop, Bool.true_and, Bool.false_and, Bool.false_eq_true, if_false,
        if_true] at accepted ⊢
      by_cases padding : c = '='
      · simp only [padding, if_true] at accepted ⊢
        split at accepted
        case isTrue late =>
            rw [if_pos late]
            split at accepted
            case isTrue full =>
                rw [if_pos full]
                split at accepted
                · cases accepted
                · exact accepted
            case isFalse open_ =>
                rw [if_neg open_]
                exact ih accepted
        case isFalse early =>
            rw [if_neg early]
            exact ih accepted
      · simp only [padding, if_false] at accepted ⊢
        cases isValue : b64Value c with
        | none =>
            rw [isValue] at accepted
            cases accepted
        | some value =>
            rw [isValue] at accepted
            dsimp only at accepted ⊢
            split at accepted
            · cases accepted
            · obtain ⟨decoded, isDecoded, same⟩ := Option.map_eq_some_iff.mp accepted
              rw [ih isDecoded, Option.map_some, same]

theorem a2bBase64_lenient {chars : List Char} {bytes : List UInt8}
    (accepted : a2bBase64 true chars = some bytes) : a2bBase64 false chars = some bytes := by
  unfold a2bBase64 at accepted ⊢
  split at accepted
  · cases accepted
  · exact a2bLoop_lenient accepted

/-- **What the strict decoder accepts** the lenient one decodes to the same bytes. -/
theorem b64decode_lenient {text : String} {bytes : List UInt8}
    (accepted : b64decode true text = some bytes) : b64decode false text = some bytes := by
  unfold b64decode at accepted ⊢
  split at accepted
  case isTrue ascii =>
      rw [if_pos ascii]
      exact a2bBase64_lenient accepted
  case isFalse => cases accepted

/-! ## What was encoded is read back -/

/-- A character of the alphabet is read back, and is no padding. -/
theorem b64Value_digit : ∀ n < 64, b64Value (b64Char n.toUInt8) = some n.toUInt8 ∧
    b64Char n.toUInt8 ≠ '=' ∧ (b64Char n.toUInt8).toNat < 128 := by decide

theorem b64Value_b64Char {value : UInt8} (small : value < 64) :
    b64Value (b64Char value) = some value ∧ b64Char value ≠ '=' ∧ (b64Char value).toNat < 128 := by
  have below : value.toNat < 64 := UInt8.lt_iff_toNat_lt.mp small
  have digit := b64Value_digit value.toNat below
  rwa [Nat.toUInt8, UInt8.ofNat_toNat] at digit

theorem a2bLoop_digit {strictMode : Bool} {quad : Quad} {value : UInt8} {rest : List Char}
    (small : value < 64) (unpadded : quad.paddingStarted = false) :
    a2bLoop strictMode quad (b64Char value :: rest) =
      (a2bLoop strictMode (quad.take value).2 rest).map ((quad.take value).1 ++ ·) := by
  obtain ⟨isValue, notPadding, -⟩ := b64Value_b64Char small
  rw [a2bLoop, if_neg notPadding, isValue, unpadded]
  simp

/-- The four values three bytes are written as. -/
theorem sextets_small (a b c : UInt8) : a / 4 < 64 ∧ 16 * (a % 4) + b / 16 < 64 ∧
    4 * (b % 16) + c / 64 < 64 ∧ c % 64 < 64 ∧ 16 * (a % 4) < 64 ∧ 4 * (b % 16) < 64 := by
  have size := a.toNat_lt
  have size' := b.toNat_lt
  have size'' := c.toNat_lt
  simp only [UInt8.lt_iff_toNat_lt, UInt8.toNat_add, UInt8.toNat_mul, UInt8.toNat_div,
    UInt8.toNat_mod, UInt8.reduceToNat]
  omega

/-- The three bytes, put together again. -/
theorem sextets_joined (a b c : UInt8) :
    4 * (a / 4) + (16 * (a % 4) + b / 16) / 16 = a ∧ 4 * (a / 4) + 16 * (a % 4) / 16 = a ∧
      16 * ((16 * (a % 4) + b / 16) % 16) + (4 * (b % 16) + c / 64) / 4 = b ∧
      16 * ((16 * (a % 4) + b / 16) % 16) + 4 * (b % 16) / 4 = b ∧
      64 * ((4 * (b % 16) + c / 64) % 4) + c % 64 = c := by
  have size := a.toNat_lt
  have size' := b.toNat_lt
  have size'' := c.toNat_lt
  simp only [← UInt8.toNat_inj, UInt8.toNat_add, UInt8.toNat_mul, UInt8.toNat_div,
    UInt8.toNat_mod, UInt8.reduceToNat]
  omega

theorem a2bLoop_b64Chars (strictMode : Bool) :
    ∀ bytes, a2bLoop strictMode {} (b64Chars bytes) = some bytes
  | [] => rfl
  | [a] => by
      obtain ⟨first, -, -, -, second, -⟩ := sextets_small a 0 0
      obtain ⟨-, joined, -⟩ := sextets_joined a 0 0
      rw [b64Chars, a2bLoop_digit first rfl, a2bLoop_digit second rfl]
      simp [Quad.take, a2bLoop, joined]
  | [a, b] => by
      obtain ⟨first, second, -, -, -, third⟩ := sextets_small a b 0
      obtain ⟨joined, -, -, joined', -⟩ := sextets_joined a b 0
      rw [b64Chars, a2bLoop_digit first rfl, a2bLoop_digit second rfl,
        a2bLoop_digit third rfl]
      simp [Quad.take, a2bLoop, joined, joined']
  | a :: b :: c :: rest => by
      obtain ⟨first, second, third, fourth, -⟩ := sextets_small a b c
      obtain ⟨joined, -, joined', -, joined''⟩ := sextets_joined a b c
      rw [b64Chars, a2bLoop_digit first rfl, a2bLoop_digit second rfl,
        a2bLoop_digit third rfl, a2bLoop_digit fourth rfl]
      simp [Quad.take, joined, joined', joined'', a2bLoop_b64Chars strictMode rest]

/-- The encoder starts with a character of the alphabet. -/
theorem b64Chars_head : ∀ bytes, (b64Chars bytes).head? ≠ some '='
  | [] => by simp [b64Chars]
  | [a] => by simpa [b64Chars] using (b64Value_b64Char (sextets_small a 0 0).1).2.1
  | [a, b] => by simpa [b64Chars] using (b64Value_b64Char (sextets_small a b 0).1).2.1
  | a :: b :: c :: rest => by
      simpa [b64Chars] using (b64Value_b64Char (sextets_small a b c).1).2.1

theorem a2bBase64_b64Chars (strictMode : Bool) (bytes : List UInt8) :
    a2bBase64 strictMode (b64Chars bytes) = some bytes := by
  rw [a2bBase64, if_neg, a2bLoop_b64Chars]
  simp [b64Chars_head]

theorem b64Chars_ascii : ∀ bytes, ∀ c ∈ b64Chars bytes, c.toNat < 128
  | [], c, written => by cases written
  | [a], c, written => by
      obtain ⟨first, -, -, -, second, -⟩ := sextets_small a 0 0
      simp only [b64Chars, List.mem_cons, List.not_mem_nil, or_false] at written
      rcases written with rfl | rfl | rfl | rfl
      · exact (b64Value_b64Char first).2.2
      · exact (b64Value_b64Char second).2.2
      · decide
      · decide
  | [a, b], c, written => by
      obtain ⟨first, second, -, -, -, third⟩ := sextets_small a b 0
      simp only [b64Chars, List.mem_cons, List.not_mem_nil, or_false] at written
      rcases written with rfl | rfl | rfl | rfl
      · exact (b64Value_b64Char first).2.2
      · exact (b64Value_b64Char second).2.2
      · exact (b64Value_b64Char third).2.2
      · decide
  | a :: b :: c :: rest, d, written => by
      obtain ⟨first, second, third, fourth, -⟩ := sextets_small a b c
      rw [b64Chars, List.mem_cons, List.mem_cons, List.mem_cons, List.mem_cons] at written
      rcases written with rfl | rfl | rfl | rfl | later
      · exact (b64Value_b64Char first).2.2
      · exact (b64Value_b64Char second).2.2
      · exact (b64Value_b64Char third).2.2
      · exact (b64Value_b64Char fourth).2.2
      · exact b64Chars_ascii rest d later

/-- **What was encoded is read back**, strictly or not. -/
theorem b64decode_b64encode (validate : Bool) (bytes : List UInt8) :
    b64decode validate (b64encode bytes) = some bytes := by
  rw [b64decode, b64encode, String.toList_ofList, if_pos, a2bBase64_b64Chars]
  rw [List.all_eq_true]
  exact fun c written => decide_eq_true (b64Chars_ascii bytes c written)

end SecureMsg.Theory
