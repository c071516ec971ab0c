/-
# Theory.Pattern — leftmost search for a pattern

A `Pattern` is a sequence of items: a character, a word boundary, or a captured
run of one or more characters of a class.  `matchAt` tries the items in order, the
longest run first; `search` takes the leftmost position with a match, and returns
what the runs captured there.

The searches that can be foretold are those for a word that ends in a mark, in
text cut at that mark: the word can only stand right before a mark
(`searchFrom_until`).

Which characters are digits, letters or blanks is a table (`Unicode`), of which
only the part below 128 is written out.
-/
import Mathlib.Data.List.Infix
import Mathlib.Data.List.TakeWhile

namespace SecureMsg.Theory

set_option autoImplicit false

/-! ## Characters -/

/-- The properties of characters a pattern asks for. -/
structure Unicode where
  isDecimal : Char → Bool
  isAlphanumeric : Char → Bool
  isSpace : Char → Bool
  decimal_ascii : ∀ c : Char, c.toNat < 128 → isDecimal c = c.isDigit
  alphanumeric_ascii : ∀ c : Char, c.toNat < 128 → isAlphanumeric c = c.isAlphanum
  space_ascii : ∀ c : Char, c.toNat < 128 →
    isSpace c = (c.toNat = 32 || (9 ≤ c.toNat && c.toNat ≤ 13) || (28 ≤ c.toNat && c.toNat ≤ 31))

namespace Unicode

/-- The table that knows no other characters. -/
def ascii : Unicode where
  isDecimal c := c.isDigit
  isAlphanumeric c := c.isAlphanum
  isSpace c := c.toNat = 32 || (9 ≤ c.toNat && c.toNat ≤ 13) || (28 ≤ c.toNat && c.toNat ≤ 31)
  decimal_ascii _ _ := rfl
  alphanumeric_ascii _ _ := rfl
  space_ascii _ _ := rfl

variable (unicode : Unicode)

/-- `\w` -/
def isWord (c : Char) : Bool := unicode.isAlphanumeric c || c = '_'

/-- `str.rstrip()` -/
def rstrip (text : List Char) : List Char := (text.reverse.dropWhile unicode.isSpace).reverse

/-- `str.strip()` -/
def strip (text : List Char) : List Char := unicode.rstrip (text.dropWhile unicode.isSpace)

/-- What `strip` takes off is white space at the ends. -/
theorem strip_pads (text : List Char) : ∃ before after, text = before ++ unicode.strip text ++ after ∧
    (∀ c ∈ before, unicode.isSpace c = true) ∧ ∀ c ∈ after, unicode.isSpace c = true := by
  refine ⟨text.takeWhile unicode.isSpace,
    ((text.dropWhile unicode.isSpace).reverse.takeWhile unicode.isSpace).reverse, ?_, ?_, ?_⟩
  · rw [strip, rstrip, List.append_assoc, ← List.reverse_append, List.takeWhile_append_dropWhile,
      List.reverse_reverse, List.takeWhile_append_dropWhile]
  · exact fun c inside => List.mem_takeWhile_imp inside
  · exact fun c inside => List.mem_takeWhile_imp (List.mem_reverse.mp inside)

theorem isWord_ascii {c : Char} (small : c.toNat < 128) :
    unicode.isWord c = (c.isAlphanum || c = '_') := by
  rw [isWord, unicode.alphanumeric_ascii c small]

end Unicode

/-! ## Patterns -/

inductive Item where
  | char (c : Char)
  /-- `\b` -/
  | boundary
  /-- `([...]+)`, greedy -/
  | run (accepts : Char → Bool)

abbrev Pattern := List Item

def literal (word : List Char) : Pattern := word.map .char

variable (unicode : Unicode)

/-- `\b` between two characters, the ends of the text being none. -/
def atBoundary (before after : Option Char) : Bool :=
  before.any unicode.isWord != after.any unicode.isWord

/-- What the runs capture when the pattern is matched here. -/
def matchAt : Pattern → (before : Option Char) → List Char → Option (List (List Char))
  | [], _, _ => some []
  | .char _ :: _, _, [] => none
  | .char c :: items, _, x :: text => if x = c then matchAt items (some x) text else none
  | .boundary :: items, before, text =>
      if atBoundary unicode before text.head? then matchAt items before text else none
  | .run accepts :: items, _, text =>
      (List.range (text.takeWhile accepts).length).reverse.findSome? fun n =>
        (matchAt items text[n]? (text.drop (n + 1))).map fun groups => text.take (n + 1) :: groups

def searchFrom (pattern : Pattern) : (before : Option Char) → List Char → Option (List (List Char))
  | before, [] => matchAt unicode pattern before []
  | before, c :: text =>
      match matchAt unicode pattern before (c :: text) with
      | some groups => some groups
      | none => searchFrom pattern (some c) text

/-- `re.search(pattern, text)`, as its groups. -/
def search (pattern : Pattern) (text : List Char) : Option (List (List Char)) :=
  searchFrom unicode pattern none text

/-! ## One match -/

section Match

variable {unicode} {items : Pattern} {before : Option Char}

/-- A word and the mark it ends in. -/
theorem matchAt_word (word : List Char) (mark : Char) (text : List Char) :
    matchAt unicode (literal word ++ .char mark :: items) before text =
      if word ++ [mark] <+: text then
        matchAt unicode items (some mark) (text.drop (word.length + 1))
      else none := by
  induction word generalizing before text with
  | nil =>
      cases text with
      | nil => simp [literal, matchAt]
      | cons x text =>
          by_cases same : x = mark
          · simp [literal, matchAt, same]
          · simp [literal, matchAt, List.cons_prefix_cons, same, Ne.symm same]
  | cons c word ih =>
      cases text with
      | nil => simp [literal, matchAt]
      | cons x text =>
          by_cases same : x = c
          · subst same
            have step : matchAt unicode (literal (x :: word) ++ .char mark :: items) before
                (x :: text) = matchAt unicode (literal word ++ .char mark :: items) (some x) text := by
              simp [literal, matchAt]
            rw [step, ih]
            simp
          · have notPrefix : ¬ c :: word ++ [mark] <+: x :: text := by
              rw [List.cons_append, List.cons_prefix_cons]
              exact fun both => same both.1.symm
            rw [if_neg notPrefix]
            simp [literal, matchAt, same]

/-- A run with nothing after it is as long as it can be. -/
theorem matchAt_run (accepts : Char → Bool) (text : List Char) :
    matchAt unicode [.run accepts] before text =
      if text.takeWhile accepts = [] then none else some [text.takeWhile accepts] := by
  rw [matchAt]
  cases length : (text.takeWhile accepts).length with
  | zero => simp [List.length_eq_zero_iff.mp length]
  | succ n =>
      have taken : text.take (n + 1) = text.takeWhile accepts := by
        rw [← length]
        exact (List.prefix_iff_eq_take.mp (List.takeWhile_prefix accepts)).symm
      have some_ : text.takeWhile accepts ≠ [] := by
        rw [← List.length_pos_iff_ne_nil]
        omega
      simp [List.range_succ, matchAt, taken, some_]

/-- A run that a character of another class must follow: no shorter run will do. -/
theorem matchAt_run_char {accepts : Char → Bool} {stop : Char} (outside : accepts stop = false)
    {run text : List Char} (inside : ∀ c ∈ run, accepts c = true) :
    matchAt unicode [.run accepts, .char stop] before (run ++ stop :: text) =
      if run = [] then none else some [run] := by
  have longest : (run ++ stop :: text).takeWhile accepts = run := by
    rw [List.takeWhile_append_of_pos inside, List.takeWhile_cons_of_neg (by simp [outside]),
      List.append_nil]
  rw [matchAt, longest]
  cases length : run.length with
  | zero => simp [List.length_eq_zero_iff.mp length]
  | succ n =>
      have some_ : run ≠ [] := by
        rw [← List.length_pos_iff_ne_nil]
        omega
      have taken : (run ++ stop :: text).take (n + 1) = run := by
        rw [← length]
        exact List.take_left
      have left : (run ++ stop :: text).drop (n + 1) = stop :: text := by
        rw [← length]
        exact List.drop_left
      simp [List.range_succ, matchAt, taken, left, some_]

end Match

/-! ## Searching for a word that ends in a mark -/

section Until

variable {unicode} {items : Pattern} {word part rest : List Char} {mark : Char}
  {before : Option Char}

/-- The mark being in neither, the word is all there is before it. -/
theorem word_prefix_iff (notWord : mark ∉ word) (notPart : mark ∉ part) :
    word ++ [mark] <+: part ++ mark :: rest ↔ part = word := by
  induction word generalizing part with
  | nil =>
      cases part with
      | nil => simp
      | cons x part =>
          have different : mark ≠ x := fun same => notPart (same ▸ List.mem_cons_self)
          simp [List.cons_prefix_cons, different]
  | cons c word ih =>
      have notWord' : mark ∉ word := fun inside => notWord (List.mem_cons_of_mem _ inside)
      cases part with
      | nil =>
          have different : c ≠ mark := fun same => notWord (same ▸ List.mem_cons_self)
          simp [List.cons_prefix_cons, different]
      | cons x part =>
          have notPart' : mark ∉ part := fun inside => notPart (List.mem_cons_of_mem _ inside)
          rw [List.cons_append, List.cons_append, List.cons_prefix_cons, ih notWord' notPart',
            List.cons.injEq, eq_comm]

/-- The word, at a word boundary if `anchored`, with its mark, and then the items. -/
def wordPattern (anchored : Bool) (word : List Char) (mark : Char) (items : Pattern) : Pattern :=
  (if anchored then [.boundary] else []) ++ (literal word ++ .char mark :: items)

/-- The part ends in the word, at a word boundary if `anchored`. -/
def EndsIn (unicode : Unicode) (anchored : Bool) (before : Option Char)
    (word part : List Char) : Prop :=
  ∃ left, part = left ++ word ∧
    (anchored = true → atBoundary unicode (left.getLast?.or before) word.head? = true)

variable {anchored : Bool}

theorem matchAt_wordPattern (notWord : mark ∉ word) (notPart : mark ∉ part) (some_ : word ≠ []) :
    matchAt unicode (wordPattern anchored word mark items) before (part ++ mark :: rest) =
      if part = word ∧ (anchored = true → atBoundary unicode before word.head? = true) then
        matchAt unicode items (some mark) rest
      else none := by
  have here : matchAt unicode (literal word ++ .char mark :: items) before (part ++ mark :: rest) =
      if part = word then matchAt unicode items (some mark) rest else none := by
    rw [matchAt_word]
    by_cases same : part = word
    · subst same
      rw [if_pos ((word_prefix_iff notPart notPart).mpr rfl), if_pos rfl]
      simp
    · rw [if_neg fun inside => same ((word_prefix_iff notWord notPart).mp inside), if_neg same]
  cases anchored with
  | false => simpa [wordPattern] using here
  | true =>
      simp only [wordPattern, if_true, List.singleton_append, matchAt, here]
      by_cases same : part = word
      · subst same
        cases part with
        | nil => exact absurd rfl some_
        | cons c part => simp
      · simp [same]

/-- What comes last, having come after `before`. -/
theorem last_cons (c : Char) (left : List Char) (before : Option Char) :
    (c :: left).getLast?.or before = left.getLast?.or (some c) := by
  rw [List.getLast?_cons]
  cases left.getLast? with
  | none => rfl
  | some last => rfl

theorem EndsIn.cons {c : Char} (ends : EndsIn unicode anchored (some c) word part) :
    EndsIn unicode anchored before word (c :: part) := by
  obtain ⟨left, rfl, bounded⟩ := ends
  refine ⟨c :: left, rfl, fun isAnchored => ?_⟩
  rw [last_cons]
  exact bounded isAnchored

/-- A part with no match in it is passed over with its mark. -/
theorem searchFrom_skip (notWord : mark ∉ word) (notPart : mark ∉ part) (some_ : word ≠ [])
    (noMatch : EndsIn unicode anchored before word part →
      matchAt unicode items (some mark) rest = none) :
    searchFrom unicode (wordPattern anchored word mark items) before (part ++ mark :: rest) =
      searchFrom unicode (wordPattern anchored word mark items) (some mark) rest := by
  induction part generalizing before with
  | nil =>
      have none_ : matchAt unicode (wordPattern anchored word mark items) before
          ([] ++ mark :: rest) = none := by
        rw [matchAt_wordPattern notWord notPart some_]
        exact if_neg fun both => some_ both.1.symm
      rw [List.nil_append] at none_ ⊢
      rw [searchFrom, none_]
  | cons c part ih =>
      have none_ : matchAt unicode (wordPattern anchored word mark items) before
          (c :: part ++ mark :: rest) = none := by
        rw [matchAt_wordPattern notWord notPart some_]
        by_cases fires : c :: part = word ∧
            (anchored = true → atBoundary unicode before word.head? = true)
        · rw [if_pos fires]
          exact noMatch ⟨[], fires.1, fires.2⟩
        · exact if_neg fires
      rw [List.cons_append] at none_ ⊢
      rw [searchFrom, none_]
      exact ih (fun inside => notPart (List.mem_cons_of_mem _ inside)) fun ends => noMatch ends.cons

/-- A match at the end of a part is the leftmost one. -/
theorem searchFrom_found {groups : List (List Char)} (notWord : mark ∉ word) (notPart : mark ∉ part)
    (some_ : word ≠ []) (ends : EndsIn unicode anchored before word part)
    (isMatch : matchAt unicode items (some mark) rest = some groups) :
    searchFrom unicode (wordPattern anchored word mark items) before (part ++ mark :: rest) =
      some groups := by
  obtain ⟨left, isPart, bounded⟩ := ends
  induction left generalizing part before with
  | nil =>
      rw [List.nil_append] at isPart
      subst isPart
      cases part with
      | nil => exact absurd rfl some_
      | cons c part =>
          have here : matchAt unicode (wordPattern anchored (c :: part) mark items) before
              (c :: part ++ mark :: rest) = some groups := by
            rw [matchAt_wordPattern notPart notPart some_, if_pos ⟨rfl, bounded⟩, isMatch]
          rw [List.cons_append] at here ⊢
          rw [searchFrom, here]
  | cons c left ih =>
      subst isPart
      have longer : c :: left ++ word ≠ word := by
        intro same
        have lengths := congrArg List.length same
        simp at lengths
        omega
      have none_ : matchAt unicode (wordPattern anchored word mark items) before
          (c :: left ++ word ++ mark :: rest) = none := by
        rw [matchAt_wordPattern notWord notPart some_]
        exact if_neg fun both => longer both.1
      rw [List.cons_append, List.cons_append] at none_ ⊢
      rw [searchFrom, none_]
      refine ih (fun inside => notPart (List.mem_cons_of_mem _ inside)) rfl fun isAnchored => ?_
      rw [← last_cons]
      exact bounded isAnchored

/-- Without the mark there is no match. -/
theorem searchFrom_none (noMark : mark ∉ rest) :
    searchFrom unicode (wordPattern anchored word mark items) before rest = none := by
  have here : ∀ before text, mark ∉ text →
      matchAt unicode (wordPattern anchored word mark items) before text = none := by
    intro before text absent
    have word_ : ∀ before, matchAt unicode (literal word ++ .char mark :: items) before text =
        none := by
      intro before
      rw [matchAt_word]
      refine if_neg fun inside => absent (inside.subset ?_)
      exact List.mem_append_right _ (List.mem_singleton_self mark)
    cases anchored with
    | false => simpa [wordPattern] using word_ before
    | true => simp [wordPattern, matchAt, word_]
  induction rest generalizing before with
  | nil => exact here before [] noMark
  | cons c rest ih =>
      rw [searchFrom, here before (c :: rest) noMark]
      exact ih fun inside => noMark (List.mem_cons_of_mem _ inside)

end Until

end SecureMsg.Theory
