/-
# Theory.Lines — reading a text line by line

`readline` takes what is left up to the next newline, the newline included, or
all of it where there is none.  `readlines` is the loop that calls it until
nothing is left (`readlines_step`): the text cut after every newline.

`pieces_eq_iff`: when a text arrives in chunks and each chunk is read to its end
before the next one comes, the pieces read are the lines of the text exactly if
every chunk ends with a line.
-/
import Mathlib.Data.List.Basic

namespace SecureMsg.Theory

set_option autoImplicit false

/-- One call, and what it leaves. -/
def readline : List Char → List Char × List Char
  | [] => ([], [])
  | c :: text => if c = '\n' then ([c], text) else ((c :: (readline text).1), (readline text).2)

/-- Everything there is, call by call. -/
def readlines : List Char → List (List Char)
  | [] => []
  | c :: text =>
      if c = '\n' then [c] :: readlines text
      else
        match readlines text with
        | [] => [[c]]
        | line :: lines => (c :: line) :: lines

theorem readlines_eq_nil {text : List Char} : readlines text = [] ↔ text = [] := by
  cases text with
  | nil => simp [readlines]
  | cons c text =>
      simp only [readlines, reduceCtorEq, iff_false]
      split
      · simp
      · split
        · simp
        · simp

/-- The loop: a call, then the rest; it ends when a call returns nothing. -/
theorem readlines_step (text : List Char) :
    readlines text =
      if (readline text).1 = [] then []
      else (readline text).1 :: readlines (readline text).2 := by
  induction text with
  | nil => rfl
  | cons c text ih =>
      by_cases newline : c = '\n'
      · simp [readlines, readline, newline]
      · simp only [readlines, readline, if_neg newline, reduceCtorEq, if_false]
        by_cases nothing : (readline text).1 = []
        · rw [if_pos nothing] at ih
          have empty : text = [] := readlines_eq_nil.mp ih
          subst empty
          rfl
        · rw [if_neg nothing] at ih
          rw [ih]

/-- A line with its newline. -/
def IsLine (line : List Char) : Prop := ∃ body, '\n' ∉ body ∧ line = body ++ ['\n']

/-- Nothing, or text up to the end of a line. -/
def Terminated (text : List Char) : Prop := text = [] ∨ text.getLast? = some '\n'

theorem IsLine.terminated {line : List Char} (isLine : IsLine line) : Terminated line := by
  obtain ⟨body, -, rfl⟩ := isLine
  exact Or.inr List.getLast?_concat

theorem Terminated.of_cons {c : Char} {text : List Char} (ended : Terminated (c :: text)) :
    Terminated text := by
  cases text with
  | nil => exact Or.inl rfl
  | cons d text =>
      rcases ended with empty | last
      · cases empty
      · exact Or.inr (by rwa [List.getLast?_cons_cons] at last)

/-- A text that ends with a line is read before what follows. -/
theorem readlines_append {text : List Char} (ended : Terminated text) (rest : List Char) :
    readlines (text ++ rest) = readlines text ++ readlines rest := by
  induction text with
  | nil => rfl
  | cons c text ih =>
      have onText := ih ended.of_cons
      by_cases newline : c = '\n'
      · simp [readlines, newline, onText]
      · have some_ : text ≠ [] := by
          rintro rfl
          rcases ended with empty | last
          · cases empty
          · exact newline (Option.some.inj last)
        simp only [List.cons_append, readlines, if_neg newline, onText]
        cases pieces : readlines text with
        | nil => exact absurd (readlines_eq_nil.mp pieces) some_
        | cons line lines => rfl

theorem readlines_isLine {line : List Char} (isLine : IsLine line) : readlines line = [line] := by
  obtain ⟨body, noNewline, rfl⟩ := isLine
  induction body with
  | nil => rfl
  | cons c body ih =>
      have different : c ≠ '\n' := fun same => noNewline (same ▸ List.mem_cons_self)
      have onBody := ih fun inside => noNewline (List.mem_cons_of_mem _ inside)
      simp [readlines, different, onBody]

theorem readlines_flatten {lines : List (List Char)} (all : ∀ line ∈ lines, IsLine line) :
    readlines lines.flatten = lines := by
  induction lines with
  | nil => rfl
  | cons line lines ih =>
      have isLine := all line List.mem_cons_self
      rw [List.flatten_cons, readlines_append isLine.terminated, readlines_isLine isLine,
        ih fun other listed => all other (List.mem_cons_of_mem _ listed)]
      rfl

/-- Nothing is lost or added. -/
theorem flatten_readlines (text : List Char) : (readlines text).flatten = text := by
  induction text with
  | nil => rfl
  | cons c text ih =>
      by_cases newline : c = '\n'
      · simp [readlines, newline, ih]
      · simp only [readlines, if_neg newline]
        cases pieces : readlines text with
        | nil =>
            rw [readlines_eq_nil.mp pieces]
            rfl
        | cons line lines =>
            rw [pieces] at ih
            rw [List.flatten_cons] at ih ⊢
            rw [List.cons_append, ih]

theorem flatten_terminated {pieces : List (List Char)} (all : ∀ piece ∈ pieces, Terminated piece) :
    Terminated pieces.flatten := by
  induction pieces with
  | nil => exact Or.inl rfl
  | cons piece pieces ih =>
      rw [List.flatten_cons]
      rcases ih fun other listed => all other (List.mem_cons_of_mem _ listed) with empty | last
      · rw [empty, List.append_nil]
        exact all piece List.mem_cons_self
      · right
        rw [List.getLast?_append, last]
        rfl

/-- **Read chunk by chunk, a text comes out in its lines exactly if every chunk ends with
one.** -/
theorem pieces_eq_iff {lines chunks : List (List Char)} (all : ∀ line ∈ lines, IsLine line)
    (sameText : chunks.flatten = lines.flatten) :
    chunks.flatMap readlines = lines ↔ ∀ chunk ∈ chunks, Terminated chunk := by
  constructor
  · intro same chunk listed
    rw [← flatten_readlines chunk]
    refine flatten_terminated fun piece inside => ?_
    have isPiece : piece ∈ chunks.flatMap readlines := List.mem_flatMap.mpr ⟨chunk, listed, inside⟩
    rw [same] at isPiece
    exact (all piece isPiece).terminated
  · intro ended
    have byChunk : readlines chunks.flatten = chunks.flatMap readlines := by
      clear sameText
      induction chunks with
      | nil => rfl
      | cons chunk chunks ih =>
          rw [List.flatten_cons, readlines_append (ended chunk List.mem_cons_self),
            ih fun other listed => ended other (List.mem_cons_of_mem _ listed), List.flatMap_cons]
    rw [← byChunk, sameText, readlines_flatten all]

end SecureMsg.Theory
