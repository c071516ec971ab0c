/-
# Theory.Sequences — ids that sessions draw from a sequence

A sequence gives out values outside transactions: a session that draws one and does
not commit has used it up.  `Drawn` says that the ids of the sessions (`idOf`) were
drawn in the run, each by one session; an id is `Born` if it is older than the run
or that of a session that has ended.  What an open session has drawn is not born,
so no committed row has it and no statement has chosen it.
-/
import SecureMsg.Theory.Transactions
import Mathlib.Algebra.Order.Ring.Int

namespace SecureMsg.Theory

set_option autoImplicit false

universe v w x

variable {π : Type v} {ω : Type w} {ρ : Type x} (idOf : Session π ω ρ → Option Int) (first : Int)

structure Drawn (next : Int) (sessions : List (Session π ω ρ)) : Prop where
  forward : first ≤ next
  within : ∀ (n : Nat) session id, sessions[n]? = some session → idOf session = some id →
    first ≤ id ∧ id < next
  once : ∀ (n m : Nat) session other id, sessions[n]? = some session → sessions[m]? = some other →
    idOf session = some id → idOf other = some id → n = m

/-- The id is older than the run, or that of a session that has ended. -/
def Born (sessions : List (Session π ω ρ)) (id : Int) : Prop :=
  id < first ∨ ∃ (n : Nat) (answer : ρ), sessions[n]? = some (.ended answer) ∧
    idOf (.ended answer) = some id

variable {idOf first} {next : Int} {sessions : List (Session π ω ρ)} {n : Nat}
  {session session' : Session π ω ρ} {id : Int}

namespace Drawn

/-- What an open session has drawn is not born. -/
theorem unborn (drawn : Drawn idOf first next sessions) {point : π} {own : List ω}
    (at_ : sessions[n]? = some (.running point own))
    (isDrawn : idOf (.running point own) = some id) :
    ¬ Born idOf first sessions id := by
  rintro (old | ⟨m, answer, ended, alsoDrawn⟩)
  · exact absurd old (not_lt_of_ge (drawn.within n _ id at_ isDrawn).1)
  · have same := drawn.once n m _ _ id at_ ended isDrawn alsoDrawn
    subst same
    rw [at_] at ended
    cases ended

/-- A session that draws nothing; others may have moved the sequence. -/
theorem keep (drawn : Drawn idOf first next sessions) (at_ : sessions[n]? = some session)
    (same : ∀ id, idOf session' = some id → idOf session = some id) :
    Drawn idOf first next (sessions.set n session') where
  forward := drawn.forward
  within := by
    intro k other id found isDrawn
    rcases (getElem?_replaced at_).mp found with ⟨rfl, rfl⟩ | ⟨-, before⟩
    · exact drawn.within k session id at_ (same id isDrawn)
    · exact drawn.within k other id before isDrawn
  once := by
    -- where a session stands now there stood one with the same id
    have earlier : ∀ (k : Nat) other id, (sessions.set n session')[k]? = some other →
        idOf other = some id → ∃ before, sessions[k]? = some before ∧ idOf before = some id := by
      intro k other id found isDrawn
      rcases (getElem?_replaced at_).mp found with ⟨rfl, rfl⟩ | ⟨-, before⟩
      · exact ⟨session, at_, same id isDrawn⟩
      · exact ⟨other, before, isDrawn⟩
    intro j k one other id found alsoFound isDrawn alsoDrawn
    obtain ⟨_, before, wasDrawn⟩ := earlier j one id found isDrawn
    obtain ⟨_, before', wasDrawn'⟩ := earlier k other id alsoFound alsoDrawn
    exact drawn.once j k _ _ id before before' wasDrawn wasDrawn'

/-- A session that draws the next id. -/
theorem draw (drawn : Drawn idOf first next sessions) (at_ : sessions[n]? = some session)
    (isNext : idOf session' = some next) :
    Drawn idOf first (next + 1) (sessions.set n session') where
  forward := drawn.forward.trans (Int.lt_succ next).le
  within := by
    intro k other id found isDrawn
    rcases (getElem?_replaced at_).mp found with ⟨rfl, rfl⟩ | ⟨-, before⟩
    · cases isNext.symm.trans isDrawn
      exact ⟨drawn.forward, Int.lt_succ next⟩
    · obtain ⟨new, old⟩ := drawn.within k other id before isDrawn
      exact ⟨new, old.trans (Int.lt_succ next)⟩
  once := by
    -- nobody has drawn it before
    have unused : ∀ (k : Nat) other, sessions[k]? = some other → idOf other ≠ some next :=
      fun k other before isDrawn => lt_irrefl _ (drawn.within k other next before isDrawn).2
    intro j k one other id found alsoFound isDrawn alsoDrawn
    rcases (getElem?_replaced at_).mp found with ⟨rfl, rfl⟩ | ⟨-, before⟩
    · cases isNext.symm.trans isDrawn
      rcases (getElem?_replaced at_).mp alsoFound with ⟨rfl, -⟩ | ⟨-, before⟩
      · rfl
      · exact absurd alsoDrawn (unused k other before)
    · rcases (getElem?_replaced at_).mp alsoFound with ⟨rfl, rfl⟩ | ⟨-, before'⟩
      · cases isNext.symm.trans alsoDrawn
        exact absurd isDrawn (unused j one before)
      · exact drawn.once j k one other id before before' isDrawn alsoDrawn

end Drawn

/-- An id once born stays so. -/
theorem Born.keep {point : π} {own : List ω} (born : Born idOf first sessions id)
    (at_ : sessions[n]? = some (.running point own)) :
    Born idOf first (sessions.set n session') id := by
  refine born.imp_right ?_
  rintro ⟨m, answer, ended, isDrawn⟩
  refine ⟨m, answer, (getElem?_replaced at_).mpr (Or.inr ⟨?_, ended⟩), isDrawn⟩
  rintro rfl
  rw [at_] at ended
  cases ended

/-- The id of a session that ends. -/
theorem Born.ends {answer : ρ} (at_ : sessions[n]? = some session)
    (isDrawn : idOf (.ended answer) = some id) :
    Born idOf first (sessions.set n (.ended answer)) id :=
  Or.inr ⟨n, answer, (getElem?_replaced at_).mpr (Or.inl ⟨rfl, rfl⟩), isDrawn⟩

end SecureMsg.Theory
