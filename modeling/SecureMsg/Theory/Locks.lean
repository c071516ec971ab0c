/-
# Theory.Locks — programs whose held writes exclude one another

A program takes locks as it takes writes: `conflicts` says which two writes two
open sessions must not both hold.  A program that goes on only where no other
session holds a conflicting write (`Locking`) never lets two sessions hold one
(`compatible`).

`stops`: if every statement that goes on moves its session down a well-founded
order, a session run on its own comes to wait or ends.
-/
import SecureMsg.Theory.Transactions
import Mathlib.Order.WellFounded

namespace SecureMsg.Theory

set_option autoImplicit false

universe u v w x y

variable {σ : Type u} {π : Type v} {ω : Type w} {ρ : Type x}

namespace Program

/-- Session `n` is at a statement that waits. -/
def Waits (P : Program σ π ω ρ) (W : World σ π ω ρ) (n : Nat) : Prop :=
  ∃ point own, W.sessions[n]? = some (.running point own) ∧
    P.next point own (P.view W.committed own) (heldBesides W.sessions n) = .wait

/-- What a statement adds to the session's writes conflicts with none that is held. -/
structure Locking (P : Program σ π ω ρ) (conflicts : ω → ω → Prop) : Prop where
  symm : ∀ a b, conflicts a b → conflicts b a
  respects : ∀ point own view held draw point' own',
    P.next point own view held = .proceed draw point' own' →
      ∀ wr ∈ own', wr ∈ own ∨ ∀ other ∈ held, ¬ conflicts wr other

/-- No two open sessions hold conflicting writes. -/
def Compatible (conflicts : ω → ω → Prop) (sessions : List (Session π ω ρ)) : Prop :=
  ∀ (n m : Nat) point own point' own', n ≠ m → sessions[n]? = some (.running point own) →
    sessions[m]? = some (.running point' own') → ∀ wr ∈ own, ∀ wr' ∈ own', ¬ conflicts wr wr'

variable {P : Program σ π ω ρ} {conflicts : ω → ω → Prop} {start W : World σ π ω ρ} {n m : Nat}

/-- A session that ends leaves the others as they were. -/
theorem compatible_ended {sessions : List (Session π ω ρ)} (now : Compatible conflicts sessions)
    {s : Session π ω ρ} (at_ : sessions[n]? = some s) (answer : ρ) :
    Compatible conflicts (sessions.set n (.ended answer)) := by
  intro i j point own point' own' different first second
  rcases (getElem?_replaced at_).mp first with ⟨-, isEnded⟩ | ⟨-, first⟩
  · cases isEnded
  · rcases (getElem?_replaced at_).mp second with ⟨-, isEnded⟩ | ⟨-, second⟩
    · cases isEnded
    · exact now i j point own point' own' different first second

theorem compatible_step (locks : P.Locking conflicts) (now : Compatible conflicts W.sessions)
    (n : Nat) : Compatible conflicts (P.advance W n).sessions := by
  have stepped := advance_inversion P W n
  generalize P.advance W n = after at stepped
  cases stepped with
  | stayed => exact now
  | committed point own answer at_ did => exact compatible_ended now at_ answer
  | rolledBack point own answer at_ did => exact compatible_ended now at_ answer
  | proceeded point own draw point' own' at_ did =>
      -- what the stepping session holds now, against another session
      have fits : ∀ m other others, m ≠ n → W.sessions[m]? = some (.running other others) →
          ∀ wr ∈ own', ∀ wr' ∈ others, ¬ conflicts wr wr' := by
        intro m other others different there wr holds wr' held
        rcases locks.respects _ _ _ _ _ _ _ did wr holds with before | free
        · exact now n m point own other others (Ne.symm different) at_ there wr before wr' held
        · exact free wr' (mem_heldBesides.mpr ⟨m, other, others, different, there, held⟩)
      intro i j pointI ownI pointJ ownJ different first second
      rcases (getElem?_replaced at_).mp first with ⟨rfl, isNew⟩ | ⟨otherI, firstBefore⟩
      · cases isNew
        rcases (getElem?_replaced at_).mp second with ⟨same, -⟩ | ⟨otherJ, secondBefore⟩
        · exact absurd same.symm different
        · exact fits j pointJ ownJ otherJ secondBefore
      · rcases (getElem?_replaced at_).mp second with ⟨rfl, isNew⟩ | ⟨-, secondBefore⟩
        · cases isNew
          intro wr holds wr' held
          have other := fits i pointI ownI otherI firstBefore wr' held wr holds
          exact fun clash => other (locks.symm _ _ clash)
        · exact now i j pointI ownI pointJ ownJ different firstBefore secondBefore

/-- **Two open sessions never hold conflicting writes**, if none does at the start. -/
theorem compatible (locks : P.Locking conflicts)
    (fresh : ∀ (n : Nat) point own, start.sessions[n]? = some (.running point own) → own = [])
    (schedule : List Nat) : Compatible conflicts ((P.system start).run schedule).sessions := by
  refine (P.system start).invariant (P := fun W => Compatible conflicts W.sessions) ?_
    (fun W n now => compatible_step locks now n) schedule
  intro n m point own point' own' _ first _ wr holds
  rw [fresh n point own first] at holds
  cases holds

/-! ## One session run on its own -/

/-- A step leaves the other sessions where they are. -/
theorem advance_other (different : m ≠ n) : (P.advance W n).sessions[m]? = W.sessions[m]? := by
  have stepped := advance_inversion P W n
  generalize P.advance W n = after at stepped
  cases stepped with
  | stayed => rfl
  | proceeded point own draw point' own' at_ did => exact List.getElem?_set_ne (Ne.symm different)
  | committed point own answer at_ did => exact List.getElem?_set_ne (Ne.symm different)
  | rolledBack point own answer at_ did => exact List.getElem?_set_ne (Ne.symm different)

theorem run_length (schedule : List Nat) :
    ((P.system start).run schedule).sessions.length = start.sessions.length := by
  refine (P.system start).invariant (P := fun W => W.sessions.length = start.sessions.length) rfl
    (fun W n same => ?_) schedule
  have stepped := advance_inversion P W n
  rw [system_step]
  generalize P.advance W n = after at stepped
  cases stepped with
  | stayed => exact same
  | proceeded point own draw point' own' at_ did => exact (List.length_set ..).trans same
  | committed point own answer at_ did => exact (List.length_set ..).trans same
  | rolledBack point own answer at_ did => exact (List.length_set ..).trans same

/-- A session that has ended stays as it ended. -/
theorem advance_ended {answer : ρ} (ended : W.sessions[m]? = some (.ended answer)) (n : Nat) :
    (P.advance W n).sessions[m]? = some (.ended answer) := by
  by_cases same : m = n
  · subst same
    simp [advance, ended]
  · rw [advance_other same, ended]

theorem alone_other (different : m ≠ n) (schedule : List Nat) (k : Nat) :
    ((P.system start).run (schedule ++ List.replicate k n)).sessions[m]? =
      ((P.system start).run schedule).sessions[m]? := by
  induction k with
  | zero => rw [List.replicate_zero, List.append_nil]
  | succ k ih =>
      rw [List.replicate_succ', ← List.append_assoc, System.run_snoc]
      exact (advance_other different).trans ih

/-- Statements only add to a session's writes. -/
def Grows (P : Program σ π ω ρ) : Prop :=
  ∀ point own view held draw point' own',
    P.next point own view held = .proceed draw point' own' → own ⊆ own'

theorem advance_holds (grows : P.Grows) {point point' : π} {own own' : List ω}
    (before : W.sessions[m]? = some (.running point own))
    (after : (P.advance W n).sessions[m]? = some (.running point' own')) : own ⊆ own' := by
  by_cases same : m = n
  · subst same
    have stepped := advance_inversion P W m
    generalize P.advance W m = W' at stepped after
    cases stepped with
    | stayed =>
        rw [before] at after
        cases after
        exact List.Subset.refl _
    | proceeded now held draw next held' at_ did =>
        rw [before] at at_
        cases at_
        rcases (getElem?_replaced before).mp after with ⟨-, isNew⟩ | ⟨other, -⟩
        · cases isNew
          exact grows _ _ _ _ _ _ _ did
        · exact absurd rfl other
    | committed now held answer at_ did =>
        rcases (getElem?_replaced at_).mp after with ⟨-, isNew⟩ | ⟨other, -⟩
        · cases isNew
        · exact absurd rfl other
    | rolledBack now held answer at_ did =>
        rcases (getElem?_replaced at_).mp after with ⟨-, isNew⟩ | ⟨other, -⟩
        · cases isNew
        · exact absurd rfl other
  · rw [advance_other same, before] at after
    cases after
    exact List.Subset.refl _

/-- A session still open after a run of its own holds what it held. -/
theorem alone_holds (grows : P.Grows) {schedule : List Nat} {point : π} {own : List ω}
    (before : ((P.system start).run schedule).sessions[n]? = some (.running point own)) (k : Nat)
    {point' : π} {own' : List ω}
    (after : ((P.system start).run (schedule ++ List.replicate k n)).sessions[n]? =
      some (.running point' own')) : own ⊆ own' := by
  induction k generalizing point' own' with
  | zero =>
      rw [List.replicate_zero, List.append_nil, before] at after
      cases after
      exact List.Subset.refl _
  | succ k ih =>
      rw [List.replicate_succ', ← List.append_assoc, System.run_snoc] at after
      cases there : ((P.system start).run (schedule ++ List.replicate k n)).sessions[n]? with
      | none =>
          simp only [system_step, advance, there] at after
          cases after
      | some session =>
          cases session with
          | ended answer =>
              rw [system_step, advance_ended there n] at after
              cases after
          | running point'' own'' =>
              exact List.Subset.trans (ih there) (advance_holds grows there after)

/-- **A session run on its own comes to wait or ends.** -/
theorem stops {ι : Type y} [LT ι] [WellFoundedLT ι] (rank : π → ι)
    (falls : ∀ point own view held draw point' own',
      P.next point own view held = .proceed draw point' own' → rank point' < rank point)
    {point : π} {own : List ω} {schedule : List Nat}
    (at_ : ((P.system start).run schedule).sessions[n]? = some (.running point own)) :
    ∃ k, P.Waits ((P.system start).run (schedule ++ List.replicate k n)) n ∨
      ∃ answer, ((P.system start).run (schedule ++ List.replicate k n)).sessions[n]? =
        some (.ended answer) := by
  induction below : rank point using WellFoundedLT.induction generalizing point own schedule with
  | ind r ih =>
      subst below
      -- one step first; what follows it is the induction hypothesis
      have stepped : (P.system start).run (schedule ++ [n]) =
          P.advance ((P.system start).run schedule) n := System.run_snoc _ _ _
      obtain ⟨inside, -⟩ := List.getElem?_eq_some_iff.mp at_
      cases did : P.next point own (P.view ((P.system start).run schedule).committed own)
          (heldBesides ((P.system start).run schedule).sessions n) with
      | wait =>
          refine ⟨0, Or.inl ⟨point, own, ?_⟩⟩
          simpa using ⟨at_, did⟩
      | proceed draw point' own' =>
          have moved : ((P.system start).run (schedule ++ [n])).sessions[n]? =
              some (.running point' own') := by
            simp only [stepped, advance, at_, did]
            exact List.getElem?_set_self inside
          obtain ⟨k, stopped⟩ := ih _ (falls _ _ _ _ _ _ _ did) moved rfl
          refine ⟨k + 1, ?_⟩
          rwa [List.replicate_succ, List.append_cons]
      | commit answer =>
          refine ⟨1, Or.inr ⟨answer, ?_⟩⟩
          simp only [List.replicate_one, stepped, advance, at_, did]
          exact List.getElem?_set_self inside
      | rollback answer =>
          refine ⟨1, Or.inr ⟨answer, ?_⟩⟩
          simp only [List.replicate_one, stepped, advance, at_, did]
          exact List.getElem?_set_self inside

end Program

end SecureMsg.Theory
