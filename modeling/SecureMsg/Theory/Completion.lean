/-
# Theory.Completion — when the sessions of a program can all end

Statements that go on move their session down a well-founded order, so only
finitely many of them run before a session ends or waits.  `finishes`: where some
session can always run its next statement and the invariant be kept, the run can be
continued until every session has ended.
-/
import SecureMsg.Theory.Locks
import Mathlib.Logic.Hydra

namespace SecureMsg.Theory

set_option autoImplicit false

universe u v w x y

variable {σ : Type u} {π : Type v} {ω : Type w} {ρ : Type x}

namespace Program

/-- Session `n` has not ended. -/
def Open (W : World σ π ω ρ) (n : Nat) : Prop :=
  ∃ point own, W.sessions[n]? = some (.running point own)

variable {P : Program σ π ω ρ} {W : World σ π ω ρ} {n : Nat}

/-- An open session was where it is before the step, or it is the one that has gone on. -/
theorem running_before {k : Nat} {point : π} {own : List ω}
    (found : (P.advance W k).sessions[n]? = some (.running point own)) :
    W.sessions[n]? = some (.running point own) ∨
      ∃ before held draw, n = k ∧ W.sessions[k]? = some (.running before held) ∧
        P.next before held (P.view W.committed held) (heldBesides W.sessions k) =
          .proceed draw point own := by
  have stepped := advance_inversion P W k
  generalize P.advance W k = after at stepped found
  cases stepped with
  | stayed => exact Or.inl found
  | proceeded before held draw point' own' at_ did =>
      rcases (getElem?_replaced at_).mp found with ⟨rfl, same⟩ | ⟨-, there⟩
      · cases same
        exact Or.inr ⟨before, held, draw, rfl, at_, did⟩
      · exact Or.inl there
  | committed before held answer at_ did =>
      rcases (getElem?_replaced at_).mp found with ⟨-, same⟩ | ⟨-, there⟩
      · cases same
      · exact Or.inl there
  | rolledBack before held answer at_ did =>
      rcases (getElem?_replaced at_).mp found with ⟨-, same⟩ | ⟨-, there⟩
      · cases same
      · exact Or.inl there

theorem run_append {start : World σ π ω ρ} (schedule later : List Nat) :
    (P.system start).run (schedule ++ later) =
      later.foldl P.advance ((P.system start).run schedule) :=
  List.foldl_append

theorem advance_waits (waits : P.Waits W n) : P.advance W n = W := by
  obtain ⟨point, own, at_, did⟩ := waits
  simp only [advance, at_, did]

/-- One entry of a list replaced, as a multiset of what its entries map to. -/
theorem filterMap_set {α : Type v} {β : Type y} {f : α → Option β} {entries : List α} {n : Nat}
    {a a' : α} {b : β} (at_ : entries[n]? = some a) (maps : f a = some b) :
    (((entries.set n a').filterMap f : List β) : Multiset β) + {b} =
      ((entries.filterMap f : List β) : Multiset β) + ((f a').toList : Multiset β) := by
  induction entries generalizing n with
  | nil => cases at_
  | cons first rest ih =>
      cases n with
      | zero =>
          cases at_
          cases new : f a' with
          | none =>
              simp only [List.set_cons_zero, List.filterMap_cons, new, maps, Option.toList_none,
                Multiset.coe_nil, add_zero]
              rw [← Multiset.cons_coe, ← Multiset.singleton_add, add_comm]
          | some b' =>
              simp only [List.set_cons_zero, List.filterMap_cons, new, maps, Option.toList_some]
              rw [← Multiset.cons_coe, ← Multiset.cons_coe, ← Multiset.singleton_add b',
                ← Multiset.singleton_add b, Multiset.coe_singleton]
              ac_rfl
      | succ n =>
          have later := ih (n := n) at_
          cases keeps : f first with
          | none => simpa [List.filterMap_cons, keeps] using later
          | some kept =>
              simp only [List.set_cons_succ, List.filterMap_cons, keeps]
              rw [← Multiset.cons_coe, ← Multiset.cons_coe, Multiset.cons_add, Multiset.cons_add,
                later]

section Ranked

variable {ι : Type y} [LT ι] (rank : π → ι)

def sessionRank : Session π ω ρ → Option ι
  | .running point _ => some (rank point)
  | .ended _ => none

/-- Where the open sessions are. -/
def remaining (W : World σ π ω ρ) : Multiset ι := (W.sessions.filterMap (sessionRank rank) : List ι)

variable {rank}

/-- A session that runs a statement leaves less to run. -/
theorem remaining_advance
    (falls : ∀ point own view held draw point' own',
      P.next point own view held = .proceed draw point' own' → rank point' < rank point)
    (isOpen : Open W n) (moves : ¬ P.Waits W n) :
    Relation.CutExpand (· < ·) (remaining rank (P.advance W n)) (remaining rank W) := by
  obtain ⟨point, own, at_⟩ := isOpen
  have isRanked : sessionRank rank (.running point own : Session π ω ρ) = some (rank point) := rfl
  simp only [advance, at_]
  cases did : P.next point own (P.view W.committed own) (heldBesides W.sessions n) with
  | wait => exact absurd ⟨point, own, at_, did⟩ moves
  | proceed draw point' own' =>
      refine ⟨_, rank point, ?_, filterMap_set at_ isRanked⟩
      intro a listed
      simp only [sessionRank, Option.toList_some, Multiset.coe_singleton,
        Multiset.mem_singleton] at listed
      subst listed
      exact falls _ _ _ _ _ _ _ did
  | commit answer =>
      refine ⟨_, rank point, ?_, filterMap_set at_ isRanked⟩
      intro a listed
      cases listed
  | rollback answer =>
      refine ⟨_, rank point, ?_, filterMap_set at_ isRanked⟩
      intro a listed
      cases listed

/-- **A run in which some session can always go on can be brought to its end.** -/
theorem finishes [WellFoundedLT ι]
    (falls : ∀ point own view held draw point' own',
      P.next point own view held = .proceed draw point' own' → rank point' < rank point)
    (inv : World σ π ω ρ → Prop)
    (progress : ∀ W, inv W → (∃ n, Open W n) →
      ∃ n, Open W n ∧ ¬ P.Waits W n ∧ inv (P.advance W n))
    (holds : inv W) : ∃ later : List Nat, ∀ n, ¬ Open (later.foldl P.advance W) n := by
  have descends : WellFounded (Relation.CutExpand fun a b : ι => a < b) :=
    wellFounded_lt.cutExpand
  induction isLeft : remaining rank W using descends.induction generalizing W with
  | _ left ih =>
      subst isLeft
      by_cases some_ : ∃ n, Open W n
      · obtain ⟨n, isOpen, moves, kept⟩ := progress W holds some_
        obtain ⟨later, ended⟩ := ih _ (remaining_advance falls isOpen moves) kept rfl
        exact ⟨n :: later, ended⟩
      · exact ⟨[], fun n isOpen => some_ ⟨n, isOpen⟩⟩

end Ranked

end Program

end SecureMsg.Theory
