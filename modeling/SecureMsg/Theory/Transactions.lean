/-
# Theory.Transactions — sessions over one database at READ COMMITTED

A `Program` says what the next statement of a session does; a `World` is what is
committed and the sessions on it.  A statement sees its `view`: what is committed
as it starts, with the session's own writes on top, and nothing of the others'.
It may find a row it needs held by another session's write and wait.  A commit
makes the session's writes visible at once.

A statement may change the committed side only through `draw`, which stands for
what a database does outside transactions (a sequence that hands out values).

`advance_inversion` lists what one step of one session can be; every invariant of
a program is a case analysis over it.
-/
import SecureMsg.Theory.Run
import SecureMsg.Theory.Rows

namespace SecureMsg.Theory

set_option autoImplicit false

universe u v w x

/-- What the next statement of a session does. -/
inductive Action (σ : Type u) (π : Type v) (ω : Type w) (ρ : Type x) where
  | wait
  | proceed (draw : σ → σ) (point : π) (own : List ω)
  | commit (answer : ρ)
  | rollback (answer : ρ)

structure Program (σ : Type u) (π : Type v) (ω : Type w) (ρ : Type x) where
  write : σ → ω → σ
  /-- From the point a session is at, its own writes, its view and the writes the
  other open sessions hold. -/
  next : π → List ω → σ → List ω → Action σ π ω ρ

inductive Session (π : Type v) (ω : Type w) (ρ : Type x) where
  | running (point : π) (own : List ω)
  | ended (answer : ρ)
  deriving DecidableEq, Repr

@[ext]
structure World (σ : Type u) (π : Type v) (ω : Type w) (ρ : Type x) where
  committed : σ
  sessions : List (Session π ω ρ)
  deriving DecidableEq, Repr

variable {σ : Type u} {π : Type v} {ω : Type w} {ρ : Type x}

namespace Session

/-- The uncommitted writes of a session. -/
def holds : Session π ω ρ → List ω
  | .running _ own => own
  | .ended _ => []

def hasEnded : Session π ω ρ → Bool
  | .running .. => false
  | .ended _ => true

end Session

namespace Program

variable (P : Program σ π ω ρ)

/-- What a statement of a session sees. -/
def view (committed : σ) (own : List ω) : σ := own.foldl P.write committed

@[simp] theorem view_nil (committed : σ) : P.view committed [] = committed := rfl

@[simp] theorem view_cons (committed : σ) (wr : ω) (own : List ω) :
    P.view committed (wr :: own) = P.view (P.write committed wr) own := rfl

theorem view_append (committed : σ) (own added : List ω) :
    P.view committed (own ++ added) = P.view (P.view committed own) added :=
  List.foldl_append

/-- The writes held by the sessions other than `n`. -/
def heldBesides (sessions : List (Session π ω ρ)) (n : Nat) : List ω :=
  (sessions.eraseIdx n).flatMap Session.holds

/-- Session `n` runs its next statement, if it has one and need not wait. -/
def advance (W : World σ π ω ρ) (n : Nat) : World σ π ω ρ :=
  match W.sessions[n]? with
  | some (.running point own) =>
      match P.next point own (P.view W.committed own) (heldBesides W.sessions n) with
      | .wait => W
      | .proceed draw point own => ⟨draw W.committed, W.sessions.set n (.running point own)⟩
      | .commit answer => ⟨P.view W.committed own, W.sessions.set n (.ended answer)⟩
      | .rollback answer => ⟨W.committed, W.sessions.set n (.ended answer)⟩
  | _ => W

/-- The sessions of a world, run statement by statement in the order of the
schedule. -/
def system (start : World σ π ω ρ) : System (World σ π ω ρ) Nat := ⟨start, P.advance⟩

@[simp] theorem system_init (start : World σ π ω ρ) : (P.system start).init = start := rfl

@[simp] theorem system_step (start : World σ π ω ρ) : (P.system start).step = P.advance := rfl

variable {P} {W : World σ π ω ρ} {n : Nat}

theorem mem_heldBesides {sessions : List (Session π ω ρ)} {wr : ω} :
    wr ∈ heldBesides sessions n ↔
      ∃ m point own, m ≠ n ∧ sessions[m]? = some (.running point own) ∧ wr ∈ own := by
  simp only [heldBesides, List.mem_flatMap, List.mem_eraseIdx_iff_getElem?]
  constructor
  · rintro ⟨s, ⟨m, other, at_⟩, held⟩
    cases s with
    | running point own => exact ⟨m, point, own, other, at_, held⟩
    | ended answer => cases held
  · rintro ⟨m, point, own, other, at_, held⟩
    exact ⟨_, ⟨m, other, at_⟩, held⟩

/-- What one step of session `n` can be. -/
inductive Advanced (P : Program σ π ω ρ) (W : World σ π ω ρ) (n : Nat) : World σ π ω ρ → Prop where
  | stayed : Advanced P W n W
  | proceeded (point : π) (own : List ω) (draw : σ → σ) (point' : π) (own' : List ω)
      (at_ : W.sessions[n]? = some (.running point own))
      (did : P.next point own (P.view W.committed own) (heldBesides W.sessions n) =
        .proceed draw point' own') :
      Advanced P W n ⟨draw W.committed, W.sessions.set n (.running point' own')⟩
  | committed (point : π) (own : List ω) (answer : ρ)
      (at_ : W.sessions[n]? = some (.running point own))
      (did : P.next point own (P.view W.committed own) (heldBesides W.sessions n) =
        .commit answer) :
      Advanced P W n ⟨P.view W.committed own, W.sessions.set n (.ended answer)⟩
  | rolledBack (point : π) (own : List ω) (answer : ρ)
      (at_ : W.sessions[n]? = some (.running point own))
      (did : P.next point own (P.view W.committed own) (heldBesides W.sessions n) =
        .rollback answer) :
      Advanced P W n ⟨W.committed, W.sessions.set n (.ended answer)⟩

theorem advance_inversion (P : Program σ π ω ρ) (W : World σ π ω ρ) (n : Nat) :
    Advanced P W n (P.advance W n) := by
  unfold advance
  cases at_ : W.sessions[n]? with
  | none => exact .stayed
  | some session =>
      cases session with
      | ended answer => exact .stayed
      | running point own =>
          dsimp only
          cases did : P.next point own (P.view W.committed own) (heldBesides W.sessions n) with
          | wait => exact .stayed
          | proceed draw point' own' => exact .proceeded point own draw point' own' at_ did
          | commit answer => exact .committed point own answer at_ did
          | rollback answer => exact .rolledBack point own answer at_ did

end Program

/-! ## One session replaced -/

section Sessions

variable {sessions : List (Session π ω ρ)} {s s' t : Session π ω ρ} {n m : Nat}

/-- After a step the stepping session is at its new place, the others where they were. -/
theorem getElem?_replaced (at_ : sessions[n]? = some s) :
    (sessions.set n s')[m]? = some t ↔ (m = n ∧ t = s') ∨ (m ≠ n ∧ sessions[m]? = some t) := by
  obtain ⟨inside, -⟩ := List.getElem?_eq_some_iff.mp at_
  by_cases same : n = m
  · subst same
    simp [List.getElem?_set_self inside, eq_comm]
  · simp [List.getElem?_set_ne same, Ne.symm same]

end Sessions

end SecureMsg.Theory
