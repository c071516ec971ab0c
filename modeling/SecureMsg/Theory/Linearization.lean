/-
# Theory.Linearization — concurrent sessions against a serial object

Each session of a program serves one call.  A `Serial` object says what a call may
answer and leave behind if the calls are served one after the other.  `settled`
reads off a session the answer it is bound to give; a step after which an answer
is settled that was not before is where the call takes effect.

`Linearizable.linearized`: where every step settles nothing and leaves the object,
or settles what the object allows, a run is a serial one in the order in which its
calls take effect (`history`), each of them once and between its first statement
and its answer.
-/
import SecureMsg.Theory.Locks

namespace SecureMsg.Theory

set_option autoImplicit false

universe u v w x y z

variable {σ : Type u} {π : Type v} {ω : Type w} {ρ : Type x} {β : Type y} {κ : Type z}

/-- What an object holds, a call, an answer the call may get, and what is held then. -/
abbrev Serial (β : Type y) (κ : Type z) (ρ : Type x) := β → κ → ρ → β → Prop

/-- The object serves the calls of the sessions in this order, with these answers. -/
inductive Serial.Serves (O : Serial β κ ρ) (calls : List κ) (b : β) :
    List (Nat × ρ) → β → Prop where
  | nil : Serves O calls b [] b
  | snoc {past : List (Nat × ρ)} {b' b'' : β} {n : Nat} {call : κ} {answer : ρ}
      (before : Serves O calls b past b') (isCall : calls[n]? = some call)
      (allowed : O b' call answer b'') : Serves O calls b (past ++ [(n, answer)]) b''

namespace Program

variable (P : Program σ π ω ρ) (settled : Session π ω ρ → Option ρ)

/-- The answer that session `n` is bound to give. -/
def settledAt (W : World σ π ω ρ) (n : Nat) : Option ρ := W.sessions[n]?.bind settled

/-- The call that takes effect with the step of session `n`. -/
def takesEffect (W : World σ π ω ρ) (n : Nat) : List (Nat × ρ) :=
  match settledAt settled W n, settledAt settled (P.advance W n) n with
  | none, some answer => [(n, answer)]
  | _, _ => []

/-- The calls in the order in which they take effect. -/
def history (start : World σ π ω ρ) (schedule : List Nat) : List (Nat × ρ) :=
  (P.system start).expand (P.takesEffect settled) schedule

/-- What a step of session `n` does to the object that the committed state stands for. -/
inductive Effect (O : Serial β κ ρ) (calls : List κ) (box : σ → β) (W W' : World σ π ω ρ)
    (n : Nat) : Prop where
  | quiet (same : settledAt settled W' n = settledAt settled W n)
      (kept : box W'.committed = box W.committed)
  | takes (call : κ) (answer : ρ) (isCall : calls[n]? = some call)
      (before : settledAt settled W n = none) (after : settledAt settled W' n = some answer)
      (allowed : O (box W.committed) call answer (box W'.committed))

/-- **The run is a serial one.** -/
structure Linearized (O : Serial β κ ρ) (calls : List κ) (box : σ → β) (start : World σ π ω ρ)
    (schedule : List Nat) : Prop where
  serial : O.Serves calls (box start.committed) (P.history settled start schedule)
    (box ((P.system start).run schedule).committed)
  once : ((P.history settled start schedule).map Prod.fst).Nodup
  answered : ∀ (n : Nat) (answer : ρ),
    ((P.system start).run schedule).sessions[n]? = some (.ended answer) →
      (n, answer) ∈ P.history settled start schedule
  begun : ∀ n, ((P.system start).run schedule).sessions[n]? = start.sessions[n]? →
    n ∉ (P.history settled start schedule).map Prod.fst
  /-- What has taken effect stays in its place: of two calls, one answered before the
  other begins takes effect before it. -/
  inOrder : ∀ earlier, earlier <+: schedule →
    P.history settled start earlier <+: P.history settled start schedule

variable {P settled} {O : Serial β κ ρ} {calls : List κ} {box : σ → β} {start W : World σ π ω ρ}

theorem settledAt_eq {n : Nat} {session : Session π ω ρ} (at_ : W.sessions[n]? = some session) :
    settledAt settled W n = settled session := by
  rw [settledAt, at_, Option.bind_some]

theorem settledAt_set {n : Nat} {session session' : Session π ω ρ} {after : σ}
    (at_ : W.sessions[n]? = some session) :
    settledAt settled ⟨after, W.sessions.set n session'⟩ n = settled session' :=
  settledAt_eq ((getElem?_replaced at_).mpr (Or.inl ⟨rfl, rfl⟩))

/-- A step that settles nothing new. -/
theorem Effect.onward {n : Nat} {session session' : Session π ω ρ} {after : σ}
    (at_ : W.sessions[n]? = some session) (same : settled session' = settled session)
    (kept : box after = box W.committed) :
    Effect settled O calls box W ⟨after, W.sessions.set n session'⟩ n :=
  .quiet (by rw [settledAt_set at_, settledAt_eq at_, same]) kept

theorem Effect.settles {n : Nat} {session session' : Session π ω ρ} {after : σ} {call : κ}
    {answer : ρ} (at_ : W.sessions[n]? = some session) (isCall : calls[n]? = some call)
    (before : settled session = none) (isSettled : settled session' = some answer)
    (allowed : O (box W.committed) call answer (box after)) :
    Effect settled O calls box W ⟨after, W.sessions.set n session'⟩ n :=
  .takes call answer isCall ((settledAt_eq at_).trans before)
    ((settledAt_set at_).trans isSettled) allowed

theorem settledAt_none {n : Nat}
    (unsettled : ∀ session, W.sessions[n]? = some session → settled session = none) :
    settledAt settled W n = none := by
  cases at_ : W.sessions[n]? with
  | none => rw [settledAt, at_, Option.bind_none]
  | some session => rw [settledAt_eq at_, unsettled session at_]

theorem settledAt_other {n m : Nat} (different : m ≠ n) :
    settledAt settled (P.advance W n) m = settledAt settled W m := by
  rw [settledAt, settledAt, advance_other different]

@[simp] theorem history_nil : P.history settled start [] = [] := rfl

@[simp] theorem history_snoc (schedule : List Nat) (n : Nat) :
    P.history settled start (schedule ++ [n]) = P.history settled start schedule ++
      P.takesEffect settled ((P.system start).run schedule) n :=
  System.expand_snoc _ _ schedule n

theorem history_prefix {earlier schedule : List Nat} (within : earlier <+: schedule) :
    P.history settled start earlier <+: P.history settled start schedule := by
  obtain ⟨later, rfl⟩ := within
  induction later using List.reverseRecOn with
  | nil => simpa only [List.append_nil] using List.prefix_refl _
  | append_singleton later n ih =>
      rw [← List.append_assoc, history_snoc]
      exact ih.trans (List.prefix_append _ _)

theorem takesEffect_quiet {n : Nat}
    (same : settledAt settled (P.advance W n) n = settledAt settled W n) :
    P.takesEffect settled W n = [] := by
  unfold takesEffect
  rw [same]
  cases settledAt settled W n <;> rfl

theorem takesEffect_settles {n : Nat} {answer : ρ} (before : settledAt settled W n = none)
    (after : settledAt settled (P.advance W n) n = some answer) :
    P.takesEffect settled W n = [(n, answer)] := by
  simp only [takesEffect, before, after]

/-- Each call takes effect at one step of its session, as the object allows; `inv` holds
in every run. -/
structure Linearizable (P : Program σ π ω ρ) (settled : Session π ω ρ → Option ρ)
    (O : Serial β κ ρ) (calls : List κ) (box : σ → β) (start : World σ π ω ρ)
    (inv : World σ π ω ρ → Prop) : Prop where
  ends : ∀ answer, settled (.ended answer) = some answer
  fresh : ∀ n, settledAt settled start n = none
  holds : inv start
  keeps : ∀ W n, inv W → inv (P.advance W n)
  effect : ∀ W n, inv W → Effect settled O calls box W (P.advance W n) n

namespace Linearizable

variable {inv : World σ π ω ρ → Prop} (law : P.Linearizable settled O calls box start inv)

include law

theorem reached (schedule : List Nat) : inv ((P.system start).run schedule) :=
  (P.system start).invariant law.holds (fun W n now => law.keeps W n now) schedule

/-- In the history are the sessions whose answer is settled. -/
theorem mem_history (schedule : List Nat) (n : Nat) (answer : ρ) :
    (n, answer) ∈ P.history settled start schedule ↔
      settledAt settled ((P.system start).run schedule) n = some answer := by
  induction schedule using List.reverseRecOn with
  | nil =>
      have unsettled : settledAt settled start n = none := law.fresh n
      simp [System.run, unsettled]
  | append_singleton schedule m ih =>
      have did := law.effect _ m (law.reached schedule)
      rw [history_snoc, List.mem_append, ih, System.run_snoc, system_step]
      by_cases same : n = m
      · subst same
        cases did with
        | quiet unchanged _ => simp [takesEffect_quiet unchanged, unchanged]
        | takes call given _ unsettled isSettled _ =>
            simp [takesEffect_settles unsettled isSettled, unsettled, isSettled, eq_comm]
      · have elsewhere : (n, answer) ∉ P.takesEffect settled ((P.system start).run schedule) m := by
          unfold takesEffect
          split <;> simp [same]
        simp [settledAt_other same, elsewhere]

theorem history_once (schedule : List Nat) :
    ((P.history settled start schedule).map Prod.fst).Nodup := by
  induction schedule using List.reverseRecOn with
  | nil => exact List.nodup_nil
  | append_singleton schedule n ih =>
      rw [history_snoc]
      cases law.effect _ n (law.reached schedule) with
      | quiet unchanged _ =>
          rw [takesEffect_quiet unchanged, List.append_nil]
          exact ih
      | takes call answer _ unsettled isSettled _ =>
          rw [takesEffect_settles unsettled isSettled, List.map_append, List.nodup_append]
          refine ⟨ih, List.nodup_singleton _, ?_⟩
          rintro m settledBefore k isNow rfl
          obtain ⟨⟨m, given⟩, inHistory, rfl⟩ := List.mem_map.mp settledBefore
          have already := (law.mem_history schedule m given).mp inHistory
          have stepping : m = n := List.mem_singleton.mp isNow
          rw [stepping, unsettled] at already
          cases already

theorem history_serial (schedule : List Nat) :
    O.Serves calls (box start.committed) (P.history settled start schedule)
      (box ((P.system start).run schedule).committed) := by
  induction schedule using List.reverseRecOn with
  | nil => exact .nil
  | append_singleton schedule n ih =>
      rw [history_snoc, System.run_snoc, system_step]
      cases law.effect _ n (law.reached schedule) with
      | quiet unchanged kept =>
          rw [takesEffect_quiet unchanged, List.append_nil, kept]
          exact ih
      | takes call answer isCall unsettled isSettled allowed =>
          rw [takesEffect_settles unsettled isSettled]
          exact ih.snoc isCall allowed

/-- **A program whose steps take effect as the object allows is linearizable.** -/
theorem linearized (schedule : List Nat) : P.Linearized settled O calls box start schedule where
  serial := law.history_serial schedule
  once := law.history_once schedule
  answered := by
    intro n answer ended
    apply (law.mem_history schedule n answer).mpr
    rw [settledAt, ended, Option.bind_some, law.ends]
  begun := by
    intro n same listed
    obtain ⟨⟨m, answer⟩, inHistory, rfl⟩ := List.mem_map.mp listed
    have isSettled := (law.mem_history schedule m answer).mp inHistory
    have unsettled := law.fresh m
    rw [settledAt] at isSettled unsettled
    rw [same, unsettled] at isSettled
    cases isSettled
  inOrder := fun _ within => history_prefix within

end Linearizable

end Program

end SecureMsg.Theory
