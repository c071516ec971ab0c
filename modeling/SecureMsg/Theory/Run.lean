/-
# Theory.Run — runs of a deterministic system, and what holds along them

A `System` is an initial state and the effect of one labelled step; a run is the
list of its labels, oldest first.  Six things are said about runs:

* `invariant` — a state property that holds initially and is kept by every step
  holds after every run;
* `simulates` — two systems over the same labels stay related when each step
  keeps them related;
* `arises` — what is false at first and true in the end became true at a step;
* `observe` — a history variable: a value computed beside the run from the state
  *before* each step and the label, which the step itself never reads;
* `run_expand` — a system whose steps are batches of another's steps runs as the
  other does;
* `throughout_iff_eachStep` — when, from a good history, one step keeps the
  history good exactly if its label meets a condition, then a property holds
  after every prefix of a run iff every step of the run meets the condition.

The last one is how a defect is located: the left side is what one would like to
hold, the right side names the steps that break it.
-/
import Mathlib.Data.List.Induction

namespace SecureMsg.Theory

set_option autoImplicit false

universe u v w x

/-- A deterministic labelled system. -/
structure System (σ : Type u) (α : Type v) where
  init : σ
  step : σ → α → σ

namespace System

variable {σ : Type u} {α : Type v} {γ : Type w} (M : System σ α)

/-! ## Runs and state invariants -/

/-- The state after the labels, oldest first. -/
def run (labels : List α) : σ := labels.foldl M.step M.init

@[simp] theorem run_snoc (labels : List α) (a : α) :
    M.run (labels ++ [a]) = M.step (M.run labels) a := by
  simp [run]

/-- A property of states that holds initially and is kept by each step. -/
theorem invariant {P : σ → Prop} (base : P M.init)
    (kept : ∀ s a, P s → P (M.step s a)) (labels : List α) : P (M.run labels) := by
  induction labels using List.reverseRecOn with
  | nil => exact base
  | append_singleton labels a ih =>
      rw [run_snoc]
      exact kept _ a ih

/-- Two systems in step: a relation of their states that every label keeps. -/
theorem simulates {τ : Type w} {N : System τ α} {R : σ → τ → Prop} (start : R M.init N.init)
    (kept : ∀ s t a, R s t → R (M.step s a) (N.step t a)) (labels : List α) :
    R (M.run labels) (N.run labels) := by
  induction labels using List.reverseRecOn with
  | nil => exact start
  | append_singleton labels a ih =>
      rw [run_snoc, run_snoc]
      exact kept _ _ a ih

/-- What each step keeps holds from the moment it holds. -/
theorem stays {P : σ → Prop} (kept : ∀ s a, P s → P (M.step s a)) {earlier labels : List α}
    (before : earlier <+: labels) (then_ : P (M.run earlier)) : P (M.run labels) := by
  induction labels using List.reverseRecOn with
  | nil => exact List.prefix_nil.mp before ▸ then_
  | append_singleton labels a ih =>
      rcases List.prefix_concat_iff.mp before with rfl | within
      · exact then_
      · rw [run_snoc]
        exact kept _ a (ih within)

/-- What is false at first and true in the end became true at some step. -/
theorem arises {Q : σ → Prop} {labels : List α} (start : ¬ Q M.init) (now : Q (M.run labels)) :
    ∃ earlier a, earlier ++ [a] <+: labels ∧ ¬ Q (M.run earlier) ∧ Q (M.run (earlier ++ [a])) := by
  induction labels using List.reverseRecOn with
  | nil => exact absurd now start
  | append_singleton labels a ih =>
      by_cases before : Q (M.run labels)
      · obtain ⟨earlier, b, within, facts⟩ := ih before
        exact ⟨earlier, b, within.trans (List.prefix_append _ _), facts⟩
      · exact ⟨labels, a, List.prefix_refl _, before, now⟩

/-! ## History variables -/

/-- The value of a history variable after a run: `note` sees the state before the
step, the label, and the value so far. -/
def observe (note : σ → α → γ → γ) (start : γ) (labels : List α) : γ :=
  (labels.foldl (fun p a => (M.step p.1 a, note p.1 a p.2)) (M.init, start)).2

theorem observe_fold (note : σ → α → γ → γ) (start : γ) (labels : List α) :
    labels.foldl (fun p a => (M.step p.1 a, note p.1 a p.2)) (M.init, start) =
      (M.run labels, M.observe note start labels) := by
  refine Prod.ext ?_ rfl
  induction labels using List.reverseRecOn with
  | nil => rfl
  | append_singleton labels a ih =>
      rw [List.foldl_append, run_snoc]
      exact congrArg (M.step · a) ih

@[simp] theorem observe_snoc (note : σ → α → γ → γ) (start : γ) (labels : List α) (a : α) :
    M.observe note start (labels ++ [a]) =
      note (M.run labels) a (M.observe note start labels) := by
  rw [observe, List.foldl_append, observe_fold]
  rfl

/-- The rule for an invariant that relates the state to a history variable. -/
theorem observe_invariant {P : σ → γ → Prop} {note : σ → α → γ → γ} {start : γ}
    (base : P M.init start) (kept : ∀ s a h, P s h → P (M.step s a) (note s a h))
    (labels : List α) : P (M.run labels) (M.observe note start labels) := by
  induction labels using List.reverseRecOn with
  | nil => exact base
  | append_singleton labels a ih =>
      rw [run_snoc, observe_snoc]
      exact kept _ a _ ih

/-! ## One step for several -/

section Expand

variable {τ : Type w} {β : Type x}

/-- The labels of another system that a run stands for, batch by batch. -/
def expand (batch : σ → α → List β) (labels : List α) : List β :=
  M.observe (fun s a done => done ++ batch s a) [] labels

@[simp] theorem expand_snoc (batch : σ → α → List β) (labels : List α) (a : α) :
    M.expand batch (labels ++ [a]) = M.expand batch labels ++ batch (M.run labels) a :=
  M.observe_snoc _ _ labels a

/-- Where each step does what a batch of the other system's steps does, a run does what
the other's run of all the batches does. -/
theorem run_expand {N : System τ β} {f : σ → τ} {batch : σ → α → List β}
    (start : f M.init = N.init)
    (step : ∀ s a, f (M.step s a) = (batch s a).foldl N.step (f s))
    (labels : List α) : f (M.run labels) = N.run (M.expand batch labels) := by
  induction labels using List.reverseRecOn with
  | nil => exact start
  | append_singleton labels a ih =>
      rw [run_snoc, expand_snoc, step, ih]
      exact List.foldl_append.symm

end Expand

end System

/-! ## Along a run -/

section Along

variable {α : Type v}

/-- `P` holds after every prefix of the run, the whole run included. -/
def Throughout (P : List α → Prop) (labels : List α) : Prop :=
  ∀ earlier, earlier <+: labels → P earlier

/-- Every step of the run meets `C`, which sees the run before the step. -/
def EachStep (C : List α → α → Prop) (labels : List α) : Prop :=
  ∀ earlier a, earlier ++ [a] <+: labels → C earlier a

theorem throughout_snoc (P : List α → Prop) (labels : List α) (a : α) :
    Throughout P (labels ++ [a]) ↔ Throughout P labels ∧ P (labels ++ [a]) := by
  constructor
  · intro all
    exact ⟨fun earlier before => all earlier (before.trans (List.prefix_append _ _)),
      all _ (List.prefix_refl _)⟩
  · rintro ⟨all, last⟩ earlier before
    rcases List.prefix_concat_iff.mp before with rfl | within
    · exact last
    · exact all earlier within

theorem eachStep_snoc (C : List α → α → Prop) (labels : List α) (a : α) :
    EachStep C (labels ++ [a]) ↔ EachStep C labels ∧ C labels a := by
  constructor
  · intro all
    exact ⟨fun earlier b before => all earlier b (before.trans (List.prefix_append _ _)),
      all labels a (List.prefix_refl _)⟩
  · rintro ⟨all, last⟩ earlier b before
    rcases List.prefix_concat_iff.mp before with same | within
    · obtain ⟨rfl, singleton⟩ := List.append_inj' same rfl
      cases singleton
      exact last
    · exact all earlier b within

/-- Some step of the run meets `C`. -/
def SomeStep (C : List α → α → Prop) (labels : List α) : Prop :=
  ∃ earlier a, earlier ++ [a] <+: labels ∧ C earlier a

theorem someStep_iff {C : List α → α → Prop} {labels : List α} :
    SomeStep C labels ↔ ¬ EachStep (fun earlier a => ¬ C earlier a) labels := by
  simp [SomeStep, EachStep]

/-- Step by step the same: on each step of the run one condition is the other. -/
theorem eachStep_congr {P C : List α → α → Prop} {labels : List α}
    (step : ∀ earlier a, earlier ++ [a] <+: labels → (P earlier a ↔ C earlier a)) :
    EachStep P labels ↔ EachStep C labels :=
  forall_congr' fun earlier => forall_congr' fun a => forall_congr' (step earlier a)

/-- A law of single steps that a condition breaks. -/
theorem eachStep_iff_not_someStep {P C : List α → α → Prop} {labels : List α}
    (step : ∀ earlier a, earlier ++ [a] <+: labels → (P earlier a ↔ ¬ C earlier a)) :
    EachStep P labels ↔ ¬ SomeStep C labels := by
  rw [someStep_iff, not_not]
  exact eachStep_congr step

theorem someStep_nil (C : List α → α → Prop) : ¬ SomeStep C [] := by
  simp [SomeStep]

theorem someStep_snoc (C : List α → α → Prop) (labels : List α) (a : α) :
    SomeStep C (labels ++ [a]) ↔ SomeStep C labels ∨ C labels a := by
  rw [someStep_iff, someStep_iff, eachStep_snoc]
  tauto

/-- What the batches of a run hold comes from one of its steps. -/
theorem System.mem_expand {σ : Type u} {β : Type x} {M : System σ α} {batch : σ → α → List β}
    {b : β} {labels : List α} : b ∈ M.expand batch labels ↔
      SomeStep (fun earlier a => b ∈ batch (M.run earlier) a) labels := by
  induction labels using List.reverseRecOn with
  | nil => exact iff_of_false List.not_mem_nil (someStep_nil _)
  | append_singleton labels a ih => rw [expand_snoc, List.mem_append, ih, someStep_snoc]

/-- Two steps of a run are the same step, or one comes before the other. -/
theorem step_order {labels earlier earlier' : List α} {a b : α}
    (one : earlier ++ [a] <+: labels) (other : earlier' ++ [b] <+: labels) :
    earlier = earlier' ∨ earlier ++ [a] <+: earlier' ∨ earlier' ++ [b] <+: earlier := by
  rcases List.prefix_or_prefix_of_prefix one other with first | second
  · rcases List.prefix_concat_iff.mp first with same | within
    · exact Or.inl (List.append_inj' same rfl).1
    · exact Or.inr (Or.inl within)
  · rcases List.prefix_concat_iff.mp second with same | within
    · exact Or.inl (List.append_inj' same rfl).1.symm
    · exact Or.inr (Or.inr within)

/-- A step of a run, by position. -/
theorem step_iff_take {labels earlier : List α} {a : α} :
    earlier ++ [a] <+: labels ↔
      labels[earlier.length]? = some a ∧ earlier = labels.take earlier.length := by
  constructor
  · rintro ⟨later, rfl⟩
    simp
  · rintro ⟨isNext, isTake⟩
    obtain ⟨inside, isNext⟩ := List.getElem?_eq_some_iff.mp isNext
    rw [List.prefix_iff_eq_take, List.length_append, List.length_singleton,
      List.take_succ_eq_append_getElem inside, ← isTake, isNext]

theorem step_unique {labels earlier : List α} {a b : α} (one : earlier ++ [a] <+: labels)
    (other : earlier ++ [b] <+: labels) : a = b := by
  have isNext := (step_iff_take.mp one).1
  rw [(step_iff_take.mp other).1] at isNext
  exact (Option.some.inj isNext).symm

theorem throughout_iff_take {P : List α → Prop} {labels : List α} :
    Throughout P labels ↔ ∀ i < labels.length + 1, P (labels.take i) := by
  constructor
  · intro all i _
    exact all _ (List.take_prefix i labels)
  · intro all earlier before
    rw [List.prefix_iff_eq_take.mp before]
    exact all _ (Nat.lt_succ_of_le before.length_le)

theorem eachStep_iff_take {C : List α → α → Prop} {labels : List α} :
    EachStep C labels ↔ ∀ i < labels.length, ∀ a ∈ labels[i]?, C (labels.take i) a := by
  constructor
  · intro all i inside a isNext
    refine all _ a (step_iff_take.mpr ?_)
    rw [List.length_take_of_le (Nat.le_of_lt inside)]
    exact ⟨isNext, rfl⟩
  · intro all earlier a within
    obtain ⟨isNext, isTake⟩ := step_iff_take.mp within
    rw [isTake]
    exact all _ (List.getElem?_eq_some_iff.mp isNext).1 a isNext

instance {P : List α → Prop} [DecidablePred P] (labels : List α) : Decidable (Throughout P labels) :=
  decidable_of_iff _ throughout_iff_take.symm

instance {C : List α → α → Prop} [∀ earlier a, Decidable (C earlier a)] (labels : List α) :
    Decidable (EachStep C labels) :=
  decidable_of_iff _ eachStep_iff_take.symm

instance {C : List α → α → Prop} [∀ earlier a, Decidable (C earlier a)] (labels : List α) :
    Decidable (SomeStep C labels) :=
  decidable_of_iff _ someStep_iff.symm

/-- **The defect is exactly the steps that miss the condition.** -/
theorem throughout_iff_eachStep {P : List α → Prop} {C : List α → α → Prop}
    (base : P []) (step : ∀ earlier a, P earlier → (P (earlier ++ [a]) ↔ C earlier a))
    (labels : List α) : Throughout P labels ↔ EachStep C labels := by
  induction labels using List.reverseRecOn with
  | nil =>
      constructor
      · intro _ earlier a before
        simp at before
      · intro _ earlier before
        rw [List.prefix_nil.mp before]
        exact base
  | append_singleton labels a ih =>
      rw [throughout_snoc, eachStep_snoc, ih]
      constructor
      · rintro ⟨steps, last⟩
        exact ⟨steps, (step labels a (ih.mpr steps labels (List.prefix_refl _))).mp last⟩
      · rintro ⟨steps, last⟩
        exact ⟨steps, (step labels a (ih.mpr steps labels (List.prefix_refl _))).mpr last⟩

end Along

end SecureMsg.Theory
