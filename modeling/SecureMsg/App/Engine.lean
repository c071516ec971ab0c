/-
# App.Engine — one SQLAlchemy engine for all threads

`get_engine` makes the engine the first time it is called, outside the lock, and
checks again inside it: the thread that comes second disposes of its candidate.
It then reads the global twice more, for its own last check and for its answer,
without the lock.  `reset_engine` disposes of the engine and clears the global
under the lock.  Request handlers run in worker threads, so the calls interleave
between any two reads or writes (`engines`).

* `engines_accounted`: every engine made has been disposed of once, or is the global
  one, or is a candidate some thread is about to install or dispose of; none leaks.
* `one_engine`: where nobody resets, all calls get the one engine, or all raise what
  `_make_engine` raises.
* `failed_overtaken`: a call that fails was overtaken by a reset.
* `engines_finish`: a thread that waits, waits for one that can move.
-/
import SecureMsg.Theory.Run
import SecureMsg.Theory.Rows
import Mathlib.Algebra.GroupWithZero.Nat
import Mathlib.Data.List.Range

namespace SecureMsg.App.Engine

open SecureMsg.Theory

set_option autoImplicit false

/-! ## The module's state and its two functions -/

abbrev EngineId := Nat

inductive Call where
  | getEngine
  | resetEngine
  deriving DecidableEq, Repr

inductive Error where
  /-- `os.environ["DATABASE_URL"]` -/
  | keyError (key : String)
  /-- What `create_engine` raises: `ArgumentError` of an empty or malformed URL, another
  exception of a bad port or a driver that is not installed. -/
  | ofCreateEngine (exception : String)
  | runtimeError (detail : String)
  | attributeError (name : String)
  deriving DecidableEq, Repr

inductive Answer where
  /-- What `return engine` read. -/
  | engine (engine : Option EngineId)
  /-- The end of `reset_engine`. -/
  | reset
  | raised (e : Error)
  deriving DecidableEq, Repr

/-- `createEngine` says of a URL what `create_engine` raises, `none` where it makes an engine. -/
structure Environment where
  databaseUrl : Option String
  createEngine : String → Option String

/-- `_make_engine`: what it raises, `none` where it makes an engine. -/
def Environment.makeEngine (environment : Environment) : Option Error :=
  match environment.databaseUrl with
  | none => some (.keyError "DATABASE_URL")
  | some url => (environment.createEngine url).map .ofCreateEngine

/-- What a thread does next. -/
inductive Point where
  /-- `if engine is None` -/
  | check
  /-- `candidate = _make_engine()` -/
  | make
  /-- `with engine_lock` -/
  | lock (candidate : EngineId)
  /-- `if engine is None`, inside -/
  | checkAgain (candidate : EngineId)
  /-- `engine = candidate` -/
  | install (candidate : EngineId)
  /-- `candidate.dispose()` -/
  | dispose (candidate : EngineId)
  | unlock
  /-- the last `if engine is None` -/
  | checkLast
  /-- `return engine` -/
  | answer
  /-- `with engine_lock` of `reset_engine` -/
  | lockReset
  /-- `if engine is not None` -/
  | checkReset
  /-- `engine.dispose()` -/
  | disposeReset
  /-- `engine = None` -/
  | clear
  | unlockReset
  | ended (answer : Answer)
  deriving DecidableEq, Repr

structure Process where
  engine : Option EngineId := none
  /-- The thread that holds `engine_lock`. -/
  engineLock : Option Nat := none
  /-- How many engines have been made: the id of the next. -/
  made : Nat := 0
  disposed : List EngineId := []
  threads : List Point
  deriving DecidableEq, Repr

namespace Process

def goTo (P : Process) (t : Nat) (point : Point) : Process :=
  { P with threads := P.threads.set t point }

@[simp] theorem goTo_threads (P : Process) (t : Nat) (point : Point) :
    (P.goTo t point).threads = P.threads.set t point := rfl

end Process

/-- Thread `t` at `point`. -/
def act (environment : Environment) (P : Process) (t : Nat) : Point → Process
  | .check => P.goTo t (if P.engine = none then .make else .checkLast)
  | .make =>
      match environment.makeEngine with
      | some e => P.goTo t (.ended (.raised e))
      | none => { P.goTo t (.lock P.made) with made := P.made + 1 }
  | .lock candidate =>
      if P.engineLock = none then { P.goTo t (.checkAgain candidate) with engineLock := some t }
      else P
  | .checkAgain candidate =>
      P.goTo t (if P.engine = none then .install candidate else .dispose candidate)
  | .install candidate => { P.goTo t .unlock with engine := some candidate }
  | .dispose candidate => { P.goTo t .unlock with disposed := P.disposed ++ [candidate] }
  | .unlock => { P.goTo t .checkLast with engineLock := none }
  | .checkLast =>
      P.goTo t (if P.engine = none then
        .ended (.raised (.runtimeError "engine initialisation failed")) else .answer)
  | .answer => P.goTo t (.ended (.engine P.engine))
  | .lockReset =>
      if P.engineLock = none then { P.goTo t .checkReset with engineLock := some t } else P
  | .checkReset => P.goTo t (if P.engine = none then .clear else .disposeReset)
  | .disposeReset =>
      match P.engine with
      -- the `with` statement lets go of the lock
      | none => { P.goTo t (.ended (.raised (.attributeError "dispose"))) with engineLock := none }
      | some engine => { P.goTo t .clear with disposed := P.disposed ++ [engine] }
  | .clear => { P.goTo t .unlockReset with engine := none }
  | .unlockReset => { P.goTo t (.ended .reset) with engineLock := none }
  | .ended _ => P

def step (environment : Environment) (P : Process) (t : Nat) : Process :=
  match P.threads[t]? with
  | some point => act environment P t point
  | none => P

def firstPoint : Call → Point
  | .getEngine => .check
  | .resetEngine => .lockReset

/-- The module as loaded, with one thread for each call. -/
def opened (calls : List Call) : Process := { threads := calls.map firstPoint }

def engines (environment : Environment) (calls : List Call) : System Process Nat :=
  ⟨opened calls, step environment⟩

/-! ## Who holds the lock, and who an engine -/

/-- Between `with engine_lock` and its end. -/
def Point.inside : Point → Bool
  | .checkAgain _ | .install _ | .dispose _ | .unlock => true
  | .checkReset | .disposeReset | .clear | .unlockReset => true
  | _ => false

/-- The engine a thread has made and not parted with. -/
def Point.candidate : Point → List EngineId
  | .lock candidate | .checkAgain candidate | .install candidate | .dispose candidate => [candidate]
  | _ => []

/-- What a thread inside knows of the global. -/
def Point.Knows (engine : Option EngineId) : Point → Prop
  | .install _ => engine = none
  | .disposeReset => engine ≠ none
  | .ended (.raised (.attributeError _)) => False
  | _ => True

/-- The thread inside is the one that holds the lock. -/
structure Exclusive (engineLock : Option Nat) (threads : List Point) : Prop where
  holder : ∀ (t : Nat) point, threads[t]? = some point → (point.inside = true ↔ engineLock = some t)
  known : ∀ t, engineLock = some t → t < threads.length

/-- The global engine, unless `reset_engine` has disposed of it and not yet cleared it. -/
def Process.current (P : Process) : List EngineId :=
  if .clear ∈ P.threads then [] else P.engine.toList

structure Accounted (P : Process) : Prop where
  exclusive : Exclusive P.engineLock P.threads
  knows : ∀ (t : Nat) point, P.threads[t]? = some point → point.Knows P.engine
  engines : (List.range P.made).Perm (P.disposed ++ P.current ++ P.threads.flatMap Point.candidate)

section Exclusive

variable {engineLock : Option Nat} {threads : List Point} {t : Nat} {point point' : Point}

theorem Exclusive.same (now : Exclusive engineLock threads) (at_ : threads[t]? = some point)
    (side : point'.inside = point.inside) : Exclusive engineLock (threads.set t point') where
  holder := by
    intro m other found
    rcases (getElem?_set_iff at_).mp found with ⟨rfl, rfl⟩ | ⟨-, before⟩
    · rw [side]
      exact now.holder m point at_
    · exact now.holder m other before
  known := by
    intro m holds
    rw [List.length_set]
    exact now.known m holds

theorem Exclusive.enter (now : Exclusive none threads) (at_ : threads[t]? = some point)
    (isInside : point'.inside = true) : Exclusive (some t) (threads.set t point') where
  holder := by
    intro m other found
    rcases (getElem?_set_iff at_).mp found with ⟨rfl, rfl⟩ | ⟨different, before⟩
    · simp [isInside]
    · have outside := mt (now.holder m other before).mp (by simp)
      simp [outside, Ne.symm different]
  known := by
    intro m holds
    cases holds
    rw [List.length_set]
    exact (List.getElem?_eq_some_iff.mp at_).1

theorem Exclusive.leave (now : Exclusive engineLock threads) (at_ : threads[t]? = some point)
    (wasInside : point.inside = true) (outside : point'.inside = false) :
    Exclusive none (threads.set t point') where
  holder := by
    intro m other found
    rcases (getElem?_set_iff at_).mp found with ⟨rfl, rfl⟩ | ⟨different, before⟩
    · simp [outside]
    · have holds := (now.holder t point at_).mp wasInside
      have other_ := mt (now.holder m other before).mp (by simp [holds, Ne.symm different])
      simp [other_]
  known := fun m holds => by cases holds

/-- Beside the thread inside there is no other. -/
theorem Exclusive.alone (now : Exclusive engineLock threads) (at_ : threads[t]? = some point)
    (isInside : point.inside = true) {other : Point} (otherInside : other.inside = true)
    (different : other ≠ point) : other ∉ threads := by
  intro listed
  obtain ⟨m, found⟩ := List.mem_iff_getElem?.mp listed
  have one := (now.holder t point at_).mp isInside
  have two := (now.holder m other found).mp otherInside
  rw [one, Option.some.injEq] at two
  subst two
  rw [at_, Option.some.injEq] at found
  exact different found.symm

end Exclusive

/-! ## One step -/

section Step

variable {P : Process} {t : Nat} {point : Point}

theorem Accounted.replace (now : Accounted P) (at_ : P.threads[t]? = some point) {P' : Process}
    {point' : Point} (threads : P'.threads = P.threads.set t point')
    (exclusive : Exclusive P'.engineLock (P.threads.set t point')) (knows : point'.Knows P'.engine)
    (others : P'.engine = P.engine ∨ point.inside = true)
    (moved : ∀ e, P'.disposed.count e + P'.current.count e + point'.candidate.count e +
      (List.range P.made).count e = P.disposed.count e + P.current.count e +
        point.candidate.count e + (List.range P'.made).count e) : Accounted P' where
  exclusive := threads ▸ exclusive
  knows := by
    intro m other found
    rw [threads] at found
    rcases (getElem?_set_iff at_).mp found with ⟨rfl, rfl⟩ | ⟨different, before⟩
    · exact knows
    · have knew := now.knows m other before
      rcases others with same | isInside
      · exact same ▸ knew
      · -- only a thread inside knows anything of the engine
        cases other with
        | install candidate =>
            have one := (now.exclusive.holder t point at_).mp isInside
            have two := (now.exclusive.holder m _ before).mp rfl
            rw [one, Option.some.injEq] at two
            exact absurd two.symm different
        | disposeReset =>
            have one := (now.exclusive.holder t point at_).mp isInside
            have two := (now.exclusive.holder m _ before).mp rfl
            rw [one, Option.some.injEq] at two
            exact absurd two.symm different
        | ended answer =>
            cases answer with
            | raised e => cases e <;> exact knew
            | _ => exact knew
        | _ => exact knew
  engines := by
    rw [List.perm_iff_count]
    intro e
    have before := now.engines.count_eq e
    have replaced := (flatMap_set_perm (g := Point.candidate) at_ point').count_eq e
    have here := moved e
    rw [threads]
    simp only [List.count_append] at before replaced ⊢
    omega

/-- The current engine where the global stays and no thread comes to or leaves `clear`. -/
theorem current_same {P' : Process} {point' : Point} (at_ : P.threads[t]? = some point)
    (threads : P'.threads = P.threads.set t point') (engine : P'.engine = P.engine)
    (old : point ≠ .clear) (isNew : point' ≠ .clear) : P'.current = P.current := by
  unfold Process.current
  rw [threads, engine]
  simp only [mem_set_iff at_ old isNew]

/-- The rule for a step that only reads. -/
theorem Accounted.goTo (now : Accounted P) (at_ : P.threads[t]? = some point) {point' : Point}
    (side : point'.inside = point.inside) (candidate : point'.candidate = point.candidate)
    (knows : point'.Knows P.engine) (old : point ≠ .clear)
    (isNew : point' ≠ .clear ∨ (point.inside = true ∧ P.engine = none)) :
    Accounted (P.goTo t point') := by
  refine now.replace at_ rfl (now.exclusive.same at_ side) knows (Or.inl rfl) fun e => ?_
  have current : (P.goTo t point').current.count e = P.current.count e := by
    rcases isNew with isNew | ⟨-, nothing⟩
    · have same : (P.goTo t point').current = P.current :=
        current_same at_ (by rfl) (by rfl) old isNew
      rw [same]
    · unfold Process.current
      rw [show (P.goTo t point').engine = P.engine from rfl, nothing]
      split <;> split <;> rfl
  rw [current, candidate]
  rfl

variable {environment : Environment}

/-- With a thread inside, not at `clear`, the global is current. -/
theorem current_inside (now : Accounted P) (at_ : P.threads[t]? = some point)
    (isInside : point.inside = true) (other : point ≠ .clear) : P.current = P.engine.toList := by
  unfold Process.current
  rw [if_neg (now.exclusive.alone at_ isInside (by rfl) (Ne.symm other))]

/-- The rule for taking `engine_lock`. -/
theorem Accounted.takeLock (now : Accounted P) (at_ : P.threads[t]? = some point)
    (free : P.engineLock = none) {point' : Point} (isInside : point'.inside = true)
    (candidate : point'.candidate = point.candidate) (knows : point'.Knows P.engine)
    (old : point ≠ .clear) (isNew : point' ≠ .clear) :
    Accounted { P.goTo t point' with engineLock := some t } := by
  have exclusive := now.exclusive
  rw [free] at exclusive
  refine now.replace at_ rfl (exclusive.enter at_ isInside) knows (Or.inl rfl) fun e => ?_
  have same : Process.current { P.goTo t point' with engineLock := some t } = P.current :=
    current_same at_ (by rfl) (by rfl) old isNew
  rw [same, candidate]
  rfl

/-- The rule for letting go of it. -/
theorem Accounted.dropLock (now : Accounted P) (at_ : P.threads[t]? = some point)
    (wasInside : point.inside = true) {point' : Point} (outside : point'.inside = false)
    (candidate : point'.candidate = point.candidate) (knows : point'.Knows P.engine)
    (old : point ≠ .clear) (isNew : point' ≠ .clear) :
    Accounted { P.goTo t point' with engineLock := none } := by
  refine now.replace at_ rfl (now.exclusive.leave at_ wasInside outside) knows (Or.inl rfl) fun e => ?_
  have same : Process.current { P.goTo t point' with engineLock := none } = P.current :=
    current_same at_ (by rfl) (by rfl) old isNew
  rw [same, candidate]
  rfl

theorem accounted_make (now : Accounted P) (at_ : P.threads[t]? = some .make) :
    Accounted { P.goTo t (.lock P.made) with made := P.made + 1 } := by
  refine now.replace at_ rfl (now.exclusive.same at_ rfl) trivial (Or.inl rfl) fun e => ?_
  have same : Process.current { P.goTo t (.lock P.made) with made := P.made + 1 } = P.current :=
    current_same at_ (by rfl) (by rfl) (by simp) (by simp)
  rw [same]
  simp only [Process.goTo, Point.candidate, List.range_succ, List.count_append, List.count_nil]
  omega

theorem accounted_install (now : Accounted P) {candidate : EngineId}
    (at_ : P.threads[t]? = some (.install candidate)) :
    Accounted { P.goTo t .unlock with engine := some candidate } := by
  have nothing : P.engine = none := now.knows t _ at_
  refine now.replace at_ rfl (now.exclusive.same at_ rfl) trivial (Or.inr rfl) fun e => ?_
  have clear : .clear ∉ P.threads.set t .unlock := by
    rw [mem_set_iff at_ (by simp) (by simp)]
    exact now.exclusive.alone at_ rfl rfl (by simp)
  have after : Process.current { P.goTo t .unlock with engine := some candidate } = [candidate] := by
    unfold Process.current
    rw [Process.goTo_threads, if_neg clear]
    rfl
  rw [after, current_inside now at_ rfl (by simp), nothing]
  simp only [Process.goTo, Point.candidate, Option.toList_none, List.count_nil]
  omega

theorem accounted_dispose (now : Accounted P) {candidate : EngineId}
    (at_ : P.threads[t]? = some (.dispose candidate)) :
    Accounted { P.goTo t .unlock with disposed := P.disposed ++ [candidate] } := by
  refine now.replace at_ rfl (now.exclusive.same at_ rfl) trivial (Or.inl rfl) fun e => ?_
  have same : Process.current { P.goTo t .unlock with disposed := P.disposed ++ [candidate] } =
      P.current := current_same at_ (by rfl) (by rfl) (by simp) (by simp)
  rw [same]
  simp only [Process.goTo, Point.candidate, List.count_append, List.count_nil]
  omega

theorem accounted_disposeReset (now : Accounted P) (at_ : P.threads[t]? = some .disposeReset)
    {engine : EngineId} (isEngine : P.engine = some engine) :
    Accounted { P.goTo t .clear with disposed := P.disposed ++ [engine] } := by
  refine now.replace at_ rfl (now.exclusive.same at_ rfl) trivial (Or.inl rfl) fun e => ?_
  obtain ⟨inside, -⟩ := List.getElem?_eq_some_iff.mp at_
  have after : Process.current { P.goTo t .clear with disposed := P.disposed ++ [engine] } = [] := by
    unfold Process.current
    rw [Process.goTo_threads, if_pos (List.mem_iff_getElem?.mpr ⟨t, List.getElem?_set_self inside⟩)]
  rw [after, current_inside now at_ rfl (by simp), isEngine]
  simp only [Process.goTo, Point.candidate, List.count_append, List.count_nil, Option.toList_some]

theorem accounted_clear (now : Accounted P) (at_ : P.threads[t]? = some .clear) :
    Accounted { P.goTo t .unlockReset with engine := none } := by
  refine now.replace at_ rfl (now.exclusive.same at_ rfl) trivial (Or.inr rfl) fun e => ?_
  have before : P.current = [] := if_pos (List.mem_iff_getElem?.mpr ⟨t, at_⟩)
  have after : Process.current { P.goTo t .unlockReset with engine := none } = [] := by
    unfold Process.current
    split <;> rfl
  rw [before, after]
  rfl

/-- What `_make_engine` raises. -/
theorem makeEngine_some {e : Error} (raises : environment.makeEngine = some e) :
    (environment.databaseUrl = none ∧ e = .keyError "DATABASE_URL") ∨
      ∃ url exception, environment.databaseUrl = some url ∧
        environment.createEngine url = some exception ∧ e = .ofCreateEngine exception := by
  unfold Environment.makeEngine at raises
  cases isSet : environment.databaseUrl with
  | none =>
      rw [isSet] at raises
      cases raises
      exact Or.inl ⟨rfl, rfl⟩
  | some url =>
      rw [isSet] at raises
      obtain ⟨exception, refused, rfl⟩ := Option.map_eq_some_iff.mp raises
      exact Or.inr ⟨url, exception, rfl, refused, rfl⟩

theorem makeEngine_knows {e : Error} {engine : Option EngineId}
    (raises : environment.makeEngine = some e) : (Point.ended (.raised e)).Knows engine := by
  rcases makeEngine_some raises with ⟨-, rfl⟩ | ⟨url, exception, -, -, rfl⟩
  · trivial
  · trivial

theorem makeEngine_none (makes : environment.makeEngine = none) :
    ∃ url, environment.databaseUrl = some url ∧ environment.createEngine url = none := by
  unfold Environment.makeEngine at makes
  cases isSet : environment.databaseUrl with
  | none =>
      rw [isSet] at makes
      cases makes
  | some url =>
      rw [isSet] at makes
      exact ⟨url, rfl, Option.map_eq_none_iff.mp makes⟩

/-- **One step of one thread.** -/
theorem accounted_step (now : Accounted P) (t : Nat) : Accounted (step environment P t) := by
  unfold step
  cases at_ : P.threads[t]? with
  | none => exact now
  | some point =>
      dsimp only
      cases point with
      | check =>
          simp only [act]
          split
          · exact now.goTo at_ rfl rfl trivial (by simp) (by simp)
          · exact now.goTo at_ rfl rfl trivial (by simp) (by simp)
      | make =>
          simp only [act]
          cases makes : environment.makeEngine with
          | some e => exact now.goTo at_ rfl rfl (makeEngine_knows makes) (by simp) (by simp)
          | none => exact accounted_make now at_
      | lock candidate =>
          simp only [act]
          split
          · rename_i free
            exact now.takeLock at_ free rfl rfl trivial (by simp) (by simp)
          · exact now
      | checkAgain candidate =>
          simp only [act]
          split
          · rename_i nothing
            exact now.goTo at_ rfl rfl nothing (by simp) (by simp)
          · exact now.goTo at_ rfl rfl trivial (by simp) (by simp)
      | install candidate => exact accounted_install now at_
      | dispose candidate => exact accounted_dispose now at_
      | unlock => exact now.dropLock at_ rfl rfl rfl trivial (by simp) (by simp)
      | checkLast =>
          simp only [act]
          split
          · exact now.goTo at_ rfl rfl trivial (by simp) (by simp)
          · exact now.goTo at_ rfl rfl trivial (by simp) (by simp)
      | answer => exact now.goTo at_ rfl rfl trivial (by simp) (by simp)
      | lockReset =>
          simp only [act]
          split
          · rename_i free
            exact now.takeLock at_ free rfl rfl trivial (by simp) (by simp)
          · exact now
      | checkReset =>
          simp only [act]
          split
          · rename_i nothing
            exact now.goTo at_ rfl rfl trivial (by simp) (Or.inr ⟨rfl, nothing⟩)
          · rename_i something
            exact now.goTo at_ rfl rfl something (by simp) (by simp)
      | disposeReset =>
          have something : P.engine ≠ none := now.knows t _ at_
          cases isEngine : P.engine with
          | none => exact absurd isEngine something
          | some engine =>
              simp only [act, isEngine]
              exact accounted_disposeReset now at_ isEngine
      | clear => exact accounted_clear now at_
      | unlockReset => exact now.dropLock at_ rfl rfl rfl trivial (by simp) (by simp)
      | ended answer => exact now

end Step

/-! ## Every run -/

variable (environment : Environment)

theorem accounted (calls : List Call) (schedule : List Nat) :
    Accounted ((engines environment calls).run schedule) := by
  refine (engines environment calls).invariant (P := Accounted) ?_
    (fun P t now => accounted_step now t) schedule
  have started : ∀ point ∈ (opened calls).threads, ∃ call, point = firstPoint call := by
    intro point listed
    obtain ⟨call, -, rfl⟩ := List.mem_map.mp listed
    exact ⟨call, rfl⟩
  constructor
  case exclusive =>
    refine ⟨fun t point at_ => ?_, fun t holds => by cases holds⟩
    obtain ⟨call, rfl⟩ := started point (List.mem_of_getElem? at_)
    cases call <;> simp [engines, opened, firstPoint, Point.inside]
  case knows =>
    intro t point at_
    obtain ⟨call, rfl⟩ := started point (List.mem_of_getElem? at_)
    cases call <;> trivial
  case engines =>
    have none_ : (opened calls).threads.flatMap Point.candidate = [] := by
      rw [List.flatMap_eq_nil_iff]
      intro point listed
      obtain ⟨call, rfl⟩ := started point listed
      cases call <;> rfl
    have current : (opened calls).current = [] := by
      unfold Process.current
      split <;> rfl
    show (List.range 0).Perm ([] ++ (opened calls).current ++ (opened calls).threads.flatMap _)
    rw [current, none_]
    rfl

/-- **No engine leaks**: each one made is disposed of once, or is current, or is a
candidate; once all calls have ended, the ones not disposed of are the global one. -/
theorem engines_accounted (calls : List Call) (schedule : List Nat) :
    let P := (engines environment calls).run schedule
    (List.range P.made).Perm (P.disposed ++ P.current ++ P.threads.flatMap Point.candidate) ∧
      ((∀ point ∈ P.threads, ∃ answer, point = .ended answer) →
        (List.range P.made).Perm (P.disposed ++ P.engine.toList)) ∧
      ∀ name, .ended (.raised (.attributeError name)) ∉ P.threads := by
  have now := accounted environment calls schedule
  dsimp only
  generalize (engines environment calls).run schedule = P at now
  refine ⟨now.engines, fun all => ?_, fun name listed => ?_⟩
  · have clear : .clear ∉ P.threads := fun listed => by
      obtain ⟨answer, isEnded⟩ := all _ listed
      cases isEnded
    have none_ : P.threads.flatMap Point.candidate = [] := by
      rw [List.flatMap_eq_nil_iff]
      intro point listed
      obtain ⟨answer, rfl⟩ := all point listed
      rfl
    have engines := now.engines
    rw [none_, List.append_nil, Process.current, if_neg clear] at engines
    exact engines
  · obtain ⟨t, at_⟩ := List.mem_iff_getElem?.mp listed
    exact now.knows t _ at_

/-! ## No thread is left waiting -/

/-- The steps left to a thread. -/
def Point.rank : Point → Nat
  | .check => 9
  | .make => 8
  | .lock _ | .lockReset => 7
  | .checkAgain _ | .checkReset => 6
  | .install _ | .dispose _ | .disposeReset => 5
  | .unlock | .clear => 4
  | .checkLast | .unlockReset => 3
  | .answer => 2
  | .ended _ => 0

def Point.hasEnded : Point → Bool
  | .ended _ => true
  | _ => false

section Moves

variable {environment : Environment} {P : Process} {t : Nat} {point : Point}

/-- A thread that does not wait for the lock comes closer to its end. -/
theorem act_rank (isOpen : point.hasEnded = false) (waits : point.rank = 7 → P.engineLock = none) :
    ∃ point', (act environment P t point).threads = P.threads.set t point' ∧
      point'.rank < point.rank := by
  cases point with
  | check =>
      refine ⟨_, rfl, ?_⟩
      split <;> simp [Point.rank]
  | make =>
      simp only [act]
      cases environment.makeEngine with
      | some e => exact ⟨_, rfl, by simp [Point.rank]⟩
      | none => exact ⟨_, rfl, by simp [Point.rank]⟩
  | lock candidate =>
      simp only [act, waits rfl, if_true]
      exact ⟨_, rfl, by simp [Point.rank]⟩
  | checkAgain candidate =>
      refine ⟨_, rfl, ?_⟩
      split <;> simp [Point.rank]
  | checkLast =>
      refine ⟨_, rfl, ?_⟩
      split <;> simp [Point.rank]
  | lockReset =>
      simp only [act, waits rfl, if_true]
      exact ⟨_, rfl, by simp [Point.rank]⟩
  | checkReset =>
      refine ⟨_, rfl, ?_⟩
      split <;> simp [Point.rank]
  | disposeReset =>
      cases isEngine : P.engine with
      | none =>
          simp only [act, isEngine]
          exact ⟨_, rfl, by simp [Point.rank]⟩
      | some engine =>
          simp only [act, isEngine]
          exact ⟨_, rfl, by simp [Point.rank]⟩
  | ended answer => cases isOpen
  | install | dispose | unlock | answer | clear | unlockReset =>
      exact ⟨_, rfl, by simp [Point.rank]⟩

theorem inside_rank (isInside : point.inside = true) :
    point.hasEnded = false ∧ point.rank ≠ 7 := by
  cases point <;> simp [Point.inside, Point.hasEnded, Point.rank] at isInside ⊢

def Process.left (P : Process) : Nat := (P.threads.map Point.rank).sum

/-- While a thread is open some thread can move. -/
theorem some_moves (now : Accounted P) (isOpen : ∃ point ∈ P.threads, point.hasEnded = false) :
    ∃ t, (step environment P t).left < P.left := by
  -- the holder of the lock, if there is one
  have mover : ∃ (t : Nat) (point : Point), P.threads[t]? = some point ∧ point.hasEnded = false ∧
      (point.rank = 7 → P.engineLock = none) := by
    obtain ⟨point, listed, isOpen⟩ := isOpen
    obtain ⟨t, at_⟩ := List.mem_iff_getElem?.mp listed
    cases holder : P.engineLock with
    | none => exact ⟨t, point, at_, isOpen, fun _ => rfl⟩
    | some m =>
        have inRange := now.exclusive.known m holder
        have found := List.getElem?_eq_getElem inRange
        have isInside := (now.exclusive.holder m _ found).mpr holder
        obtain ⟨isOpen, unlocked⟩ := inside_rank isInside
        exact ⟨m, _, found, isOpen, fun waits => absurd waits unlocked⟩
  obtain ⟨t, point, at_, isOpen, waits⟩ := mover
  obtain ⟨point', threads, less⟩ := act_rank isOpen waits
  refine ⟨t, ?_⟩
  obtain ⟨before, later, isThreads, isSet⟩ := set_split at_ point'
  unfold Process.left step
  simp only [at_]
  rw [threads, isSet, isThreads]
  simp only [List.map_append, List.map_cons, List.sum_append, List.sum_cons]
  omega

/-- **Every call can be brought to its end**, whatever has happened so far. -/
theorem engines_finish (calls : List Call) (schedule : List Nat) :
    ∃ later, ∀ point ∈ ((engines environment calls).run (schedule ++ later)).threads,
      point.hasEnded = true := by
  induction steps : ((engines environment calls).run schedule).left using Nat.strong_induction_on
    generalizing schedule with
  | _ n ih =>
      by_cases isOpen : ∃ point ∈ ((engines environment calls).run schedule).threads,
          point.hasEnded = false
      · have now := accounted environment calls schedule
        obtain ⟨t, less⟩ : ∃ t, (step environment ((engines environment calls).run schedule) t).left <
            ((engines environment calls).run schedule).left := some_moves now isOpen
        have stepped : (engines environment calls).run (schedule ++ [t]) =
            step environment ((engines environment calls).run schedule) t := System.run_snoc _ _ _
        obtain ⟨later, ended⟩ := ih _ (steps ▸ stepped ▸ less) (schedule ++ [t]) rfl
        exact ⟨t :: later, by simpa using ended⟩
      · refine ⟨[], fun point listed => ?_⟩
        rw [List.append_nil] at listed
        by_contra open_
        exact isOpen ⟨point, listed, by simpa using open_⟩

end Moves

/-! ## Nobody resets -/

/-- What a thread of `get_engine` goes by where no other resets. -/
def Settled (environment : Environment) (engine : Option EngineId) : Point → Prop
  | .unlock | .checkLast | .answer | .dispose _ => environment.makeEngine = none ∧ engine ≠ none
  | .make | .check => True
  | .lock _ | .checkAgain _ | .install _ => environment.makeEngine = none
  | .ended answer => (environment.makeEngine = none ∧ engine ≠ none ∧ answer = .engine engine) ∨
      ∃ e, environment.makeEngine = some e ∧ answer = .raised e
  | .lockReset | .checkReset | .disposeReset | .clear | .unlockReset => False

section Settled

variable {environment : Environment} {P : Process} {t : Nat} {point : Point}

/-- What has been settled stays so when the global is set for the first time. -/
theorem Settled.set {engine : EngineId} (settled : Settled environment none point) :
    Settled environment (some engine) point := by
  cases point with
  | unlock | checkLast | answer | dispose => exact absurd rfl settled.2
  | ended answer =>
      rcases settled with ⟨-, nothing, -⟩ | raised
      · exact absurd rfl nothing
      · exact Or.inr raised
  | _ => exact settled

def AllSettled (environment : Environment) (P : Process) : Prop :=
  (environment.makeEngine ≠ none → P.engine = none) ∧
    ∀ (t : Nat) point, P.threads[t]? = some point → Settled environment P.engine point

theorem AllSettled.goTo (now : AllSettled environment P) (at_ : P.threads[t]? = some point)
    {P' : Process} {point' : Point} (threads : P'.threads = P.threads.set t point')
    (engine : P'.engine = P.engine) (settled : Settled environment P.engine point') :
    AllSettled environment P' := by
  refine ⟨engine ▸ now.1, fun m other found => ?_⟩
  rw [threads] at found
  rw [engine]
  rcases (getElem?_set_iff at_).mp found with ⟨rfl, rfl⟩ | ⟨-, before⟩
  · exact settled
  · exact now.2 m other before

theorem settled_step (accounts : Accounted P) (now : AllSettled environment P) (t : Nat) :
    AllSettled environment (step environment P t) := by
  unfold step
  cases at_ : P.threads[t]? with
  | none => exact now
  | some point =>
      have settled := now.2 t point at_
      dsimp only
      cases point with
      | check =>
          simp only [act]
          split
          · exact now.goTo at_ rfl rfl trivial
          · rename_i something
            exact now.goTo at_ rfl rfl ⟨not_not.mp (mt now.1 something), something⟩
      | make =>
          simp only [act]
          cases makes : environment.makeEngine with
          | some e => exact now.goTo at_ rfl rfl (Or.inr ⟨e, makes, rfl⟩)
          | none => exact now.goTo at_ rfl rfl makes
      | lock candidate =>
          simp only [act]
          split
          · exact now.goTo at_ rfl rfl settled
          · exact now
      | checkAgain candidate =>
          simp only [act]
          split
          · exact now.goTo at_ rfl rfl settled
          · rename_i something
            exact now.goTo at_ rfl rfl ⟨settled, something⟩
      | install candidate =>
          have nothing : P.engine = none := accounts.knows t _ at_
          refine ⟨fun raises => absurd settled raises, fun m other found => ?_⟩
          rcases (getElem?_set_iff at_).mp found with ⟨rfl, rfl⟩ | ⟨-, before⟩
          · exact ⟨settled, by simp [act]⟩
          · have settled' := now.2 m other before
            rw [nothing] at settled'
            exact settled'.set
      | dispose candidate => exact now.goTo at_ rfl rfl settled
      | unlock => exact now.goTo at_ rfl rfl settled
      | checkLast =>
          simp only [act]
          rw [if_neg settled.2]
          exact now.goTo at_ rfl rfl settled
      | answer => exact now.goTo at_ rfl rfl (Or.inl ⟨settled.1, settled.2, rfl⟩)
      | lockReset | checkReset | disposeReset | clear | unlockReset => exact settled.elim
      | ended answer => exact now

end Settled

/-- **Any number of threads calling `get_engine` at once get one engine**, which is
the global one and has not been disposed of. -/
theorem one_engine (n : Nat) (schedule : List Nat) (t : Nat) (answer : Answer)
    (done : ((engines environment (List.replicate n .getEngine)).run schedule).threads[t]? =
      some (.ended answer)) :
    let P := (engines environment (List.replicate n .getEngine)).run schedule
    ((∃ url, environment.databaseUrl = some url ∧ environment.createEngine url = none) ∧
        ∃ engine, P.engine = some engine ∧ answer = .engine (some engine) ∧
          engine ∉ P.disposed) ∨
      (environment.databaseUrl = none ∧ answer = .raised (.keyError "DATABASE_URL")) ∨
      ∃ url exception, environment.databaseUrl = some url ∧
        environment.createEngine url = some exception ∧
          answer = .raised (.ofCreateEngine exception) := by
  have started : AllSettled environment (opened (List.replicate n .getEngine)) := by
    refine ⟨fun _ => rfl, fun t point at_ => ?_⟩
    have listed := List.mem_of_getElem? at_
    simp only [opened, List.map_replicate, List.mem_replicate] at listed
    rw [listed.2]
    trivial
  have run := (engines environment (List.replicate n .getEngine)).invariant
    (P := fun P => Accounted P ∧ AllSettled environment P)
    ⟨accounted environment (List.replicate n .getEngine) [], started⟩
    (fun P t now => ⟨accounted_step now.1 t, settled_step now.1 now.2 t⟩) schedule
  dsimp only
  generalize (engines environment (List.replicate n .getEngine)).run schedule = P at run done
  rcases run.2.2 t _ done with ⟨makes, something, rfl⟩ | ⟨e, raises, rfl⟩
  · obtain ⟨engine, isEngine⟩ := Option.ne_none_iff_exists'.mp something
    refine Or.inl ⟨makeEngine_none makes, engine, isEngine, by rw [isEngine], fun disposed => ?_⟩
    have clear : .clear ∉ P.threads := fun listed => by
      obtain ⟨m, found⟩ := List.mem_iff_getElem?.mp listed
      exact run.2.2 m _ found
    have once := run.1.engines.nodup_iff.mp List.nodup_range
    rw [Process.current, if_neg clear, isEngine] at once
    have apart := (List.nodup_append.mp (List.nodup_append.mp once).1).2.2
    exact apart engine disposed engine (List.mem_singleton_self _) rfl
  · rcases makeEngine_some raises with ⟨unset, rfl⟩ | ⟨url, exception, isSet, refused, rfl⟩
    · exact Or.inr (Or.inl ⟨unset, rfl⟩)
    · exact Or.inr (Or.inr ⟨url, exception, isSet, refused, rfl⟩)

/-- The environment with a URL, of which `create_engine` refuses the empty one. -/
def withUrl (url : String) : Environment :=
  ⟨some url, fun url =>
    if url = "" then some "ArgumentError: Could not parse SQLAlchemy URL from given URL string"
    else none⟩

/-- Two threads find no engine; the second to take the lock disposes of its own. -/
theorem one_engine_race :
    let P := (engines (withUrl "postgresql://db") [.getEngine, .getEngine]).run
      [0, 1, 0, 1, 1, 1, 0, 1, 1, 0, 0, 0, 1, 0, 1, 0, 0]
    P.made = 2 ∧ P.threads = [.ended (.engine (some 1)), .ended (.engine (some 1))] ∧
      ∃ engine, P.engine = some engine ∧ engine ∉ P.disposed := by
  have answered := one_engine (withUrl "postgresql://db") 2
    [0, 1, 0, 1, 1, 1, 0, 1, 1, 0, 0, 0, 1, 0, 1, 0, 0] 0 (.engine (some 1)) (by decide)
  rcases answered with ⟨-, engine, isEngine, -, kept⟩ | ⟨-, raised⟩ | ⟨url, exception, -, -, raised⟩
  · exact ⟨by decide, by decide, engine, isEngine, kept⟩
  · cases raised
  · cases raised

/-- With an empty URL both raise. -/
example : ((engines (withUrl "") [.getEngine, .getEngine]).run [0, 1, 0, 1]).threads =
    List.replicate 2 (.ended (.raised (.ofCreateEngine
      "ArgumentError: Could not parse SQLAlchemy URL from given URL string"))) := by
  decide

/-! ## Calls overtaken by a reset -/

/-- Past the moment `get_engine` saw the engine there or put it there. -/
def Point.counts : Point → Bool
  | .dispose _ | .unlock | .checkLast | .answer => true
  | _ => false

/-- `get_engine` has no engine to show for it. -/
def Point.hasFailed : Point → Bool
  | .ended (.engine none) | .ended (.raised (.runtimeError _)) => true
  | _ => false

/-- A reset clears the global while the call of thread `m` counts on it. -/
def Overtakes (environment : Environment) (calls : List Call) (m : Nat) (earlier : List Nat)
    (t : Nat) : Prop :=
  ((engines environment calls).run earlier).threads[t]? = some .clear ∧
    ∃ point, ((engines environment calls).run earlier).threads[m]? = some point ∧
      point.counts = true

/-- Who counts on the engine has it or has been overtaken; who failed was overtaken. -/
def Excused (P : Process) (overtaken : Nat → Prop) : Prop :=
  ∀ (m : Nat) point, P.threads[m]? = some point →
    (point.counts = true → P.engine ≠ none ∨ overtaken m) ∧
      (point.hasFailed = true → overtaken m)

section Excused

variable {environment : Environment} {P : Process} {t : Nat} {point : Point}
  {overtaken : Nat → Prop}

theorem Excused.goTo (now : Excused P overtaken) (at_ : P.threads[t]? = some point)
    {P' : Process} {point' : Point} (threads : P'.threads = P.threads.set t point')
    (engine : P.engine ≠ none → P'.engine ≠ none)
    (counts : point'.counts = true → P'.engine ≠ none ∨ overtaken t)
    (failed : point'.hasFailed = true → overtaken t) : Excused P' overtaken := by
  intro m other found
  rw [threads] at found
  rcases (getElem?_set_iff at_).mp found with ⟨rfl, rfl⟩ | ⟨-, before⟩
  · exact ⟨counts, failed⟩
  · obtain ⟨counts, failed⟩ := now m other before
    exact ⟨fun counting => (counts counting).imp_left engine, failed⟩

/-- What `_make_engine` raises is no failure of `get_engine`'s own. -/
theorem makeEngine_hasFailed {e : Error} (raises : environment.makeEngine = some e)
    (failed : (Point.ended (.raised e)).hasFailed = true) : overtaken t := by
  rcases makeEngine_some raises with ⟨-, rfl⟩ | ⟨url, exception, -, -, rfl⟩
  · cases failed
  · cases failed

theorem excused_step (now : Excused P overtaken) (t : Nat) (other : P.threads[t]? ≠ some .clear) :
    Excused (step environment P t) overtaken := by
  unfold step
  cases at_ : P.threads[t]? with
  | none => exact now
  | some point =>
      obtain ⟨counts, -⟩ := now t point at_
      dsimp only
      cases point with
      | check =>
          simp only [act]
          split
          · exact now.goTo at_ rfl id (by simp [Point.counts]) (by simp [Point.hasFailed])
          · rename_i something
            exact now.goTo at_ rfl id (fun _ => Or.inl something) (by simp [Point.hasFailed])
      | make =>
          simp only [act]
          cases makes : environment.makeEngine with
          | some e =>
              exact now.goTo at_ rfl id (by simp [Point.counts]) (makeEngine_hasFailed makes)
          | none => exact now.goTo at_ rfl id (by simp [Point.counts]) (by simp [Point.hasFailed])
      | lock candidate =>
          simp only [act]
          split
          · exact now.goTo at_ rfl id (by simp [Point.counts]) (by simp [Point.hasFailed])
          · exact now
      | checkAgain candidate =>
          simp only [act]
          split
          · exact now.goTo at_ rfl id (by simp [Point.counts]) (by simp [Point.hasFailed])
          · rename_i something
            exact now.goTo at_ rfl id (fun _ => Or.inl something) (by simp [Point.hasFailed])
      | install candidate =>
          exact now.goTo at_ rfl (by simp [act]) (by simp [act]) (by simp [Point.hasFailed])
      | dispose candidate =>
          exact now.goTo at_ rfl id (fun _ => counts rfl) (by simp [Point.hasFailed])
      | unlock => exact now.goTo at_ rfl id (fun _ => counts rfl) (by simp [Point.hasFailed])
      | checkLast =>
          simp only [act]
          split
          · rename_i nothing
            exact now.goTo at_ rfl id (by simp [Point.counts])
              (fun _ => (counts rfl).resolve_left (not_not.mpr nothing))
          · rename_i something
            exact now.goTo at_ rfl id (fun _ => Or.inl something) (by simp [Point.hasFailed])
      | answer =>
          refine now.goTo at_ rfl id (by simp [Point.counts]) fun failed => ?_
          refine (counts rfl).resolve_left fun something => ?_
          cases isEngine : P.engine with
          | none => exact something isEngine
          | some engine =>
              rw [isEngine] at failed
              cases failed
      | lockReset =>
          simp only [act]
          split
          · exact now.goTo at_ rfl id (by simp [Point.counts]) (by simp [Point.hasFailed])
          · exact now
      | checkReset =>
          simp only [act]
          split
          · exact now.goTo at_ rfl id (by simp [Point.counts]) (by simp [Point.hasFailed])
          · exact now.goTo at_ rfl id (by simp [Point.counts]) (by simp [Point.hasFailed])
      | disposeReset =>
          simp only [act]
          split
          · exact now.goTo at_ rfl id (by simp [Point.counts]) (by simp [Point.hasFailed])
          · exact now.goTo at_ rfl id (by simp [Point.counts]) (by simp [Point.hasFailed])
      | clear => exact absurd at_ other
      | unlockReset => exact now.goTo at_ rfl id (by simp [Point.counts]) (by simp [Point.hasFailed])
      | ended answer => exact now

theorem excused_clear (now : Excused P overtaken) (at_ : P.threads[t]? = some .clear) :
    Excused (step environment P t) fun m => overtaken m ∨
      ∃ point, P.threads[m]? = some point ∧ point.counts = true := by
  unfold step
  rw [at_]
  intro m other found
  rcases (getElem?_set_iff at_).mp found with ⟨rfl, rfl⟩ | ⟨-, before⟩
  · simp [Point.counts, Point.hasFailed]
  · exact ⟨fun counting => Or.inr (Or.inr ⟨other, before, counting⟩),
      fun failed => Or.inl ((now m other before).2 failed)⟩

end Excused

/-- **`get_engine` fails only where a reset overtakes it**: a call that raises
`RuntimeError` or returns `None` had seen an engine, or put one there, and a reset
cleared it before the call was done. -/
theorem failed_overtaken (calls : List Call) (schedule : List Nat) (m : Nat) (point : Point)
    (at_ : ((engines environment calls).run schedule).threads[m]? = some point)
    (failed : point.hasFailed = true) : SomeStep (Overtakes environment calls m) schedule := by
  suffices now : Excused ((engines environment calls).run schedule)
      fun m => SomeStep (Overtakes environment calls m) schedule from (now m point at_).2 failed
  clear at_ failed
  induction schedule using List.reverseRecOn with
  | nil =>
      intro m point at_
      obtain ⟨call, -, rfl⟩ := List.mem_map.mp (List.mem_of_getElem? at_)
      cases call <;> simp [firstPoint, Point.counts, Point.hasFailed]
  | append_singleton schedule t ih =>
      rw [System.run_snoc]
      by_cases clears : ((engines environment calls).run schedule).threads[t]? = some .clear
      · intro m point at_
        have now : Excused (step environment _ t) _ := excused_clear ih clears
        obtain ⟨counts, failed⟩ := now m point at_
        have widen : ∀ {P : Prop}, P ∨ (SomeStep (Overtakes environment calls m) schedule ∨
            ∃ point, ((engines environment calls).run schedule).threads[m]? = some point ∧
              point.counts = true) →
            P ∨ SomeStep (Overtakes environment calls m) (schedule ++ [t]) := by
          intro P cases_
          refine cases_.imp_right fun cleared => (someStep_snoc _ _ _).mpr ?_
          exact cleared.imp_right fun counting => ⟨clears, counting⟩
        exact ⟨fun counting => widen (counts counting),
          fun failing => (widen (P := False) (Or.inr (failed failing))).resolve_left id⟩
      · intro m point at_
        have now : Excused (step environment _ t) _ := excused_step ih t clears
        obtain ⟨counts, failed⟩ := now m point at_
        have widen : SomeStep (Overtakes environment calls m) schedule →
            SomeStep (Overtakes environment calls m) (schedule ++ [t]) :=
          fun before => (someStep_snoc _ _ _).mpr (Or.inl before)
        exact ⟨fun counting => (counts counting).imp_right widen, fun failing => widen (failed failing)⟩

/-- The reset runs between the installation and the last check. -/
theorem failed_overtaken_once :
    SomeStep (Overtakes (withUrl "postgresql://db") [.getEngine, .resetEngine] 0)
      [0, 0, 0, 0, 0, 0, 1, 1, 1, 1, 0] :=
  failed_overtaken (withUrl "postgresql://db") [.getEngine, .resetEngine]
    [0, 0, 0, 0, 0, 0, 1, 1, 1, 1, 0] 0
    (.ended (.raised (.runtimeError "engine initialisation failed"))) (by decide) (by decide)

end SecureMsg.App.Engine
