/-
# Keys.Pop — one-time prekeys under concurrent fetches

`pop_one_time_prekey` is one `DELETE`: it picks the user's least prekey on the
snapshot its statement started with, waits for that row's lock, and finds the
row gone if the holder has committed.  It does not look for another.  This
module runs pops and uploads statement by statement (`keys`).

* No prekey is handed out twice: committed, pending and handed-out ids are always
  apart (`Apart`).
* `pops_return_iff`: with enough prekeys every pop of a user comes back with one
  iff no pop of the user picks a prekey that another open pop has picked
  already.
-/
import SecureMsg.Theory.Transactions
import SecureMsg.Keys.Queue

namespace SecureMsg.Keys

open SecureMsg.Theory SecureMsg.Store SecureMsg.Repository

set_option autoImplicit false

/-! ## The transactions -/

inductive Transaction where
  | popOneTimePrekey (userId : UserId)
  | addOneTimePrekeys (userId : UserId) (prekeys : List Bytes)
  deriving DecidableEq, Repr

inductive Point where
  | statement (transaction : Transaction)
  /-- Picked on the snapshot; the row may be locked. -/
  | locking (userId : UserId) (id : Int)
  /-- Deleted, or nothing found, not committed. -/
  | popped (userId : UserId) (row : Option OneTimePreKey)
  | added (rows : List OneTimePreKey)
  deriving DecidableEq, Repr

inductive Write where
  | deletePrekey (id : Int)
  | insertPrekeys (rows : List OneTimePreKey)
  deriving DecidableEq, Repr

/-- What the method returned or raised; of a pop the row, whose `prekey_pub` is
what the caller gets. -/
inductive Answer where
  | popped (userId : UserId) (row : Option OneTimePreKey)
  | added
  | raised (e : Error)
  deriving DecidableEq, Repr

def writeKeys (db : Database) : Write → Database
  | .deletePrekey id => db.deleteOneTimePrekey id
  | .insertPrekeys rows => { db with oneTimePrekeys := db.oneTimePrekeys ++ rows }

def drawPrekeyIds (n : Nat) (db : Database) : Database :=
  { db with
    sequences := { db.sequences with oneTimePrekeys := db.sequences.oneTimePrekeys + n } }

@[simp] theorem drawPrekeyIds_oneTimePrekeys (n : Nat) (db : Database) :
    (drawPrekeyIds n db).oneTimePrekeys = db.oneTimePrekeys := rfl

def nextKeys (point : Point) (own : List Write) (view : Database) (held : List Write) :
    Action Database Point Write Answer :=
  match point with
  | .statement (.popOneTimePrekey userId) =>
      match (prekeysOf view userId).head? with
      | none => .proceed id (.popped userId none) own
      | some row => .proceed id (.locking userId row.id) own
  | .locking userId prekeyId =>
      if .deletePrekey prekeyId ∈ held then .wait
      else
        match view.oneTimePrekeys.find? fun row => row.id = prekeyId with
        | none => .proceed id (.popped userId none) own
        | some row => .proceed id (.popped userId (some row)) (own ++ [.deletePrekey prekeyId])
  | .popped userId row => .commit (.popped userId row)
  | .statement (.addOneTimePrekeys userId prekeys) =>
      match addOneTimePrekeys view userId prekeys with
      | .ok _ =>
          let rows := Database.numberPrekeys userId view.sequences.oneTimePrekeys prekeys
          .proceed (drawPrekeyIds prekeys.length) (.added rows) (own ++ [.insertPrekeys rows])
      | .error e => .rollback (.raised e)
  | .added _ => .commit .added

def keyProgram : Program Database Point Write Answer := ⟨writeKeys, nextKeys⟩

abbrev KeyWorld := World Database Point Write Answer
abbrev KeySession := Session Point Write Answer

/-- One session for each transaction, none of which has started. -/
def opened (db : Database) (transactions : List Transaction) : KeyWorld :=
  ⟨db, transactions.map fun transaction => .running (.statement transaction) []⟩

def keys (db : Database) (transactions : List Transaction) : System KeyWorld Nat :=
  keyProgram.system (opened db transactions)

/-! ## A session on its own -/

section Alone

variable {db : Database}

theorem pop_alone (c : Constraints db) (userId : UserId) :
    (keys db [.popOneTimePrekey userId]).run [0, 0, 0] =
      ⟨(popOneTimePrekey db userId).1, [.ended (.popped userId (prekeysOf db userId).head?)]⟩ := by
  cases least : (prekeysOf db userId).head? with
  | none =>
      simp [keys, System.run, opened, Program.advance, keyProgram, nextKeys, popOneTimePrekey, least]
  | some row =>
      have stored : row ∈ db.oneTimePrekeys := by
        have listed := List.mem_of_head? least
        rw [prekeysOf_eq c] at listed
        exact List.mem_of_mem_filter listed
      have found := find?_key c.oneTimePrekeys.keys_nodup stored
      simp [keys, System.run, opened, Program.advance, keyProgram, nextKeys, popOneTimePrekey, least,
        found, Program.heldBesides, writeKeys]

/-- The bytes the caller gets are those of the row. -/
theorem pop_alone_returns (userId : UserId) :
    (popOneTimePrekey db userId).2 = ((prekeysOf db userId).head?).map OneTimePreKey.prekeyPub := by
  unfold popOneTimePrekey
  cases (prekeysOf db userId).head? <;> rfl

theorem add_alone {after : Database} {userId : UserId} {prekeys : List Bytes}
    (adds : addOneTimePrekeys db userId prekeys = .ok after) :
    (keys db [.addOneTimePrekeys userId prekeys]).run [0, 0] = ⟨after, [.ended .added]⟩ := by
  obtain ⟨-, rfl⟩ := Database.insertOneTimePrekeys_ok.mp adds
  simp [keys, System.run, opened, Program.advance, keyProgram, nextKeys, adds, writeKeys,
    drawPrekeyIds]

end Alone

/-! ## One step -/

/-- The writes of a session are told by the point it is at. -/
def ownOf : Point → List Write
  | .popped _ (some row) => [.deletePrekey row.id]
  | .added rows => [.insertPrekeys rows]
  | .statement _ | .locking .. | .popped _ none => []

/-- What one step of session `n` can be. -/
inductive KeyStep (W : KeyWorld) (n : Nat) : KeyWorld → Prop where
  | stayed : KeyStep W n W
  | foundNone (userId : UserId)
      (at_ : W.sessions[n]? = some (.running (.statement (.popOneTimePrekey userId)) []))
      (empty : prekeysOf W.committed userId = []) :
      KeyStep W n ⟨W.committed, W.sessions.set n (.running (.popped userId none) [])⟩
  | picked (userId : UserId) (row : OneTimePreKey)
      (at_ : W.sessions[n]? = some (.running (.statement (.popOneTimePrekey userId)) []))
      (least : (prekeysOf W.committed userId).head? = some row) :
      KeyStep W n ⟨W.committed, W.sessions.set n (.running (.locking userId row.id) [])⟩
  | foundGone (userId : UserId) (prekeyId : Int)
      (at_ : W.sessions[n]? = some (.running (.locking userId prekeyId) []))
      (gone : ∀ row ∈ W.committed.oneTimePrekeys, row.id ≠ prekeyId) :
      KeyStep W n ⟨W.committed, W.sessions.set n (.running (.popped userId none) [])⟩
  | locked (userId : UserId) (row : OneTimePreKey)
      (at_ : W.sessions[n]? = some (.running (.locking userId row.id) []))
      (stored : row ∈ W.committed.oneTimePrekeys)
      (free : .deletePrekey row.id ∉ Program.heldBesides W.sessions n) :
      KeyStep W n ⟨W.committed,
        W.sessions.set n (.running (.popped userId (some row)) [.deletePrekey row.id])⟩
  | returnedNone (userId : UserId)
      (at_ : W.sessions[n]? = some (.running (.popped userId none) [])) :
      KeyStep W n ⟨W.committed, W.sessions.set n (.ended (.popped userId none))⟩
  | returned (userId : UserId) (row : OneTimePreKey)
      (at_ : W.sessions[n]? =
        some (.running (.popped userId (some row)) [.deletePrekey row.id])) :
      KeyStep W n ⟨W.committed.deleteOneTimePrekey row.id,
        W.sessions.set n (.ended (.popped userId (some row)))⟩
  | inserted (userId : UserId) (prekeys : List Bytes) (rows : List OneTimePreKey)
      (at_ : W.sessions[n]? = some (.running (.statement (.addOneTimePrekeys userId prekeys)) []))
      (numbered : rows =
        Database.numberPrekeys userId W.committed.sequences.oneTimePrekeys prekeys) :
      KeyStep W n ⟨drawPrekeyIds prekeys.length W.committed,
        W.sessions.set n (.running (.added rows) [.insertPrekeys rows])⟩
  | refused (userId : UserId) (prekeys : List Bytes) (e : Error)
      (at_ : W.sessions[n]? = some (.running (.statement (.addOneTimePrekeys userId prekeys)) [])) :
      KeyStep W n ⟨W.committed, W.sessions.set n (.ended (.raised e))⟩
  | uploaded (rows : List OneTimePreKey)
      (at_ : W.sessions[n]? = some (.running (.added rows) [.insertPrekeys rows])) :
      KeyStep W n
        ⟨{ W.committed with oneTimePrekeys := W.committed.oneTimePrekeys ++ rows },
          W.sessions.set n (.ended .added)⟩

/-- No session has writes its point does not tell. -/
def Fits (W : KeyWorld) : Prop :=
  ∀ (n : Nat) point own, W.sessions[n]? = some (.running point own) → own = ownOf point

variable {W : KeyWorld}

theorem advance_keyStep (fits : Fits W) (n : Nat) : KeyStep W n (keyProgram.advance W n) := by
  cases at_ : W.sessions[n]? with
  | none => simpa only [Program.advance, at_] using .stayed
  | some session =>
      cases session with
      | ended answer => simpa only [Program.advance, at_] using .stayed
      | running point own =>
          have isOwn := fits n point own at_
          subst isOwn
          simp only [Program.advance, at_, keyProgram, nextKeys]
          cases point with
          | statement transaction =>
              cases transaction with
              | popOneTimePrekey userId =>
                  simp only [ownOf, Program.view_nil]
                  cases least : (prekeysOf W.committed userId).head? with
                  | none => exact .foundNone userId at_ (List.head?_eq_none_iff.mp least)
                  | some row => exact .picked userId row at_ least
              | addOneTimePrekeys userId prekeys =>
                  simp only [ownOf, Program.view_nil]
                  cases adds : addOneTimePrekeys W.committed userId prekeys with
                  | ok after => exact .inserted userId prekeys _ at_ rfl
                  | error e => exact .refused userId prekeys e at_
          | locking userId prekeyId =>
              simp only [ownOf, Program.view_nil]
              by_cases held : .deletePrekey prekeyId ∈ Program.heldBesides W.sessions n
              · simpa only [held, if_true] using .stayed
              · simp only [held, if_false]
                cases found : W.committed.oneTimePrekeys.find? fun row =>
                    decide (row.id = prekeyId) with
                | none =>
                    refine .foundGone userId prekeyId at_ fun row stored => ?_
                    simpa using List.find?_eq_none.mp found row stored
                | some row =>
                    have same : row.id = prekeyId := by simpa using List.find?_some found
                    subst same
                    exact .locked userId row at_ (List.mem_of_find?_eq_some found) held
          | popped userId row =>
              cases row with
              | none => exact .returnedNone userId at_
              | some row => exact .returned userId row at_
          | added rows => exact .uploaded rows at_

/-- Every step ends a session or leaves it at a point that tells its writes. -/
theorem KeyStep.fits {W' : KeyWorld} {n : Nat} (step : KeyStep W n W') (fits : Fits W) : Fits W' := by
  intro m point own found
  cases step with
  | stayed => exact fits m point own found
  | foundNone _ at_ | picked _ _ at_ | foundGone _ _ at_ | locked _ _ at_ | returnedNone _ at_
  | returned _ _ at_ | inserted _ _ _ at_ | refused _ _ _ at_ | uploaded _ at_ =>
      rcases (getElem?_replaced at_).mp found with ⟨-, here⟩ | ⟨-, before⟩
      · cases here <;> rfl
      · exact fits m point own before

/-! ## Ids stay apart -/

/-- The ids a session has drawn and not committed, or has handed out. -/
def sessionIds : KeySession → List Int
  | .running (.added rows) _ => rows.map OneTimePreKey.id
  | .ended (.popped _ (some row)) => [row.id]
  | _ => []

/-- The id a session holds the lock of. -/
def lockedIds : KeySession → List Int
  | .running (.popped _ (some row)) _ => [row.id]
  | _ => []

def idsInPlay (W : KeyWorld) : List Int :=
  W.committed.oneTimePrekeys.map OneTimePreKey.id ++ W.sessions.flatMap sessionIds

structure Apart (W : KeyWorld) : Prop where
  ids : (idsInPlay W).Nodup
  drawn : ∀ i ∈ idsInPlay W, i < W.committed.sequences.oneTimePrekeys
  locks : (W.sessions.flatMap lockedIds).Nodup
  stored : ∀ (n : Nat) u row own, W.sessions[n]? = some (.running (.popped u (some row)) own) →
    row ∈ W.committed.oneTimePrekeys

/-- The rule for a step of session `n`: it gains fresh ids, or moves ids between itself and
the table; and it takes a row off the table only under its lock. -/
theorem Apart.replace (a : Apart W) {n : Nat} {s s' : KeySession} {after : Database}
    (gained : List Int) (at_ : W.sessions[n]? = some s)
    (moved : ∀ i, (after.oneTimePrekeys.map OneTimePreKey.id).count i + (sessionIds s').count i =
      (W.committed.oneTimePrekeys.map OneTimePreKey.id).count i + (sessionIds s).count i +
        gained.count i)
    (fresh : gained.Nodup ∧ ∀ i ∈ gained, W.committed.sequences.oneTimePrekeys ≤ i ∧
      i < after.sequences.oneTimePrekeys)
    (forward : W.committed.sequences.oneTimePrekeys ≤ after.sequences.oneTimePrekeys)
    (locks : ∀ i ∈ lockedIds s', lockedIds s' = [i] ∧ i ∉ W.sessions.flatMap lockedIds)
    (kept : ∀ row ∈ W.committed.oneTimePrekeys, row ∈ after.oneTimePrekeys ∨ row.id ∈ lockedIds s)
    (own : ∀ u row own, s' = .running (.popped u (some row)) own → row ∈ after.oneTimePrekeys) :
    Apart ⟨after, W.sessions.set n s'⟩ := by
  have inPlay : (idsInPlay ⟨after, W.sessions.set n s'⟩).Perm (idsInPlay W ++ gained) := by
    rw [List.perm_iff_count]
    intro i
    have replaced := (flatMap_set_perm (g := sessionIds) at_ s').count_eq i
    have here := moved i
    simp only [idsInPlay, List.count_append] at replaced here ⊢
    omega
  have lockSet := flatMap_set_perm (g := lockedIds) at_ s'
  constructor
  case ids =>
    rw [inPlay.nodup_iff, List.nodup_append]
    refine ⟨a.ids, fresh.1, fun i old j new same => ?_⟩
    have below := a.drawn i old
    have above := (fresh.2 j new).1
    omega
  case drawn =>
    intro i listed
    show i < after.sequences.oneTimePrekeys
    rcases List.mem_append.mp (inPlay.mem_iff.mp listed) with old | new
    · have below := a.drawn i old
      omega
    · exact (fresh.2 i new).2
  case locks =>
    have whole : (W.sessions.flatMap lockedIds ++ lockedIds s').Nodup := by
      cases isLocked : lockedIds s' with
      | nil => simpa using a.locks
      | cons i rest =>
          obtain ⟨single, free⟩ := locks i (by simp [isLocked])
          rw [← isLocked, single, List.nodup_append]
          refine ⟨a.locks, List.nodup_singleton i, fun j old k new same => ?_⟩
          rw [same, List.mem_singleton.mp new] at old
          exact free old
    exact (List.nodup_append.mp (lockSet.nodup_iff.mpr whole)).1
  case stored =>
    intro m u row rowOwn found
    rcases (getElem?_replaced at_).mp found with ⟨rfl, here⟩ | ⟨other, before⟩
    · exact own u row rowOwn here.symm
    · rcases kept row (a.stored m u row rowOwn before) with stays | gone
      · exact stays
      · exact absurd (holder_unique a.locks before (List.mem_singleton_self _) at_ gone) other

/-- A lock that no other session holds is free. -/
theorem free_of_held (fits : Fits W) {n : Nat} {s : KeySession} (at_ : W.sessions[n]? = some s)
    (unlocked : lockedIds s = []) {i : Int}
    (free : .deletePrekey i ∉ Program.heldBesides W.sessions n) :
    i ∉ W.sessions.flatMap lockedIds := by
  intro held
  obtain ⟨other, listed, locks⟩ := List.mem_flatMap.mp held
  obtain ⟨m, found⟩ := List.mem_iff_getElem?.mp listed
  match other, locks with
  | .running (.popped u (some row)) own, locks =>
      rw [List.mem_singleton.mp locks] at free
      have isOwn := fits m _ own found
      refine free (Program.mem_heldBesides.mpr ⟨m, _, own, ?_, found, ?_⟩)
      · rintro rfl
        rw [at_] at found
        cases found
        cases unlocked
      · rw [isOwn]
        exact List.mem_singleton_self _

theorem KeyStep.apart {W' : KeyWorld} {n : Nat} (step : KeyStep W n W') (fits : Fits W)
    (a : Apart W) : Apart W' := by
  cases step with
  | stayed => exact a
  | foundNone _ at_ | picked _ _ at_ | foundGone _ _ at_ | returnedNone _ at_ | refused _ _ _ at_ =>
      refine a.replace [] at_ ?_ ⟨List.nodup_nil, by simp⟩ (le_refl _) ?_ ?_ ?_
      · simp [sessionIds]
      · simp [lockedIds]
      · exact fun row stored => Or.inl stored
      · rintro u row own ⟨⟩
  | locked userId row at_ stored free =>
      refine a.replace [] at_ ?_ ⟨List.nodup_nil, by simp⟩ (le_refl _) ?_ ?_ ?_
      · simp [sessionIds]
      · intro i locks
        rw [List.mem_singleton.mp locks]
        exact ⟨rfl, free_of_held fits at_ rfl free⟩
      · exact fun row stored => Or.inl stored
      · rintro u row own ⟨⟩
        exact stored
  | returned userId row at_ =>
      have stored := a.stored n userId row _ at_
      have once := (List.nodup_append.mp a.ids).1
      refine a.replace [] at_ ?_ ⟨List.nodup_nil, by simp⟩ (le_refl _) ?_ ?_ ?_
      · intro i
        have taken := ((delete_perm once stored).map OneTimePreKey.id).count_eq i
        simp only [List.map_cons, List.count_cons] at taken
        simp [sessionIds, Database.deleteOneTimePrekey, List.count_cons] at taken ⊢
        omega
      · simp [lockedIds]
      · intro other otherStored
        by_cases same : other.id = row.id
        · exact Or.inr (List.mem_singleton.mpr same)
        · exact Or.inl (List.mem_filter.mpr ⟨otherStored, decide_eq_true same⟩)
      · rintro u row own ⟨⟩
  | inserted userId prekeys rows at_ numbered =>
      refine a.replace (rows.map OneTimePreKey.id) at_ ?_ ⟨?_, ?_⟩ ?_ ?_ ?_ ?_
      · simp [sessionIds]
      · rw [numbered]
        exact (Database.numberPrekeys_ascending _ _ _).keys_nodup
      · intro i listed
        obtain ⟨row, isNew, rfl⟩ := List.mem_map.mp listed
        rw [numbered] at isNew
        obtain ⟨-, low, high⟩ := Database.mem_numberPrekeys isNew
        exact ⟨low, high⟩
      · simp only [drawPrekeyIds]
        omega
      · simp [lockedIds]
      · exact fun row stored => Or.inl stored
      · rintro u row own ⟨⟩
  | uploaded rows at_ =>
      refine a.replace [] at_ ?_ ⟨List.nodup_nil, by simp⟩ (le_refl _) ?_ ?_ ?_
      · simp [sessionIds]
      · simp [lockedIds]
      · exact fun row stored => Or.inl (List.mem_append_left _ stored)
      · rintro u row own ⟨⟩

/-! ## Every run -/

variable {db : Database} {transactions : List Transaction}

theorem opened_fits (db : Database) (transactions : List Transaction) :
    Fits (opened db transactions) := by
  intro n point own found
  simp only [opened, List.getElem?_map, Option.map_eq_some_iff] at found
  obtain ⟨transaction, -, rfl, rfl⟩ := found
  rfl

theorem opened_apart (c : Constraints db) (transactions : List Transaction) :
    Apart (opened db transactions) := by
  have idle : ∀ s ∈ (opened db transactions).sessions, sessionIds s = [] ∧ lockedIds s = [] := by
    intro s listed
    obtain ⟨transaction, -, rfl⟩ := List.mem_map.mp listed
    exact ⟨rfl, rfl⟩
  have noIds : (opened db transactions).sessions.flatMap sessionIds = [] :=
    List.flatMap_eq_nil_iff.mpr fun s listed => (idle s listed).1
  have noLocks : (opened db transactions).sessions.flatMap lockedIds = [] :=
    List.flatMap_eq_nil_iff.mpr fun s listed => (idle s listed).2
  constructor
  case ids =>
    rw [idsInPlay, noIds, List.append_nil]
    exact c.oneTimePrekeys.keys_nodup
  case drawn =>
    intro i listed
    rw [idsInPlay, noIds, List.append_nil] at listed
    obtain ⟨row, stored, rfl⟩ := List.mem_map.mp listed
    exact c.nextOneTimePrekey row stored
  case locks =>
    rw [noLocks]
    exact List.nodup_nil
  case stored =>
    intro n u row own found
    have isOpen := List.mem_of_getElem? found
    obtain ⟨transaction, -, same⟩ := List.mem_map.mp isOpen
    cases same

theorem run_apart (c : Constraints db) (schedule : List Nat) :
    Fits ((keys db transactions).run schedule) ∧ Apart ((keys db transactions).run schedule) := by
  refine (keys db transactions).invariant (P := fun W => Fits W ∧ Apart W)
    ⟨opened_fits db transactions, opened_apart c transactions⟩ ?_ schedule
  intro W n ⟨fits, apart⟩
  have step := advance_keyStep fits n
  exact ⟨step.fits fits, step.apart fits apart⟩

theorem run_keyStep (schedule : List Nat) (n : Nat) (c : Constraints db) :
    KeyStep ((keys db transactions).run schedule) n
      ((keys db transactions).run (schedule ++ [n])) := by
  rw [System.run_snoc]
  exact advance_keyStep (run_apart c schedule).1 n

/-- Every step of every run has the facts of the state before it at hand. -/
theorem run_stays (c : Constraints db) {P : KeyWorld → Prop}
    (kept : ∀ W n W', KeyStep W n W' → Fits W → Apart W → P W → P W') {earlier schedule : List Nat}
    (before : earlier <+: schedule) (then_ : P ((keys db transactions).run earlier)) :
    P ((keys db transactions).run schedule) := by
  have both := (keys db transactions).stays (P := fun W => (Fits W ∧ Apart W) ∧ P W) ?_ before
    ⟨run_apart c earlier, then_⟩
  · exact both.2
  · intro W n ⟨⟨fits, apart⟩, now⟩
    have step := advance_keyStep fits n
    exact ⟨⟨step.fits fits, step.apart fits apart⟩, kept W n _ step fits apart now⟩

/-! ## Whose pop, whose prekey -/

/-- The user whose prekey the session pops. -/
def popper : KeySession → Option UserId
  | .running (.statement (.popOneTimePrekey userId)) _ => some userId
  | .running (.locking userId _) _ | .running (.popped userId _) _ => some userId
  | .ended (.popped userId _) => some userId
  | _ => none

/-- The id an open pop has picked. -/
def picks : KeySession → Option Int
  | .running (.locking _ prekeyId) _ => some prekeyId
  | .running (.popped _ (some row)) _ => some row.id
  | _ => none

/-- The row a pop has returned. -/
def returns : KeySession → Option OneTimePreKey
  | .ended (.popped _ row) => row
  | _ => none

/-- What a pop picks, locks and returns is a prekey of its user; what it has picked is
stored or has been returned by somebody. -/
structure Owned (W : KeyWorld) : Prop where
  picked : ∀ (n : Nat) u i own, W.sessions[n]? = some (.running (.locking u i) own) →
    ∃ row : OneTimePreKey, row.id = i ∧ row.userId = u ∧
      (row ∈ W.committed.oneTimePrekeys ∨ some row ∈ W.sessions.map returns)
  locked : ∀ (n : Nat) u row own, W.sessions[n]? = some (.running (.popped u (some row)) own) →
    row.userId = u
  returned : ∀ (n : Nat) u row, W.sessions[n]? = some (.ended (.popped u (some row))) →
    row.userId = u

/-- A returned prekey is off the table. -/
theorem Apart.returned_gone (a : Apart W) {row : OneTimePreKey}
    (isReturned : some row ∈ W.sessions.map returns) :
    ∀ other ∈ W.committed.oneTimePrekeys, other.id ≠ row.id := by
  intro other stored same
  obtain ⟨session, listed, isRow⟩ := List.mem_map.mp isReturned
  have held : row.id ∈ W.sessions.flatMap sessionIds := by
    refine List.mem_flatMap.mpr ⟨session, listed, ?_⟩
    match session, isRow with
    | .ended (.popped _ (some r)), isRow =>
        cases isRow
        exact List.mem_singleton_self _
  have once := List.nodup_append.mp a.ids
  exact once.2.2 _ (List.mem_map_of_mem stored) _ held same

theorem Apart.stored_unique (a : Apart W) {row other : OneTimePreKey}
    (stored : row ∈ W.committed.oneTimePrekeys) (otherStored : other ∈ W.committed.oneTimePrekeys)
    (same : other.id = row.id) : other = row :=
  List.inj_on_of_nodup_map (List.nodup_append.mp a.ids).1 otherStored stored same

/-- A stored row that a pop has picked belongs to the pop's user. -/
theorem Owned.owner (o : Owned W) (a : Apart W) {n : Nat} {s : KeySession} {u : UserId}
    {row : OneTimePreKey} (at_ : W.sessions[n]? = some s) (pops : popper s = some u)
    (picked : picks s = some row.id) (stored : row ∈ W.committed.oneTimePrekeys) :
    row.userId = u := by
  match s, pops, picked with
  | .running (.locking v i) own, pops, picked =>
      cases pops
      cases picked
      obtain ⟨chosen, sameId, owner, here | gone⟩ := o.picked n _ _ own at_
      · rw [← a.stored_unique stored here sameId]
        exact owner
      · exact absurd sameId.symm (a.returned_gone gone row stored)
  | .running (.popped v (some chosen)) own, pops, picked =>
      cases pops
      rw [← a.stored_unique stored (a.stored n _ _ own at_) (Option.some.inj picked)]
      exact o.locked n _ _ own at_

theorem Owned.replace (o : Owned W) {n : Nat} {point : Point} {own : List Write} {s' : KeySession}
    {after : Database} (at_ : W.sessions[n]? = some (.running point own))
    (kept : ∀ row ∈ W.committed.oneTimePrekeys,
      row ∈ after.oneTimePrekeys ∨ returns s' = some row)
    (picked : ∀ u i own, s' = .running (.locking u i) own →
      ∃ row ∈ after.oneTimePrekeys, row.id = i ∧ row.userId = u)
    (locked : ∀ u row own, s' = .running (.popped u (some row)) own → row.userId = u)
    (returned : ∀ u row, s' = .ended (.popped u (some row)) → row.userId = u) :
    Owned ⟨after, W.sessions.set n s'⟩ := by
  obtain ⟨before, later, isOld, isNew⟩ := set_split at_ s'
  have returnsNew : ∀ r, returns s' = some r → some r ∈ (W.sessions.set n s').map returns := by
    intro r isRow
    simp [isNew, isRow]
  have returnsOld : ∀ r, some r ∈ W.sessions.map returns → some r ∈ (W.sessions.set n s').map returns := by
    intro r listed
    rw [isOld] at listed
    simp only [List.map_append, List.map_cons, List.mem_append, List.mem_cons] at listed
    simp only [isNew, List.map_append, List.map_cons, List.mem_append, List.mem_cons]
    rcases listed with early | here | late
    · exact Or.inl early
    · cases here
    · exact Or.inr (Or.inr late)
  constructor
  case picked =>
    intro m u i lockOwn found
    rcases (getElem?_replaced at_).mp found with ⟨-, here⟩ | ⟨-, there⟩
    · obtain ⟨row, stored, facts⟩ := picked u i lockOwn here.symm
      exact ⟨row, facts.1, facts.2, Or.inl stored⟩
    · obtain ⟨row, sameId, owner, stored | gone⟩ := o.picked m u i lockOwn there
      · rcases kept row stored with stays | taken
        · exact ⟨row, sameId, owner, Or.inl stays⟩
        · exact ⟨row, sameId, owner, Or.inr (returnsNew row taken)⟩
      · exact ⟨row, sameId, owner, Or.inr (returnsOld row gone)⟩
  case locked =>
    intro m u row lockOwn found
    rcases (getElem?_replaced at_).mp found with ⟨-, here⟩ | ⟨-, there⟩
    · exact locked u row lockOwn here.symm
    · exact o.locked m u row lockOwn there
  case returned =>
    intro m u row found
    rcases (getElem?_replaced at_).mp found with ⟨-, here⟩ | ⟨-, there⟩
    · exact returned u row here.symm
    · exact o.returned m u row there

/-- The least prekey of a user is stored and the user's. -/
theorem least_owned {db : Database} {u : UserId} {row : OneTimePreKey}
    (least : (prekeysOf db u).head? = some row) : row ∈ db.oneTimePrekeys ∧ row.userId = u := by
  have listed := List.mem_of_head? least
  simpa [prekeysOf] using listed

theorem KeyStep.owned {W' : KeyWorld} {n : Nat} (step : KeyStep W n W') (a : Apart W)
    (o : Owned W) : Owned W' := by
  cases step with
  | stayed => exact o
  | foundNone _ at_ | foundGone _ _ at_ | returnedNone _ at_ | refused _ _ _ at_
  | inserted _ _ _ at_ =>
      refine o.replace at_ ?_ ?_ ?_ ?_
      · exact fun row stored => Or.inl stored
      · rintro u i own ⟨⟩
      · rintro u row own ⟨⟩
      · rintro u row ⟨⟩
  | picked userId row at_ least =>
      apply o.replace at_ (fun row stored => Or.inl stored)
      · rintro u i own ⟨⟩
        exact ⟨row, (least_owned least).1, rfl, (least_owned least).2⟩
      · rintro u row own ⟨⟩
      · rintro u row ⟨⟩
  | locked userId row at_ stored =>
      apply o.replace at_ (fun row stored => Or.inl stored)
      · rintro u i own ⟨⟩
      · rintro u r own ⟨⟩
        exact o.owner a at_ rfl rfl stored
      · rintro u row ⟨⟩
  | returned userId row at_ =>
      refine o.replace at_ ?_ ?_ ?_ ?_
      · intro other stored
        by_cases same : other.id = row.id
        · rw [a.stored_unique (a.stored n _ _ _ at_) stored same]
          exact Or.inr rfl
        · exact Or.inl (List.mem_filter.mpr ⟨stored, decide_eq_true same⟩)
      · rintro u i own ⟨⟩
      · rintro u row own ⟨⟩
      · rintro u r ⟨⟩
        exact o.locked n _ _ _ at_
  | uploaded rows at_ =>
      apply o.replace at_ (fun row stored => Or.inl (List.mem_append_left _ stored))
      · rintro u i own ⟨⟩
      · rintro u row own ⟨⟩
      · rintro u row ⟨⟩

theorem run_owned (c : Constraints db) (schedule : List Nat) :
    Owned ((keys db transactions).run schedule) := by
  refine run_stays c (P := Owned) (fun W n W' step _ a o => step.owned a o) List.nil_prefix ?_
  constructor
  all_goals
    intros
    rename_i found
    simp [keys, System.run, opened] at found

/-- A session pops for the same user all along. -/
theorem KeyStep.sameUsers {W' : KeyWorld} {n : Nat} (step : KeyStep W n W') :
    W'.sessions.map popper = W.sessions.map popper := by
  cases step with
  | stayed => rfl
  | foundNone _ at_ | picked _ _ at_ | foundGone _ _ at_ | locked _ _ at_ | returnedNone _ at_
  | returned _ _ at_ | inserted _ _ _ at_ | refused _ _ _ at_ | uploaded _ at_ =>
      exact map_set at_ rfl

def Transaction.popper : Transaction → Option UserId
  | .popOneTimePrekey userId => some userId
  | .addOneTimePrekeys .. => none

theorem run_popper (c : Constraints db) (schedule : List Nat) :
    ((keys db transactions).run schedule).sessions.map popper =
      transactions.map Transaction.popper := by
  refine run_stays c (P := fun W => W.sessions.map popper = transactions.map Transaction.popper)
    (fun W n W' step _ _ same => step.sameUsers.trans same) List.nil_prefix ?_
  simp only [keys, System.run, opened, List.foldl_nil, Program.system_init, List.map_map]
  apply List.map_congr_left
  intro transaction _
  cases transaction <;> rfl

/-! ## When every pop comes back with a prekey -/

variable (db transactions)

/-- If session `n` is about to start a pop for `u`: no open session has picked the prekey
it will pick. -/
def FindsFree (u : UserId) (earlier : List Nat) (n : Nat) : Prop :=
  ∀ own row, ((keys db transactions).run earlier).sessions[n]? =
      some (.running (.statement (.popOneTimePrekey u)) own) →
    (prekeysOf ((keys db transactions).run earlier).committed u).head? = some row →
    ∀ other ∈ ((keys db transactions).run earlier).sessions, picks other ≠ some row.id

variable {db transactions}

/-- No two sessions have returned the same prekey. -/
def NoneTwice (W : KeyWorld) : Prop :=
  ∀ (n m : Nat) u v row row', W.sessions[n]? = some (.ended (.popped u (some row))) →
    W.sessions[m]? = some (.ended (.popped v (some row'))) → row.id = row'.id → n = m

/-- Every pop for `u` has returned one of the user's prekeys. -/
def EachReturns (transactions : List Transaction) (u : UserId) (W : KeyWorld) : Prop :=
  ∀ n : Nat, transactions[n]? = some (.popOneTimePrekey u) →
    ∃ row, W.sessions[n]? = some (.ended (.popped u (some row))) ∧ row.userId = u

theorem Apart.noneTwice (a : Apart W) : NoneTwice W := by
  intro n m u v row row' at_ otherAt same
  have once := (List.nodup_append.mp a.ids).2.1
  refine holder_unique once at_ (List.mem_singleton_self row.id) otherAt ?_
  rw [same]
  exact List.mem_singleton_self _

/-! ### A shared pick leaves somebody empty-handed -/

/-- The session goes after prekey `i`, or has come back without any. -/
def Chases (i : Int) : KeySession → Prop
  | .running (.locking _ j) _ => j = i
  | .running (.popped _ row) _ | .ended (.popped _ row) => ∀ r ∈ row, r.id = i
  | _ => False

theorem chases_of_picks {i : Int} {s : KeySession} (picked : picks s = some i) : Chases i s := by
  match s, picked with
  | .running (.locking _ _) _, picked => exact Option.some.inj picked
  | .running (.popped _ (some row)) _, picked =>
      rintro r ⟨⟩
      exact Option.some.inj picked

theorem KeyStep.chases {W' : KeyWorld} {n m : Nat} {i : Int} (step : KeyStep W n W')
    (chasing : ∃ s, W.sessions[m]? = some s ∧ Chases i s) :
    ∃ s, W'.sessions[m]? = some s ∧ Chases i s := by
  obtain ⟨s, found, goesAfter⟩ := chasing
  -- another session's step leaves this one; its own follows the cases of `Chases`
  have other : ∀ {t t' : KeySession}, W.sessions[n]? = some t → (Chases i t → Chases i t') →
      ∃ s, (W.sessions.set n t')[m]? = some s ∧ Chases i s := by
    intro t t' at_ goesOn
    by_cases same : m = n
    · subst same
      rw [at_] at found
      cases found
      exact ⟨t', (getElem?_replaced at_).mpr (Or.inl ⟨rfl, rfl⟩), goesOn goesAfter⟩
    · exact ⟨s, (getElem?_replaced at_).mpr (Or.inr ⟨same, found⟩), goesAfter⟩
  cases step with
  | stayed => exact ⟨s, found, goesAfter⟩
  | foundNone _ at_ => exact other at_ False.elim
  | picked _ _ at_ => exact other at_ False.elim
  | foundGone _ _ at_ => exact other at_ (fun _ r isRow => nomatch isRow)
  | locked _ row at_ =>
      refine other at_ fun same r isRow => ?_
      cases isRow
      exact same
  | returnedNone _ at_ => exact other at_ id
  | returned _ _ at_ => exact other at_ id
  | inserted _ _ _ at_ => exact other at_ False.elim
  | refused _ _ _ at_ => exact other at_ False.elim
  | uploaded _ at_ => exact other at_ False.elim

theorem popper_of_picks {s : KeySession} {i : Int} (picked : picks s = some i) :
    ∃ u, popper s = some u := by
  match s, picked with
  | .running (.locking u _) _, _ => exact ⟨u, rfl⟩
  | .running (.popped u (some _)) _, _ => exact ⟨u, rfl⟩

/-- The transaction behind a session that pops. -/
theorem transaction_of_popper (c : Constraints db) {schedule : List Nat} {n : Nat} {s : KeySession}
    {u : UserId} (at_ : ((keys db transactions).run schedule).sessions[n]? = some s)
    (pops : popper s = some u) : transactions[n]? = some (.popOneTimePrekey u) := by
  have same := congrArg (fun l => l[n]?) (@run_popper db transactions c schedule)
  simp only [List.getElem?_map, at_, Option.map_some, pops] at same
  obtain ⟨transaction, isIt, popsSame⟩ := Option.map_eq_some_iff.mp same.symm
  rw [isIt]
  cases transaction with
  | popOneTimePrekey v =>
      cases popsSame
      rfl
  | addOneTimePrekeys v prekeys => cases popsSame

theorem advance_picked (fits : Fits W) {n : Nat} {u : UserId} {own : List Write}
    {row : OneTimePreKey}
    (at_ : W.sessions[n]? = some (.running (.statement (.popOneTimePrekey u)) own))
    (least : (prekeysOf W.committed u).head? = some row) :
    (keyProgram.advance W n).sessions[n]? = some (.running (.locking u row.id) []) := by
  have isOwn := fits n _ own at_
  subst isOwn
  simp only [Program.advance, at_, keyProgram, nextKeys, ownOf, Program.view_nil, least]
  exact (getElem?_replaced at_).mpr (Or.inl ⟨rfl, rfl⟩)

theorem findsFree_of_returns (c : Constraints db) {u : UserId} {schedule : List Nat}
    (each : EachReturns transactions u ((keys db transactions).run schedule)) :
    EachStep (FindsFree db transactions u) schedule := by
  intro earlier n within own row at_ least other listed picked
  have before : earlier <+: schedule := (List.prefix_append _ _).trans within
  have apart := (@run_apart db transactions c earlier).2
  obtain ⟨stored, owned⟩ := least_owned least
  obtain ⟨m, otherAt⟩ := List.mem_iff_getElem?.mp listed
  obtain ⟨v, pops⟩ := popper_of_picks picked
  -- the other pop is one of the same user
  have sameUser := (run_owned c earlier).owner apart otherAt pops picked stored
  rw [owned] at sameUser
  subst sameUser
  have isNow : ((keys db transactions).run (earlier ++ [n])).sessions[n]? =
      some (.running (.locking u row.id) []) := by
    rw [System.run_snoc]
    exact advance_picked (run_apart c earlier).1 at_ least
  have chased : ∀ {k : Nat} {start : List Nat}, start <+: schedule →
      (∃ s, ((keys db transactions).run start).sessions[k]? = some s ∧ Chases row.id s) →
      ∃ s, ((keys db transactions).run schedule).sessions[k]? = some s ∧ Chases row.id s :=
    fun {k _} => run_stays c (P := fun W => ∃ s, W.sessions[k]? = some s ∧ Chases row.id s)
      (fun W n W' step _ _ now => step.chases now)
  obtain ⟨last, lastAt, lastChases⟩ := chased within ⟨_, isNow, rfl⟩
  obtain ⟨last', lastAt', lastChases'⟩ := chased before ⟨_, otherAt, chases_of_picks picked⟩
  obtain ⟨r, returned, -⟩ := each n (transaction_of_popper c at_ rfl)
  obtain ⟨r', returned', -⟩ := each m (transaction_of_popper c otherAt pops)
  cases lastAt.symm.trans returned
  cases lastAt'.symm.trans returned'
  have same : r.id = r'.id := (lastChases r rfl).trans (lastChases' r' rfl).symm
  have isOne := (run_apart c schedule).2.noneTwice n m u u r r' returned returned' same
  subst isOne
  cases at_.symm.trans otherAt
  cases picked

/-! ### Picks that are apart all come through -/

def emptyHanded (u : UserId) : KeySession → Prop
  | .running (.popped v none) _ | .ended (.popped v none) => v = u
  | _ => False

/-- Whether the session has returned a prekey to a caller of `u`'s bundle. -/
def handsOut (u : UserId) : KeySession → Bool
  | .ended (.popped v (some _)) => v = u
  | _ => false

structure Smooth (enough : Nat) (u : UserId) (W : KeyWorld) : Prop where
  apart : ∀ (n m : Nat) s s' i, W.sessions[n]? = some s → W.sessions[m]? = some s' →
    popper s = some u → popper s' = some u → picks s = some i → picks s' = some i → n = m
  there : ∀ (n : Nat) i own, W.sessions[n]? = some (.running (.locking u i) own) →
    ∃ row ∈ W.committed.oneTimePrekeys, row.id = i
  served : ∀ s ∈ W.sessions, ¬ emptyHanded u s
  plenty : enough ≤ (prekeysOf W.committed u).length + W.sessions.countP (handsOut u)

/-- The rule for a step of session `n`. -/
theorem Smooth.replace {enough : Nat} {u : UserId} (f : Smooth enough u W) {n : Nat}
    {s s' : KeySession} {after : Database} (at_ : W.sessions[n]? = some s)
    (same : popper s' = popper s)
    (picked : ∀ i, picks s' = some i → popper s = some u → picks s = some i ∨
      ∀ other ∈ W.sessions, picks other ≠ some i)
    (kept : ∀ (m : Nat) row, m ≠ n → row ∈ W.committed.oneTimePrekeys → row ∉ after.oneTimePrekeys →
      ∀ own, W.sessions[m]? ≠ some (.running (.locking u row.id) own))
    (there : ∀ i own, s' = .running (.locking u i) own → ∃ row ∈ after.oneTimePrekeys, row.id = i)
    (served : ¬ emptyHanded u s')
    (plenty : (prekeysOf W.committed u).length + (if handsOut u s then 1 else 0) ≤
      (prekeysOf after u).length + (if handsOut u s' then 1 else 0)) :
    Smooth enough u ⟨after, W.sessions.set n s'⟩ := by
  constructor
  case apart =>
    intro m k t t' i found found' pops pops' picksT picksT'
    rcases (getElem?_replaced at_).mp found with ⟨rfl, rfl⟩ | ⟨other, before⟩
    · rcases (getElem?_replaced at_).mp found' with ⟨rfl, rfl⟩ | ⟨-, before'⟩
      · rfl
      · rcases picked i picksT (same ▸ pops) with old | free
        · exact f.apart m k s t' i at_ before' (same ▸ pops) pops' old picksT'
        · exact absurd picksT' (free t' (List.mem_of_getElem? before'))
    · rcases (getElem?_replaced at_).mp found' with ⟨rfl, rfl⟩ | ⟨-, before'⟩
      · rcases picked i picksT' (same ▸ pops') with old | free
        · exact f.apart m k t s i before at_ pops (same ▸ pops') picksT old
        · exact absurd picksT (free t (List.mem_of_getElem? before))
      · exact f.apart m k t t' i before before' pops pops' picksT picksT'
  case there =>
    intro m i own found
    rcases (getElem?_replaced at_).mp found with ⟨-, here⟩ | ⟨other, before⟩
    · exact there i own here.symm
    · obtain ⟨row, stored, rfl⟩ := f.there m i own before
      by_cases stays : row ∈ after.oneTimePrekeys
      · exact ⟨row, stays, rfl⟩
      · exact absurd before (kept m row other stored stays own)
  case served =>
    intro t listed
    obtain ⟨m, found⟩ := List.mem_iff_getElem?.mp listed
    rcases (getElem?_replaced at_).mp found with ⟨-, rfl⟩ | ⟨-, before⟩
    · exact served
    · exact f.served t (List.mem_of_getElem? before)
  case plenty =>
    obtain ⟨inside, isS⟩ := List.getElem?_eq_some_iff.mp at_
    have counted := List.countP_set (p := handsOut u) (a := s') inside
    have atMost : (if handsOut u W.sessions[n] = true then 1 else 0) ≤
        W.sessions.countP (handsOut u) := by
      by_cases hands : handsOut u W.sessions[n] = true
      · simp only [hands, if_true]
        exact List.countP_pos_iff.mpr ⟨_, List.getElem_mem inside, hands⟩
      · simp [hands]
    have before := f.plenty
    rw [isS] at counted atMost
    dsimp only
    omega

theorem popper_of_handsOut {u : UserId} {s : KeySession} (hands : handsOut u s = true) :
    popper s = some u := by
  match s, hands with
  | .ended (.popped v (some _)), hands => exact congrArg some (of_decide_eq_true hands)

/-- While a pop for `u` has not returned, fewer prekeys were handed out than there are
pops. -/
theorem handed_lt {u : UserId} {n : Nat} {s : KeySession} (at_ : W.sessions[n]? = some s)
    (pops : popper s = some u) (keeps : handsOut u s = false) :
    W.sessions.countP (handsOut u) < W.sessions.countP fun t => popper t = some u := by
  obtain ⟨before, later, isOld, -⟩ := set_split at_ s
  have upTo : ∀ l : List KeySession,
      l.countP (handsOut u) ≤ l.countP fun t => popper t = some u := fun l =>
    List.countP_mono_left fun t _ hands => decide_eq_true (popper_of_handsOut hands)
  have early := upTo before
  have late := upTo later
  simp only [isOld, List.countP_append, List.countP_cons, pops, keeps, decide_true, if_true,
    Bool.false_eq_true, if_false]
  omega

theorem length_prekeysOf (db : Database) (u : UserId) :
    (prekeysOf db u).length = db.oneTimePrekeys.countP fun row => row.userId = u := by
  simp [prekeysOf, orderBy, List.countP_eq_length_filter]

theorem KeyStep.smooth {W' : KeyWorld} {n : Nat} {enough : Nat} {u : UserId}
    (step : KeyStep W n W') (a : Apart W) (o : Owned W)
    (few : (W.sessions.countP fun t => popper t = some u) ≤ enough)
    (free : ∀ own row, W.sessions[n]? = some (.running (.statement (.popOneTimePrekey u)) own) →
      (prekeysOf W.committed u).head? = some row → ∀ other ∈ W.sessions, picks other ≠ some row.id)
    (f : Smooth enough u W) : Smooth enough u W' := by
  -- the table has not lost a row
  have whole : ∀ {after : Database}, (∀ row ∈ W.committed.oneTimePrekeys, row ∈ after.oneTimePrekeys) →
      ∀ (m : Nat) row, m ≠ n → row ∈ W.committed.oneTimePrekeys → row ∉ after.oneTimePrekeys →
        ∀ own, W.sessions[m]? ≠ some (.running (.locking u row.id) own) :=
    fun kept _ row _ stored gone => absurd (kept row stored) gone
  cases step with
  | stayed => exact f
  | foundNone v at_ empty =>
      refine f.replace at_ rfl (by rintro i ⟨⟩) (whole fun _ stored => stored) ?_ ?_ ?_
      · rintro i own ⟨⟩
      · rintro rfl
        have left := f.plenty
        have handed := handed_lt at_ rfl rfl
        rw [empty, List.length_nil] at left
        omega
      · simp [handsOut]
  | picked v row at_ least =>
      refine f.replace at_ rfl ?_ (whole fun _ stored => stored) ?_ id ?_
      · rintro i ⟨⟩ ⟨⟩
        exact Or.inr (free _ row at_ least)
      · rintro i own ⟨⟩
        exact ⟨row, (least_owned least).1, rfl⟩
      · simp [handsOut]
  | foundGone v i at_ gone =>
      refine f.replace at_ rfl (by rintro i ⟨⟩) (whole fun _ stored => stored) ?_ ?_ ?_
      · rintro i own ⟨⟩
      · rintro rfl
        obtain ⟨row, stored, same⟩ := f.there n i _ at_
        exact gone row stored same
      · simp [handsOut]
  | locked v row at_ stored =>
      refine f.replace at_ rfl (fun i picked _ => Or.inl picked) (whole fun _ stored => stored) ?_ id ?_
      · rintro i own ⟨⟩
      · simp [handsOut]
  | returnedNone v at_ =>
      refine f.replace at_ rfl (by rintro i ⟨⟩) (whole fun _ stored => stored) ?_ ?_ ?_
      · rintro i own ⟨⟩
      · exact fun empty => f.served _ (List.mem_of_getElem? at_) empty
      · simp [handsOut]
  | returned v row at_ =>
      have stored := a.stored n v row _ at_
      have off := delete_perm (List.nodup_append.mp a.ids).1 stored
      refine f.replace at_ rfl (by rintro i ⟨⟩) ?_ ?_ id ?_
      · intro m other different otherStored gone own otherAt
        have sameId : other.id = row.id := by
          by_contra apart
          exact gone (List.mem_filter.mpr ⟨otherStored, decide_eq_true apart⟩)
        have owner := o.owner a otherAt rfl rfl otherStored
        rw [a.stored_unique stored otherStored sameId, o.locked n v row _ at_] at owner
        subst owner
        exact different (f.apart m n _ _ row.id otherAt at_ rfl rfl (congrArg some sameId) rfl)
      · rintro i own ⟨⟩
      · have counted := off.countP_eq fun r => decide (r.userId = u)
        rw [List.countP_cons] at counted
        simp only [length_prekeysOf, Database.deleteOneTimePrekey, handsOut,
          o.locked n v row _ at_] at counted ⊢
        by_cases mine : v = u
        · simp only [mine, decide_true, if_true, Bool.false_eq_true, if_false] at counted ⊢
          omega
        · simp only [mine, decide_false, Bool.false_eq_true, if_false] at counted ⊢
          omega
  | inserted v prekeys rows at_ =>
      refine f.replace at_ rfl (by rintro i ⟨⟩) (whole fun _ stored => stored) ?_ id ?_
      · rintro i own ⟨⟩
      · simp [handsOut, prekeysOf]
  | refused v prekeys e at_ =>
      refine f.replace at_ rfl (by rintro i ⟨⟩) (whole fun _ stored => stored) ?_ id ?_
      · rintro i own ⟨⟩
      · simp [handsOut]
  | uploaded rows at_ =>
      refine f.replace at_ rfl (by rintro i ⟨⟩)
        (whole fun _ stored => List.mem_append_left _ stored) ?_ id ?_
      · rintro i own ⟨⟩
      · simp [handsOut, length_prekeysOf]

theorem pops_counted (c : Constraints db) (u : UserId) (schedule : List Nat) :
    (((keys db transactions).run schedule).sessions.countP fun t => popper t = some u) =
      transactions.count (.popOneTimePrekey u) := by
  have same := congrArg (List.countP fun p => decide (p = some u))
    (@run_popper db transactions c schedule)
  simp only [List.countP_map, Function.comp_def] at same
  rw [same, List.count]
  apply List.countP_congr
  intro transaction _
  cases transaction <;> simp [Transaction.popper]

theorem run_smooth (c : Constraints db) {u : UserId}
    (enough : transactions.count (.popOneTimePrekey u) ≤ countOneTimePrekeys db u)
    {schedule : List Nat} (free : EachStep (FindsFree db transactions u) schedule) :
    Smooth (transactions.count (.popOneTimePrekey u)) u ((keys db transactions).run schedule) := by
  induction schedule using List.reverseRecOn with
  | nil =>
      constructor
      case apart =>
        intro n m s s' i found _ _ _ picked
        simp only [keys, System.run, opened, List.foldl_nil, Program.system_init,
          List.getElem?_map, Option.map_eq_some_iff] at found
        obtain ⟨transaction, -, rfl⟩ := found
        cases picked
      case there =>
        intro n i own found
        simp [keys, System.run, opened] at found
      case served =>
        intro s listed empty
        obtain ⟨transaction, -, rfl⟩ := List.mem_map.mp listed
        exact empty
      case plenty =>
        have counted : (prekeysOf db u).length = countOneTimePrekeys db u := by
          rw [← length_queued, queued, List.length_map]
        show _ ≤ (prekeysOf db u).length + _
        omega
  | append_singleton schedule n ih =>
      obtain ⟨before, here⟩ := (eachStep_snoc _ schedule n).mp free
      have step := @run_keyStep db transactions schedule n c
      exact step.smooth (run_apart c schedule).2 (run_owned c schedule)
        (le_of_eq (pops_counted c u schedule)) here (ih before)

/-- **When every pop returns a prekey**: in a run to completion with as many prekeys as pops for
`u`, no prekey is returned twice and every pop returns one iff no pop for `u` starts while
the prekey it picks is picked by a pop that has not committed. -/
theorem pops_return_iff (c : Constraints db) (u : UserId)
    (enough : transactions.count (.popOneTimePrekey u) ≤ countOneTimePrekeys db u)
    (schedule : List Nat)
    (complete : ∀ s ∈ ((keys db transactions).run schedule).sessions, s.hasEnded = true) :
    (NoneTwice ((keys db transactions).run schedule) ∧
        EachReturns transactions u ((keys db transactions).run schedule)) ↔
      EachStep (FindsFree db transactions u) schedule := by
  constructor
  · exact fun ⟨_, each⟩ => findsFree_of_returns c each
  · intro free
    refine ⟨(run_apart c schedule).2.noneTwice, fun n isPop => ?_⟩
    have smooth := run_smooth c enough free
    have same := congrArg (fun l => l[n]?) (@run_popper db transactions c schedule)
    simp only [List.getElem?_map, isPop, Option.map_some, Transaction.popper] at same
    obtain ⟨s, at_, pops⟩ := Option.map_eq_some_iff.mp same
    have listed := List.mem_of_getElem? at_
    have isEnded := complete s listed
    have notEmpty := smooth.served s listed
    match s, pops, isEnded with
    | .ended (.popped v (some row)), pops, _ =>
        cases pops
        exact ⟨row, at_, (run_owned c schedule).returned n _ row at_⟩
    | .ended (.popped v none), pops, _ =>
        cases pops
        exact absurd rfl notEmpty

/-- A user with two prekeys. -/
def twoPrekeys : Database :=
  service.run [.createUser "ada" "5a" [1] [2], .addOneTimePrekeys 1 [[21], [22]]]

/-- Two pops, one after the other, beside an upload. -/
def popsApart : List Transaction :=
  [.popOneTimePrekey 1, .addOneTimePrekeys 1 [[23]], .popOneTimePrekey 1]

theorem pops_return_iff_apart :
    (NoneTwice ((keys twoPrekeys popsApart).run [0, 1, 0, 0, 1, 2, 2, 2]) ∧
        EachReturns popsApart 1 ((keys twoPrekeys popsApart).run [0, 1, 0, 0, 1, 2, 2, 2])) ↔
      EachStep (FindsFree twoPrekeys popsApart 1) [0, 1, 0, 0, 1, 2, 2, 2] :=
  pops_return_iff (reachable _).constraints 1 (by decide) _ (by decide)

/-- Both pops pick the first prekey; one gets it, the other nothing, and the second prekey
stays on the table. -/
theorem pop_comes_back_empty :
    [Transaction.popOneTimePrekey 1, .popOneTimePrekey 1].count (.popOneTimePrekey 1) ≤
        countOneTimePrekeys twoPrekeys 1 ∧
      (keys twoPrekeys [.popOneTimePrekey 1, .popOneTimePrekey 1]).run [0, 1, 0, 1, 0, 1, 1] =
        ⟨twoPrekeys.deleteOneTimePrekey 1,
          [.ended (.popped 1 (some ⟨1, 1, [21]⟩)), .ended (.popped 1 none)]⟩ ∧
      ¬ EachReturns [.popOneTimePrekey 1, .popOneTimePrekey 1] 1
        ((keys twoPrekeys [.popOneTimePrekey 1, .popOneTimePrekey 1]).run [0, 1, 0, 1, 0, 1, 1]) := by
  have isRun : (keys twoPrekeys [.popOneTimePrekey 1, .popOneTimePrekey 1]).run
      [0, 1, 0, 1, 0, 1, 1] = ⟨twoPrekeys.deleteOneTimePrekey 1,
        [.ended (.popped 1 (some ⟨1, 1, [21]⟩)), .ended (.popped 1 none)]⟩ := by decide
  refine ⟨by decide, isRun, fun each => ?_⟩
  obtain ⟨row, returned, -⟩ := each 1 rfl
  rw [isRun] at returned
  cases returned

end SecureMsg.Keys
