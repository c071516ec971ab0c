/-
# Theory.Rows — tables as lists of rows

A table is the list of its rows in insertion order.  `DELETE` is `List.filter`,
`UPDATE` is `List.map` and `INSERT` appends, so most facts are Mathlib's; this
module has the few that are about tables:

* `Ascending key table` — a table whose rows were appended under a growing key
  (a serial primary key).  Deleting, updating other columns and appending a
  fresh key keep it; an ascending table is determined by its members
  (`Ascending.ext`) and is already in `ORDER BY key` order
  (`Ascending.orderBy_eq`);
* `insertRows` — an `INSERT` of a batch under foreign keys and a uniqueness key:
  every row goes in or none does;
* `joinOn` — an inner join, with SQL's multiplicities;
* `filterMap_set`, `position_unique` — a column of a table whose rows are
  replaced by position.
-/
import Mathlib.Data.List.Sort
import Mathlib.Data.List.Nodup
import Mathlib.Data.List.Basic

namespace SecureMsg.Theory

set_option autoImplicit false

universe u v w

variable {ρ : Type u} {κ : Type v}

/-! ## Serial keys -/

section Ascending

variable [LinearOrder κ]

/-- The rows come in strictly increasing order of `key`. -/
def Ascending (key : ρ → κ) (table : List ρ) : Prop :=
  table.Pairwise fun a b => key a < key b

variable {key : ρ → κ} {table : List ρ}

theorem Ascending.filter (rows : Ascending key table) (keep : ρ → Bool) :
    Ascending key (table.filter keep) :=
  List.Pairwise.filter keep rows

theorem Ascending.append (rows : Ascending key table) {added : List ρ}
    (new : Ascending key added) (fresh : ∀ a ∈ table, ∀ b ∈ added, key a < key b) :
    Ascending key (table ++ added) :=
  List.pairwise_append.mpr ⟨rows, new, fresh⟩

theorem Ascending.snoc (rows : Ascending key table) {row : ρ}
    (fresh : ∀ a ∈ table, key a < key row) : Ascending key (table ++ [row]) :=
  rows.append (List.pairwise_singleton _ _) (by simpa using fresh)

/-- Updating columns other than the key. -/
theorem Ascending.map (rows : Ascending key table) {f : ρ → ρ}
    (same : ∀ row, key (f row) = key row) : Ascending key (table.map f) := by
  refine List.pairwise_map.mpr (List.Pairwise.imp ?_ rows)
  intro a b lt
  rwa [same, same]

theorem Ascending.keys_nodup (rows : Ascending key table) : (table.map key).Nodup :=
  List.pairwise_map.mpr (List.Pairwise.imp ne_of_lt rows)

theorem Ascending.nodup (rows : Ascending key table) : table.Nodup :=
  List.Nodup.of_map key rows.keys_nodup

/-- The key identifies the row. -/
theorem Ascending.unique (rows : Ascending key table) {a b : ρ} (ha : a ∈ table)
    (hb : b ∈ table) (same : key a = key b) : a = b :=
  List.inj_on_of_nodup_map rows.keys_nodup ha hb same

/-- Deleting the first of some chosen rows by its key leaves the others of them. -/
theorem Ascending.delete_first (rows : Ascending key table) {chosen : ρ → Bool} {row : ρ}
    {rest : List ρ} (whole : table.filter chosen = row :: rest) :
    (table.filter fun r => key r ≠ key row).filter chosen = rest := by
  have sorted : Ascending key (row :: rest) := whole ▸ rows.filter chosen
  have others : ∀ r ∈ rest, decide (key r ≠ key row) = true := fun r listed =>
    decide_eq_true (ne_of_gt (List.rel_of_pairwise_cons sorted listed))
  rw [List.filter_comm, whole, List.filter_cons_of_neg (by simp), List.filter_eq_self.mpr others]

/-- Deleting a row by its key leaves the rows of a choice it was not in. -/
theorem Ascending.delete_other (rows : Ascending key table) (chosen : ρ → Bool) {row : ρ}
    (stored : row ∈ table) (other : chosen row = false) :
    (table.filter fun r => key r ≠ key row).filter chosen = table.filter chosen := by
  rw [List.filter_comm, List.filter_eq_self]
  intro r listed
  obtain ⟨inTable, isChosen⟩ := List.mem_filter.mp listed
  apply decide_eq_true
  intro same
  rw [rows.unique inTable stored same, other] at isChosen
  cases isChosen

/-- An ascending table is determined by its members. -/
theorem Ascending.ext {other : List ρ} (rows : Ascending key table)
    (others : Ascending key other) (same : ∀ row, row ∈ table ↔ row ∈ other) :
    table = other := by
  refine List.Perm.eq_of_pairwise ?_ rows others
    ((List.perm_ext_iff_of_nodup rows.nodup others.nodup).mpr same)
  intro a b _ _ before after
  exact absurd before (lt_asymm after)

/-- `ORDER BY key`. -/
def orderBy (key : ρ → κ) (table : List ρ) : List ρ :=
  table.insertionSort fun a b => key a ≤ key b

@[simp] theorem mem_orderBy {key : ρ → κ} {table : List ρ} {row : ρ} :
    row ∈ orderBy key table ↔ row ∈ table := by
  simp [orderBy]

theorem Ascending.orderBy_eq (rows : Ascending key table) : orderBy key table = table :=
  List.Pairwise.insertionSort_eq (List.Pairwise.imp le_of_lt rows)

end Ascending

/-- A row is found by its key where keys are not repeated. -/
theorem find?_key {κ : Type v} [DecidableEq κ] {key : ρ → κ} {table : List ρ}
    (once : (table.map key).Nodup) {row : ρ} (stored : row ∈ table) :
    (table.find? fun r => key r = key row) = some row := by
  cases found : table.find? fun r => decide (key r = key row) with
  | none => simpa using List.find?_eq_none.mp found row stored
  | some other =>
      have same : key other = key row := by simpa using List.find?_some found
      rw [List.inj_on_of_nodup_map once (List.mem_of_find?_eq_some found) stored same]

/-- Deleting a stored row by its key takes the one row off. -/
theorem delete_perm {κ : Type v} [DecidableEq κ] {key : ρ → κ} {table : List ρ}
    (once : (table.map key).Nodup) {row : ρ} (stored : row ∈ table) :
    (row :: table.filter fun r => key r ≠ key row).Perm table := by
  induction table with
  | nil => cases stored
  | cons a rest ih =>
      obtain ⟨new, restOnce⟩ := List.nodup_cons.mp once
      by_cases same : key a = key row
      · have isFirst : row = a := List.inj_on_of_nodup_map once stored List.mem_cons_self same.symm
        subst isFirst
        have others : ∀ r ∈ rest, decide (key r ≠ key row) = true := by
          intro r listed
          apply decide_eq_true
          intro sameKey
          exact new (sameKey ▸ List.mem_map_of_mem listed)
        rw [List.filter_cons_of_neg (by simp), List.filter_eq_self.mpr others]
      · have later : row ∈ rest := by
          rcases List.mem_cons.mp stored with rfl | later
          · exact absurd rfl same
          · exact later
        rw [List.filter_cons_of_pos (by simpa using same)]
        exact (List.Perm.swap _ _ _).trans ((ih restOnce later).cons a)

/-! ## Batch insertion -/

/-- Which constraint a statement violated. -/
inductive Violation where
  | foreignKey
  | unique
  | notNull
  deriving DecidableEq, Repr

section Insert

variable [DecidableEq κ] (key : ρ → κ) (referenced : ρ → Prop) [DecidablePred referenced]

/-- `INSERT` of a batch: every reference must exist and the key must stay unique. -/
def insertRows (table added : List ρ) : Except Violation (List ρ) :=
  if ¬ ∀ row ∈ added, referenced row then .error .foreignKey
  else if ((table ++ added).map key).Nodup then .ok (table ++ added)
  else .error .unique

theorem insertRows_ok_iff {table added result : List ρ} :
    insertRows key referenced table added = .ok result ↔
      result = table ++ added ∧ (∀ row ∈ added, referenced row) ∧
        ((table ++ added).map key).Nodup := by
  unfold insertRows
  by_cases known : ∀ row ∈ added, referenced row
  · rw [if_neg (not_not.mpr known)]
    by_cases distinct : ((table ++ added).map key).Nodup
    · rw [if_pos distinct]
      simp only [Except.ok.injEq]
      exact ⟨fun same => ⟨same.symm, known, distinct⟩, fun facts => facts.1.symm⟩
    · rw [if_neg distinct]
      simp only [reduceCtorEq, false_iff, not_and]
      exact fun _ _ => distinct
  · simp [known]

end Insert

/-- Sequencing of fallible statements, read backwards. -/
theorem bind_eq_ok {ε : Type u} {α β : Type v} {x : Except ε α} {f : α → Except ε β} {b : β} :
    (x >>= f) = .ok b ↔ ∃ a, x = .ok a ∧ f a = .ok b := by
  cases x with
  | error e => simp [bind, Except.bind]
  | ok a => simp [bind, Except.bind]

theorem bind_eq_error {ε : Type u} {α β : Type v} {x : Except ε α} {f : α → Except ε β} {e : ε} :
    (x >>= f) = .error e ↔ x = .error e ∨ ∃ a, x = .ok a ∧ f a = .error e := by
  cases x with
  | error e' => simp [bind, Except.bind]
  | ok a => simp [bind, Except.bind]

section MapError

variable {ε ε' α β : Type u}

theorem mapError_eq_ok {f : ε → ε'} {x : Except ε α} {a : α} :
    x.mapError f = .ok a ↔ x = .ok a := by
  cases x with
  | error e => simp [Except.mapError]
  | ok found => simp [Except.mapError]

theorem mapError_eq_error {f : ε → ε'} {x : Except ε α} {e' : ε'} :
    x.mapError f = .error e' ↔ ∃ e, x = .error e ∧ f e = e' := by
  cases x with
  | error e => simp [Except.mapError]
  | ok found => simp [Except.mapError]

theorem map_eq_ok {f : α → β} {x : Except ε α} {b : β} :
    x.map f = .ok b ↔ ∃ a, x = .ok a ∧ f a = b := by
  cases x with
  | error e => simp [Except.map]
  | ok found => simp [Except.map]

theorem map_eq_error {f : α → β} {x : Except ε α} {e : ε} :
    x.map f = .error e ↔ x = .error e := by
  cases x with
  | error found => simp [Except.map]
  | ok found => simp [Except.map]

end MapError

/-! ## Joins -/

/-- The pairs of an inner join, one per matching pair of rows. -/
def joinOn {τ : Type w} (on : ρ → τ → Bool) (left : List ρ) (right : List τ) : List (ρ × τ) :=
  left.flatMap fun row => (right.filter (on row)).map (row, ·)

theorem mem_joinOn {τ : Type w} {on : ρ → τ → Bool} {left : List ρ} {right : List τ}
    {pair : ρ × τ} :
    pair ∈ joinOn on left right ↔
      pair.1 ∈ left ∧ pair.2 ∈ right ∧ on pair.1 pair.2 = true := by
  obtain ⟨a, b⟩ := pair
  simp only [joinOn, List.mem_flatMap, List.mem_map, List.mem_filter, Prod.mk.injEq]
  constructor
  · rintro ⟨row, inLeft, other, ⟨inRight, matches_⟩, rfl, rfl⟩
    exact ⟨inLeft, inRight, matches_⟩
  · rintro ⟨inLeft, inRight, matches_⟩
    exact ⟨a, inLeft, b, ⟨inRight, matches_⟩, rfl, rfl⟩

/-- A condition on the right rows only may be asked before the join. -/
theorem joinOn_filter_right {τ : Type w} {on : ρ → τ → Bool} {left : List ρ} {right : List τ}
    (q : τ → Bool) :
    (joinOn on left right).filter (fun pair => q pair.2) = joinOn on left (right.filter q) := by
  unfold joinOn
  rw [List.filter_flatMap]
  refine List.flatMap_congr fun row _ => ?_
  rw [List.filter_map, List.filter_filter, List.filter_filter]
  refine congrArg _ (List.filter_congr fun other _ => ?_)
  exact Bool.and_comm _ _

/-- The left row looked for is the only one: its first partner is the first pair. -/
theorem find?_joinOn {τ : Type w} {on : ρ → τ → Bool} {left : List ρ} {right : List τ}
    {p : ρ → Bool} (single : left.Pairwise fun a b => p a = true → p b = false) :
    ((joinOn on left right).find? fun pair => p pair.1) =
      (left.find? p).bind fun row => (right.find? (on row)).map (row, ·) := by
  induction left with
  | nil => rfl
  | cons row rest ih =>
      obtain ⟨others, restSingle⟩ := List.pairwise_cons.mp single
      rw [joinOn, List.flatMap_cons, List.find?_append, List.find?_map, ← joinOn, ih restSingle]
      cases chosen : p row with
      | false =>
          have noPair : (right.find? fun _ => false) = none := by simp
          simp [chosen, List.find?_filter, noPair]
      | true =>
          have noOther : rest.find? p = none := by
            rw [List.find?_eq_none]
            intro other inRest
            simp [others other inRest chosen]
          simp [chosen, noOther, List.find?_filter]

/-- When each left row matches at most one right row, an ascending left table
stays ascending through the join. -/
theorem Ascending.joinOn {τ : Type w} [LinearOrder κ] {key : ρ → κ} {left : List ρ}
    (rows : Ascending key left) {on : ρ → τ → Bool} {right : List τ}
    (single : ∀ row ∈ left, (right.filter (on row)).length ≤ 1) :
    Ascending (fun pair => key pair.1) (joinOn on left right) := by
  induction left with
  | nil => exact List.Pairwise.nil
  | cons row rest ih =>
      obtain ⟨before, restRows⟩ := List.pairwise_cons.mp rows
      have restJoin := ih restRows fun r inRest => single r (List.mem_cons_of_mem _ inRest)
      refine List.pairwise_append.mpr ⟨?_, restJoin, ?_⟩
      · have few := single row List.mem_cons_self
        dsimp only
        match hit : right.filter (on row) with
        | [] => exact List.Pairwise.nil
        | [b] => exact List.pairwise_singleton _ _
        | _ :: _ :: _ => simp [hit] at few
      · intro a inHead b inRest
        obtain ⟨other, -, rfl⟩ := List.mem_map.mp inHead
        exact before _ (mem_joinOn.mp inRest).1

/-! ## One row replaced -/

section Replace

variable {table : List ρ} {n : Nat} {row new : ρ} {f : ρ → Option κ}

theorem set_split (at_ : table[n]? = some row) (new : ρ) :
    ∃ before later, table = before ++ row :: later ∧ table.set n new = before ++ new :: later := by
  obtain ⟨inside, rfl⟩ := List.getElem?_eq_some_iff.mp at_
  refine ⟨table.take n, table.drop (n + 1), ?_, List.set_eq_take_append_cons_drop .. ▸ if_pos inside⟩
  rw [← List.drop_eq_getElem_cons inside, List.take_append_drop]

theorem eraseIdx_split (at_ : table[n]? = some row) :
    ∃ before later, table = before ++ row :: later ∧ table.eraseIdx n = before ++ later := by
  obtain ⟨inside, isRow⟩ := List.getElem?_eq_some_iff.mp at_
  refine ⟨table.take n, table.drop (n + 1), ?_, List.eraseIdx_eq_take_drop_succ table n⟩
  rw [← isRow, List.getElem_cons_drop, List.take_append_drop]

theorem getElem?_set_iff (at_ : table[n]? = some row) {m : Nat} {other : ρ} :
    (table.set n new)[m]? = some other ↔
      (m = n ∧ other = new) ∨ (m ≠ n ∧ table[m]? = some other) := by
  obtain ⟨inside, -⟩ := List.getElem?_eq_some_iff.mp at_
  by_cases same : n = m
  · subst same
    simp [List.getElem?_set_self inside, eq_comm]
  · simp [List.getElem?_set_ne same, Ne.symm same]

theorem mem_set_iff (at_ : table[n]? = some row) {x : ρ} (old : row ≠ x) (isNew : new ≠ x) :
    x ∈ table.set n new ↔ x ∈ table := by
  obtain ⟨before, later, isTable, isSet⟩ := set_split at_ new
  rw [isSet, isTable]
  simp [Ne.symm old, Ne.symm isNew]

/-- The replaced row shows the same in the column. -/
theorem filterMap_set (at_ : table[n]? = some row) (same : f new = f row) :
    (table.set n new).filterMap f = table.filterMap f := by
  obtain ⟨before, later, isTable, isSet⟩ := set_split at_ new
  rw [isSet, isTable, List.filterMap_append, List.filterMap_append, List.filterMap_cons,
    List.filterMap_cons, same]

/-- The same for a column every row shows in. -/
theorem map_set {g : ρ → κ} (at_ : table[n]? = some row) (same : g new = g row) :
    (table.set n new).map g = table.map g := by
  obtain ⟨before, later, isTable, isSet⟩ := set_split at_ new
  rw [isSet, isTable, List.map_append, List.map_append, List.map_cons, List.map_cons, same]

/-- The replaced row did not show in the column and now does. -/
theorem filterMap_set_perm {k : κ} (at_ : table[n]? = some row) (hidden : f row = none)
    (shown : f new = some k) :
    ((table.set n new).filterMap f).Perm (table.filterMap f ++ [k]) := by
  obtain ⟨before, later, isTable, isSet⟩ := set_split at_ new
  rw [isSet, isTable, List.filterMap_append, List.filterMap_append,
    List.filterMap_cons_some shown, List.filterMap_cons_none hidden, List.append_assoc]
  exact List.Perm.append_left _ (List.perm_append_singleton _ _).symm

/-- In a column without repetition a value shows in one row. -/
theorem position_unique (once : (table.filterMap f).Nodup) {m : Nat} {other : ρ} {k : κ}
    (at_ : table[n]? = some row) (shows : f row = some k) (otherAt : table[m]? = some other)
    (otherShows : f other = some k) : n = m := by
  have apart := List.pairwise_iff_getElem.mp (List.pairwise_filterMap.mp once)
  obtain ⟨inside, rfl⟩ := List.getElem?_eq_some_iff.mp at_
  obtain ⟨otherInside, rfl⟩ := List.getElem?_eq_some_iff.mp otherAt
  rcases Nat.lt_trichotomy n m with less | same | greater
  · exact absurd rfl (apart n m inside otherInside less k shows k otherShows)
  · exact same
  · exact absurd rfl (apart m n otherInside inside greater k otherShows k shows)

/-- What the rows hold, after one is replaced: its old part out, its new part in. -/
theorem flatMap_set_perm {g : ρ → List κ} (at_ : table[n]? = some row) (new : ρ) :
    ((table.set n new).flatMap g ++ g row).Perm (table.flatMap g ++ g new) := by
  obtain ⟨before, later, isTable, isSet⟩ := set_split at_ new
  rw [isSet, isTable]
  simp only [List.flatMap_append, List.flatMap_cons, List.append_assoc]
  refine List.Perm.append_left _ ?_
  exact (List.perm_append_comm_assoc _ _ _).trans
    (List.perm_append_comm.append_left _ |>.trans (by simpa using List.perm_append_comm_assoc _ _ _))

/-- When nothing is held twice, a value is held by one row. -/
theorem holder_unique {g : ρ → List κ} (once : (table.flatMap g).Nodup) {m : Nat} {other : ρ} {k : κ}
    (at_ : table[n]? = some row) (holds : k ∈ g row) (otherAt : table[m]? = some other)
    (otherHolds : k ∈ g other) : n = m := by
  have apart := List.pairwise_iff_getElem.mp (List.nodup_flatMap.mp once).2
  obtain ⟨inside, rfl⟩ := List.getElem?_eq_some_iff.mp at_
  obtain ⟨otherInside, rfl⟩ := List.getElem?_eq_some_iff.mp otherAt
  rcases Nat.lt_trichotomy n m with less | same | greater
  · exact absurd otherHolds (apart n m inside otherInside less holds)
  · exact same
  · exact absurd holds (apart m n otherInside inside greater otherHolds)

end Replace

end SecureMsg.Theory
