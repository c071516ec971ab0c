/-
# Keys.Queue — the prekey table is one FIFO queue per user

`queued db u` reads the queue of `u` off the table.  `call_refines` is the step
of the simulation: what a committed call answers and leaves is what the queue
operation of the same name answers and leaves, `storeKeyBundle` and every
method of the other repositories being `skip`.  `prekeys_refine_queues` is the
run, with what the ledger of the queues then says of the table.
-/
import SecureMsg.Theory.Queues
import SecureMsg.Repository.Personal

namespace SecureMsg.Keys

open SecureMsg.Theory SecureMsg.Store SecureMsg.Repository

set_option autoImplicit false

/-! ## Calls with their answers -/

/-- A call in a session of its own, the count included. -/
inductive Call where
  | operation (op : Operation)
  | countOneTimePrekeys (userId : UserId)
  deriving DecidableEq

/-- What a successful call returns, as far as it is about prekeys. -/
def answer (db : Database) : Operation → QueueResult Bytes
  | .popOneTimePrekey userId => .popped (popOneTimePrekey db userId).2
  | _ => .done

def call (db : Database) : Call → Except Error (Database × QueueResult Bytes)
  | .operation op => do
      let after ← perform db op
      return (after, answer db op)
  | .countOneTimePrekeys userId => .ok (db, .counted (countOneTimePrekeys db userId))

/-- The queue operation a call stands for. -/
def Call.queueOp : Call → QueueOp UserId Bytes
  | .operation (.addOneTimePrekeys userId prekeys) => .push userId prekeys
  | .operation (.popOneTimePrekey userId) => .pop userId
  | .operation (.deleteUser userId) => .clear userId
  | .operation _ => .skip
  | .countOneTimePrekeys userId => .count userId

/-- The service from an empty database; a call that raises commits nothing. -/
def prekeyService : System Database Call where
  init := {}
  step db k :=
    match call db k with
    | .ok (after, _) => after
    | .error _ => db

/-- The committed calls of a run with what they returned, as queue operations. -/
def traceOf (calls : List Call) : QueueTrace UserId Bytes :=
  prekeyService.observe (fun db k trace =>
    match call db k with
    | .ok (_, result) => trace ++ [(k.queueOp, result)]
    | .error _ => trace) [] calls

def committedOps (calls : List Call) : List (QueueOp UserId Bytes) := (traceOf calls).map Prod.fst

/-- The queue of a user, read off the table. -/
def queued (db : Database) (userId : UserId) : List Bytes :=
  (prekeysOf db userId).map OneTimePreKey.prekeyPub

/-! ## One call -/

variable {db after : Database}

/-- The rows come in id order already. -/
theorem prekeysOf_eq (c : Constraints db) (userId : UserId) :
    prekeysOf db userId = db.oneTimePrekeys.filter fun row => row.userId = userId := by
  have sorted : Ascending OneTimePreKey.id (db.oneTimePrekeys.filter fun row => row.userId = userId) :=
    c.oneTimePrekeys.filter _
  rw [prekeysOf, sorted.orderBy_eq]

@[simp] theorem length_queued (userId : UserId) :
    (queued db userId).length = countOneTimePrekeys db userId := by
  simp [queued, prekeysOf, countOneTimePrekeys, orderBy]

theorem queued_same (same : after.oneTimePrekeys = db.oneTimePrekeys) : queued after = queued db := by
  funext userId
  simp [queued, prekeysOf, same]

theorem numberPrekeys_pubs (userId : UserId) (next : Int) (prekeys : List Bytes) :
    (Database.numberPrekeys userId next prekeys).map OneTimePreKey.prekeyPub = prekeys := by
  induction prekeys generalizing next with
  | nil => rfl
  | cons pub rest ih => simp [Database.numberPrekeys, ih]

theorem prekeysOf_added (c : Constraints db) (c' : Constraints after) {userId : UserId}
    {prekeys : List Bytes}
    (rows : after.oneTimePrekeys = db.oneTimePrekeys ++
      Database.numberPrekeys userId db.sequences.oneTimePrekeys prekeys) :
    prekeysOf after = Function.update (prekeysOf db) userId
      (prekeysOf db userId ++ Database.numberPrekeys userId db.sequences.oneTimePrekeys prekeys) := by
  funext owner
  rw [prekeysOf_eq c', rows, List.filter_append, ← prekeysOf_eq c]
  by_cases same : owner = userId
  · subst same
    have all : ∀ row ∈ Database.numberPrekeys owner db.sequences.oneTimePrekeys prekeys,
        decide (row.userId = owner) = true := fun row listed =>
      decide_eq_true (Database.mem_numberPrekeys listed).1
    rw [List.filter_eq_self.mpr all, Function.update_self]
  · have none_ : (Database.numberPrekeys userId db.sequences.oneTimePrekeys prekeys).filter
        (fun row => row.userId = owner) = [] := by
      rw [List.filter_eq_nil_iff]
      intro row listed
      rw [(Database.mem_numberPrekeys listed).1, decide_eq_true_eq]
      exact Ne.symm same
    rw [none_, Function.update_of_ne same, List.append_nil]

/-- Ids are unique: dropping the head's id drops the head, from its owner's queue. -/
theorem prekeysOf_popped (c : Constraints db) (userId : UserId) :
    prekeysOf (popOneTimePrekey db userId).1 =
      Function.update (prekeysOf db) userId (prekeysOf db userId).tail := by
  unfold popOneTimePrekey
  cases isHead : (prekeysOf db userId).head? with
  | none =>
      have empty := List.head?_eq_none_iff.mp isHead
      rw [empty, List.tail_nil, ← empty, Function.update_eq_self]
  | some row =>
      obtain ⟨rest, whole⟩ := List.head?_eq_some_iff.mp isHead
      rw [whole, List.tail_cons]
      rw [prekeysOf_eq c] at whole
      obtain ⟨stored, owned⟩ := List.mem_filter.mp (whole ▸ List.mem_cons_self)
      funext owner
      rw [prekeysOf_eq (c.deleteOneTimePrekey row.id), Database.deleteOneTimePrekey]
      by_cases same : owner = userId
      · subst same
        rw [c.oneTimePrekeys.delete_first whole, Function.update_self]
      · have other : decide (row.userId = owner) = false := by
          rw [of_decide_eq_true owned]
          exact decide_eq_false (Ne.symm same)
        rw [c.oneTimePrekeys.delete_other (fun r => decide (r.userId = owner)) stored other,
          Function.update_of_ne same, prekeysOf_eq c]

theorem prekeysOf_deleted (c : Constraints db) (c' : Constraints after) {userId : UserId}
    (rows : after.oneTimePrekeys = db.oneTimePrekeys.filter fun row => row.userId ≠ userId) :
    prekeysOf after = Function.update (prekeysOf db) userId [] := by
  funext owner
  rw [prekeysOf_eq c', rows, List.filter_filter]
  by_cases same : owner = userId
  · subst same
    simp
  · rw [Function.update_of_ne same, prekeysOf_eq c]
    apply List.filter_congr
    intro row _
    by_cases mine : row.userId = owner
    · simp [mine, same]
    · simp [mine]

/-- A user's rows replaced, a user's queue replaced. -/
theorem queued_update {userId : UserId} {rows : List OneTimePreKey}
    (replaced : prekeysOf after = Function.update (prekeysOf db) userId rows) :
    queued after = Function.update (queued db) userId (rows.map OneTimePreKey.prekeyPub) := by
  funext owner
  rw [queued, replaced]
  by_cases same : owner = userId
  · subst same
    rw [Function.update_self, Function.update_self]
  · rw [Function.update_of_ne same, Function.update_of_ne same, queued]

theorem queued_added (c : Constraints db) (c' : Constraints after) {userId : UserId}
    {prekeys : List Bytes}
    (rows : after.oneTimePrekeys = db.oneTimePrekeys ++
      Database.numberPrekeys userId db.sequences.oneTimePrekeys prekeys) :
    queued after = Function.update (queued db) userId (queued db userId ++ prekeys) := by
  rw [queued_update (prekeysOf_added c c' rows), List.map_append, numberPrekeys_pubs, queued]

theorem queued_popped (c : Constraints db) (userId : UserId) :
    (popOneTimePrekey db userId).2 = (queued db userId).head? ∧
      queued (popOneTimePrekey db userId).1 =
        Function.update (queued db) userId (queued db userId).tail := by
  refine ⟨?_, ?_⟩
  · rw [queued, List.head?_map, popOneTimePrekey]
    cases (prekeysOf db userId).head? <;> rfl
  · rw [queued_update (prekeysOf_popped c userId), queued, List.map_tail]

theorem queued_deleted (c : Constraints db) (c' : Constraints after) {userId : UserId}
    (rows : after.oneTimePrekeys = db.oneTimePrekeys.filter fun row => row.userId ≠ userId) :
    queued after = Function.update (queued db) userId [] := by
  rw [queued_update (prekeysOf_deleted c c' rows), List.map_nil]

/-- A user who is not there has no prekeys. -/
theorem prekeysOf_absent (c : Constraints db) {userId : UserId} (absent : userId ∉ db.userIds) :
    prekeysOf db userId = [] := by
  rw [prekeysOf_eq c, List.filter_eq_nil_iff]
  intro row stored mine
  have owner : row.userId ∈ db.userIds :=
    c.references (.oneTimePrekey row) stored (.user row.userId) List.mem_cons_self
  rw [of_decide_eq_true mine] at owner
  exact absent owner

theorem queued_absent (c : Constraints db) {userId : UserId} (absent : userId ∉ db.userIds) :
    queued db userId = [] := by
  rw [queued, prekeysOf_absent c absent, List.map_nil]

theorem call_constraints (c : Constraints db) {k : Call} {result : QueueResult Bytes}
    (done : call db k = .ok (after, result)) : Constraints after := by
  cases k with
  | countOneTimePrekeys userId =>
      cases done
      exact c
  | operation op =>
      obtain ⟨stored, performed, returned⟩ := bind_eq_ok.mp done
      cases returned
      exact perform_constraints c performed

/-- **The step of the simulation.** -/
theorem call_refines (c : Constraints db) {k : Call} {result : QueueResult Bytes}
    (done : call db k = .ok (after, result)) :
    result = k.queueOp.result (queued db) ∧ queued after = k.queueOp.next (queued db) := by
  cases k with
  | countOneTimePrekeys userId =>
      cases done
      simp [Call.queueOp, QueueOp.result, QueueOp.next]
  | operation op =>
      obtain ⟨stored, performed, returned⟩ := bind_eq_ok.mp done
      cases returned
      have c' := perform_constraints c performed
      cases perform_personal c performed with
      | accountUnknown userId absent =>
          refine ⟨rfl, ?_⟩
          show queued _ = Function.update (queued _) userId []
          rw [← queued_absent c absent, Function.update_eq_self]
      | accountDeleted userId _ _ gone => exact ⟨rfl, queued_deleted c c' gone.oneTimePrekeys⟩
      | prekeysAdded userId prekeys => exact ⟨rfl, queued_added c c' rfl⟩
      | prekeyPopped userId =>
          obtain ⟨isHead, popped⟩ := queued_popped c userId
          exact ⟨congrArg QueueResult.popped isHead, popped⟩
      | userCreated => exact ⟨rfl, queued_same rfl⟩
      | tokenBlocked => exact ⟨rfl, queued_same rfl⟩
      | messageStored => exact ⟨rfl, queued_same rfl⟩
      | messageDeleted => exact ⟨rfl, queued_same rfl⟩
      | bundleReplaced => exact ⟨rfl, queued_same rfl⟩
      | bundleStored => exact ⟨rfl, queued_same rfl⟩
      | elsewhere _ _ other same =>
          have kept := queued_same same.oneTimePrekeys
          cases op with
          | addOneTimePrekeys => exact absurd trivial other
          | popOneTimePrekey => exact absurd trivial other
          | deleteUser => exact absurd trivial other
          | _ => exact ⟨rfl, kept⟩

/-! ## Every run -/

/-- The trace of the table is the trace of the queues, and the table holds them. -/
structure Refines (db : Database) (trace : QueueTrace UserId Bytes) : Prop where
  answers : trace = queueTrace (trace.map Prod.fst)
  holds : queued db = queues.run (trace.map Prod.fst)

theorem refines (calls : List Call) :
    Refines (prekeyService.run calls) (traceOf calls) := by
  have both : Constraints (prekeyService.run calls) ∧
      Refines (prekeyService.run calls) (traceOf calls) := by
    refine prekeyService.observe_invariant (P := fun db trace => Constraints db ∧ Refines db trace)
      ?_ ?_ calls
    · exact ⟨sound_empty.constraints, rfl, rfl⟩
    · intro db k trace ⟨c, r⟩
      cases done : call db k with
      | error e => simpa only [prekeyService, done] using ⟨c, r⟩
      | ok answered =>
          obtain ⟨after, result⟩ := answered
          obtain ⟨isResult, isNext⟩ := call_refines c done
          simp only [prekeyService, done]
          refine ⟨call_constraints c done, ?_, ?_⟩
          · rw [List.map_append, List.map_singleton, queueTrace_snoc, ← r.answers, ← r.holds, isResult]
          · rw [List.map_append, List.map_singleton, queues_snoc, ← r.holds, isNext]
  exact both.2

/-- What a user's callers can rely on. -/
structure PrekeyLedger (calls : List Call) (u : UserId) : Prop where
  counted : countOneTimePrekeys (prekeyService.run calls) u =
    (queues.run (committedOps calls) u).length
  inOrder : (poppedFor u (traceOf calls) ++ queued (prekeyService.run calls) u).Sublist
    (pushedFor u (traceOf calls))
  balanced : countOneTimePrekeys (prekeyService.run calls) u =
    (pushedFor u (sinceClear u (traceOf calls))).length -
      (poppedFor u (sinceClear u (traceOf calls))).length
  complete : .clear u ∉ committedOps calls →
    pushedFor u (traceOf calls) = poppedFor u (traceOf calls) ++ queued (prekeyService.run calls) u ∧
    countOneTimePrekeys (prekeyService.run calls) u =
      (pushedFor u (traceOf calls)).length - (poppedFor u (traceOf calls)).length

/-- **The prekey table refines one FIFO queue per user**: along every run the committed
calls answer what the queues answer and the table holds the queues.  Hence what is
handed out of a user's prekeys is what was uploaded, each entry once and in upload
order, and the count is uploads minus pops since `delete_user` last emptied the queue,
or in all if it never did. -/
theorem prekeys_refine_queues (calls : List Call) :
    traceOf calls = queueTrace (committedOps calls) ∧
      queued (prekeyService.run calls) = queues.run (committedOps calls) ∧
      ∀ u, PrekeyLedger calls u := by
  have r := refines calls
  refine ⟨r.answers, r.holds, fun u => ?_⟩
  have whole : traceOf calls = queueTrace (committedOps calls) := r.answers
  constructor
  case counted => rw [← length_queued, r.holds, committedOps]
  case inOrder =>
    rw [whole, r.holds]
    exact popped_sublist u _
  case balanced =>
    have sum := pushed_eq u (committedOps calls)
    rw [← whole, committedOps, ← r.holds] at sum
    rw [← length_queued, sum, List.length_append]
    omega
  case complete =>
    intro uncleared
    have sum := pushed_eq u (committedOps calls)
    rw [← whole, sinceClear_eq_self uncleared, committedOps, ← r.holds] at sum
    refine ⟨sum, ?_⟩
    rw [← length_queued, sum, List.length_append]
    omega

end SecureMsg.Keys
