/-
# Theory.Queues — one FIFO queue per owner, and the ledger of a run

The abstract component behind a table of tickets: entries are pushed for an
owner in batches, popped one at a time from the front, counted, and dropped
together when the owner goes.  A trace pairs each operation with its result;
`pushedFor` and `poppedFor` read from a trace what was handed in and what was
handed out.

* `popped_sublist` — along every trace what was popped, followed by what is still
  queued, is in push order with no entry twice;
* `pushed_eq` — since the owner's queue was last cleared nothing else is missing.
-/
import SecureMsg.Theory.Run
import Mathlib.Logic.Function.Basic

namespace SecureMsg.Theory

set_option autoImplicit false

universe u v

inductive QueueOp (ο : Type u) (ε : Type v) where
  | push (owner : ο) (entries : List ε)
  | pop (owner : ο)
  | count (owner : ο)
  | clear (owner : ο)
  | skip
  deriving DecidableEq

inductive QueueResult (ε : Type v) where
  | done
  | popped (entry : Option ε)
  | counted (n : Nat)
  deriving DecidableEq

abbrev QueueTrace (ο : Type u) (ε : Type v) := List (QueueOp ο ε × QueueResult ε)

variable {ο : Type u} {ε : Type v} [DecidableEq ο]

namespace QueueOp

/-- The queues after the operation. -/
def next (queues : ο → List ε) : QueueOp ο ε → ο → List ε
  | push owner entries => Function.update queues owner (queues owner ++ entries)
  | pop owner => Function.update queues owner (queues owner).tail
  | clear owner => Function.update queues owner []
  | count _ | skip => queues

/-- What the operation answers. -/
def result (queues : ο → List ε) : QueueOp ο ε → QueueResult ε
  | pop owner => .popped (queues owner).head?
  | count owner => .counted (queues owner).length
  | push .. | clear _ | skip => .done

end QueueOp

/-- The queues, all empty at first. -/
def queues : System (ο → List ε) (QueueOp ο ε) := ⟨fun _ => [], QueueOp.next⟩

theorem queues_snoc (ops : List (QueueOp ο ε)) (op : QueueOp ο ε) :
    queues.run (ops ++ [op]) = op.next (queues.run ops) := System.run_snoc ..

/-- The operations of a run with what they answered. -/
def queueTrace (ops : List (QueueOp ο ε)) : QueueTrace ο ε :=
  queues.observe (fun q op trace => trace ++ [(op, op.result q)]) [] ops

@[simp] theorem queueTrace_nil : queueTrace ([] : List (QueueOp ο ε)) = [] := rfl

@[simp] theorem queueTrace_snoc (ops : List (QueueOp ο ε)) (op : QueueOp ο ε) :
    queueTrace (ops ++ [op]) = queueTrace ops ++ [(op, op.result (queues.run ops))] := by
  simp [queueTrace]

/-! ## The ledger -/

/-- The entries pushed for the owner, in order. -/
def pushedFor (owner : ο) (trace : QueueTrace ο ε) : List ε :=
  trace.flatMap fun
    | (.push o entries, _) => if o = owner then entries else []
    | _ => []

/-- The entries popped from the owner's queue, in order. -/
def poppedFor (owner : ο) (trace : QueueTrace ο ε) : List ε :=
  trace.flatMap fun
    | (.pop o, .popped (some entry)) => if o = owner then [entry] else []
    | _ => []

def QueueOp.clears (owner : ο) : QueueOp ο ε → Bool
  | clear o => o = owner
  | _ => false

/-- The part of a trace after the owner's queue was last cleared. -/
def sinceClear (owner : ο) (trace : QueueTrace ο ε) : QueueTrace ο ε :=
  trace.foldl (fun since t => if t.1.clears owner then [] else since ++ [t]) []

@[simp] theorem sinceClear_snoc (owner : ο) (trace : QueueTrace ο ε)
    (t : QueueOp ο ε × QueueResult ε) :
    sinceClear owner (trace ++ [t]) =
      if t.1.clears owner then [] else sinceClear owner trace ++ [t] := by
  simp [sinceClear]

theorem sinceClear_eq_self {owner : ο} {trace : QueueTrace ο ε}
    (uncleared : .clear owner ∉ trace.map Prod.fst) : sinceClear owner trace = trace := by
  induction trace using List.reverseRecOn with
  | nil => rfl
  | append_singleton trace t ih =>
      simp only [List.map_append, List.map_singleton, List.mem_append, List.mem_singleton,
        not_or] at uncleared
      have keeps : t.1.clears owner = false := by
        cases isOp : t.1 with
        | clear o => simpa [QueueOp.clears, isOp, eq_comm] using uncleared.2
        | _ => rfl
      simp [keeps, ih uncleared.1]

@[simp] theorem pushedFor_snoc (owner : ο) (trace : QueueTrace ο ε)
    (t : QueueOp ο ε × QueueResult ε) :
    pushedFor owner (trace ++ [t]) = pushedFor owner trace ++ pushedFor owner [t] := by
  simp [pushedFor]

@[simp] theorem poppedFor_snoc (owner : ο) (trace : QueueTrace ο ε)
    (t : QueueOp ο ε × QueueResult ε) :
    poppedFor owner (trace ++ [t]) = poppedFor owner trace ++ poppedFor owner [t] := by
  simp [poppedFor]

/-- One operation on the owner's queue: what it adds at the back, what it takes from
the front.  Only `clear` loses entries. -/
theorem next_ledger (owner : ο) (q : ο → List ε) (op : QueueOp ο ε) :
    if op.clears owner then op.next q owner = [] ∧ poppedFor owner [(op, op.result q)] = []
    else poppedFor owner [(op, op.result q)] ++ op.next q owner =
      q owner ++ pushedFor owner [(op, op.result q)] := by
  cases op with
  | push o entries =>
      by_cases same : o = owner
      · subst same
        simp [QueueOp.clears, QueueOp.next, pushedFor, poppedFor]
      · simp [QueueOp.clears, QueueOp.next, pushedFor, poppedFor, same,
          Function.update_of_ne (Ne.symm same)]
  | pop o =>
      by_cases same : o = owner
      · subst same
        cases front : q o with
        | nil => simp [QueueOp.clears, QueueOp.next, QueueOp.result, pushedFor, poppedFor, front]
        | cons entry rest =>
            simp [QueueOp.clears, QueueOp.next, QueueOp.result, pushedFor, poppedFor, front]
      · cases front : (q o).head? with
        | none =>
            simp [QueueOp.clears, QueueOp.next, QueueOp.result, pushedFor, poppedFor, front,
              Function.update_of_ne (Ne.symm same)]
        | some entry =>
            simp [QueueOp.clears, QueueOp.next, QueueOp.result, pushedFor, poppedFor, front, same,
              Function.update_of_ne (Ne.symm same)]
  | count o => simp [QueueOp.clears, QueueOp.next, pushedFor, poppedFor]
  | clear o =>
      by_cases same : o = owner
      · subst same
        simp [QueueOp.clears, QueueOp.next, poppedFor]
      · simp [QueueOp.clears, QueueOp.next, pushedFor, poppedFor, same,
          Function.update_of_ne (Ne.symm same)]
  | skip => simp [QueueOp.clears, QueueOp.next, pushedFor, poppedFor]

/-- **At most once and in order**: popped entries, then the queue, are a
subsequence of the pushed ones. -/
theorem popped_sublist (owner : ο) (ops : List (QueueOp ο ε)) :
    (poppedFor owner (queueTrace ops) ++ queues.run ops owner).Sublist
      (pushedFor owner (queueTrace ops)) := by
  induction ops using List.reverseRecOn with
  | nil => exact List.Sublist.refl _
  | append_singleton ops op ih =>
      have ledger := next_ledger owner (queues.run ops) op
      rw [queueTrace_snoc, poppedFor_snoc, pushedFor_snoc, queues_snoc]
      cases clears : op.clears owner with
      | true =>
          simp only [clears, if_true] at ledger
          rw [ledger.1, ledger.2, List.append_nil, List.append_nil]
          have earlier := (List.sublist_append_left _ _).trans ih
          exact earlier.trans (List.sublist_append_left _ _)
      | false =>
          simp only [clears, Bool.false_eq_true, if_false] at ledger
          rw [List.append_assoc, ledger, ← List.append_assoc]
          exact ih.append (List.Sublist.refl _)

/-- **Nothing is lost**: since the owner's queue was last cleared, what was pushed is
what was popped and what is queued. -/
theorem pushed_eq (owner : ο) (ops : List (QueueOp ο ε)) :
    pushedFor owner (sinceClear owner (queueTrace ops)) =
      poppedFor owner (sinceClear owner (queueTrace ops)) ++ queues.run ops owner := by
  induction ops using List.reverseRecOn with
  | nil => rfl
  | append_singleton ops op ih =>
      have ledger := next_ledger owner (queues.run ops) op
      rw [queueTrace_snoc, sinceClear_snoc, queues_snoc]
      cases clears : op.clears owner with
      | true =>
          simp only [clears, if_true] at ledger
          simp [ledger.1, pushedFor, poppedFor]
      | false =>
          simp only [clears, Bool.false_eq_true, if_false] at ledger ⊢
          rw [pushedFor_snoc, poppedFor_snoc, List.append_assoc, ledger, ← List.append_assoc, ih]

end SecureMsg.Theory
