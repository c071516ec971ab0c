/-
# Audit.Chain — from the watched logs to what the contract has emitted

`submit_event` hashes an event, asks the node how many transactions of the account are
in blocks, and sends a transaction with that number as its nonce; whatever is raised on
the way is logged and swallowed.  `logAccess` of `AuditLog.sol` emits for its owner, who
deployed it with the same wallet.

The node is no code of this repository.  It appears as what it may do: not answer; keep
one of two pending transactions with one nonce, whichever it likes; put a pending
transaction in a block when its nonce is due; drop one; take transactions of others.

`trail_faithful`: what the contract has emitted is hashes of submitted events, in the
order of the logs.  `trail_complete_iff`: none is missing iff no step of the run lost
one, and an event handled while the one before it is pending is lost.
-/
import SecureMsg.Audit.EventHash
import SecureMsg.Audit.Watcher

namespace SecureMsg.Audit.Chain

open SecureMsg.Theory

set_option autoImplicit false

/-! ## The contract -/

section Contract

variable (Address Hash : Type)

/-- The event of `AuditLog.sol`; nothing reads its timestamp. -/
structure SecretAccess where
  eventHash : Hash
  reporter : Address

structure AuditLog where
  owner : Address
  emitted : List (SecretAccess Address Hash) := []

end Contract

variable {Address Hash : Type} [DecidableEq Address]

/-- `constructor`. -/
def AuditLog.deployed (sender : Address) : AuditLog Address Hash := { owner := sender }

/-- `none` is `revert Unauthorised()`. -/
def AuditLog.logAccess (log : AuditLog Address Hash) (sender : Address) (eventHash : Hash) :
    Option (AuditLog Address Hash) :=
  if sender ≠ log.owner then none
  else some { log with emitted := log.emitted ++ [⟨eventHash, sender⟩] }

/-! ## The node -/

/-- A call of `logAccess`. -/
structure Transaction (Address Hash : Type) where
  sender : Address
  nonce : Nat
  eventHash : Hash

structure Node (Address Hash : Type) where
  log : AuditLog Address Hash
  /-- How many transactions of an account are in blocks. -/
  transactionCount : Address → Nat := fun _ => 0
  pending : List (Transaction Address Hash) := []

namespace Node

variable (node : Node Address Hash)

def sameSlot (tx other : Transaction Address Hash) : Bool :=
  other.sender = tx.sender && other.nonce = tx.nonce

/-- A nonce that is used raises, and so may one that is pending. -/
def sendRawTransaction (tx : Transaction Address Hash) (replaces : Bool) : Node Address Hash :=
  if tx.nonce < node.transactionCount tx.sender then node
  else if node.pending.any (sameSlot tx) then
    if replaces then
      { node with pending := node.pending.map fun other => if sameSlot tx other then tx else other }
    else node
  else { node with pending := node.pending ++ [tx] }

/-- A revert undoes the call; the transaction is in the block all the same. -/
def mine (n : Nat) : Node Address Hash :=
  match node.pending[n]? with
  | none => node
  | some tx =>
      if tx.nonce = node.transactionCount tx.sender then
        { log := (node.log.logAccess tx.sender tx.eventHash).getD node.log
          transactionCount := Function.update node.transactionCount tx.sender (tx.nonce + 1)
          pending := node.pending.eraseIdx n }
      else node

def drop (n : Nat) : Node Address Hash := { node with pending := node.pending.eraseIdx n }

end Node

/-! ## The trail -/

section Trail

variable (parsers : Host → Source → Parser) (keccak : ByteArray → Hash) (account : Address)

def eventHash (event : AuditEvent) : Option Hash := (packed event).map keccak

def submitEvent (node : Node Address Hash) (event : AuditEvent) (answers replaces : Bool) :
    Node Address Hash :=
  match eventHash keccak event with
  | none => node
  | some hash =>
      if answers then
        node.sendRawTransaction ⟨account, node.transactionCount account, hash⟩ replaces
      else node

structure Trail (Address Hash : Type) where
  watcher : Watcher := {}
  /-- How many of the watcher's events `submit_event` is done with. -/
  handled : Nat := 0
  node : Node Address Hash

inductive Step (Hash : Type) (account : Address) where
  | arrival (arrival : Arrival)
  /-- `submit_event` of the next event; `answers` says whether the node does, each time.
  Between its question and the transaction it sends nothing of the account can be mined,
  unless something is pending, and then the event is lost either way. -/
  | submit (answers replaces : Bool)
  | sent (tx : Transaction Address Hash) (replaces : Bool) (foreign : tx.sender ≠ account)
  | mine (n : Nat)
  | drop (n : Nat)

def follow (trail : Trail Address Hash) : Step Hash account → Trail Address Hash
  | .arrival arrival => { trail with watcher := wake parsers trail.watcher arrival }
  | .submit answers replaces =>
      match trail.watcher.submitted[trail.handled]? with
      | none => trail
      | some event => { trail with
          handled := trail.handled + 1
          node := submitEvent keccak account trail.node event answers replaces }
  | .sent tx replaces _ => { trail with node := trail.node.sendRawTransaction tx replaces }
  | .mine n => { trail with node := trail.node.mine n }
  | .drop n => { trail with node := trail.node.drop n }

/-- From the deployment on. -/
def trail : System (Trail Address Hash) (Step Hash account) :=
  ⟨{ node := { log := .deployed account } }, follow parsers keccak account⟩

/-! ## What is on the chain and on its way -/

def Node.isOwn (tx : Transaction Address Hash) : Bool := tx.sender = account

/-- The hashes emitted, and those pending for the account. -/
def Node.hashes (node : Node Address Hash) : List Hash :=
  node.log.emitted.map SecretAccess.eventHash ++
    (node.pending.filter (Node.isOwn account)).map Transaction.eventHash

def Trail.handledEvents (st : Trail Address Hash) : List AuditEvent :=
  st.watcher.submitted.take st.handled

/-- Steps that lose an event: it has no hash, the node does not answer, the one before it
is pending, or it is dropped. -/
def loses (st : Trail Address Hash) : Step Hash account → Bool
  | .submit answers _ =>
      match st.watcher.submitted[st.handled]? with
      | none => false
      | some event =>
          (packed event).isNone || !answers || st.node.pending.any (Node.isOwn account)
  | .drop n => (st.node.pending[n]?).any (Node.isOwn account)
  | .arrival _ | .sent .. | .mine _ => false

/-- The account has at most one transaction pending, and its nonce is due. -/
structure Accounted (node : Node Address Hash) : Prop where
  owner : node.log.owner = account
  reporters : ∀ access ∈ node.log.emitted, access.reporter = account
  due : ∀ tx ∈ node.pending, tx.sender = account → tx.nonce = node.transactionCount account
  alone : (node.pending.filter (Node.isOwn account)).length ≤ 1

end Trail

variable {account : Address} {node : Node Address Hash}

/-! ## One step -/

theorem isOwn_iff {tx : Transaction Address Hash} : Node.isOwn account tx = true ↔ tx.sender = account :=
  decide_eq_true_iff

/-- What sending a transaction of the account does to its hashes. -/
inductive Sending (account : Address) (node : Node Address Hash) (hash : Hash) :
    Node Address Hash → Prop where
  | added (after : Node Address Hash) (free : ¬ ∃ tx ∈ node.pending, tx.sender = account)
      (hashes : after.hashes account = node.hashes account ++ [hash]) : Sending account node hash after
  | refused (busy : ∃ tx ∈ node.pending, tx.sender = account) : Sending account node hash node
  | replaced (after : Node Address Hash) (busy : ∃ tx ∈ node.pending, tx.sender = account)
      (length : (after.hashes account).length = (node.hashes account).length)
      (hashes : after.hashes account = node.log.emitted.map SecretAccess.eventHash ++ [hash]) :
      Sending account node hash after

namespace Accounted

variable (a : Accounted account node)

include a

theorem own_pending {tx : Transaction Address Hash} (pending : tx ∈ node.pending)
    (own : tx.sender = account) : node.pending.filter (Node.isOwn account) = [tx] := by
  have listed : tx ∈ node.pending.filter (Node.isOwn account) :=
    List.mem_filter.mpr ⟨pending, isOwn_iff.mpr own⟩
  obtain ⟨only, isOnly⟩ := List.length_eq_one_iff.mp
    (le_antisymm a.alone (List.length_pos_of_mem listed))
  rw [isOnly] at listed ⊢
  rw [List.mem_singleton.mp listed]

/-- The slot of the account's next nonce is taken iff anything of it is pending. -/
theorem slot_taken (hash : Hash) :
    node.pending.any (Node.sameSlot ⟨account, node.transactionCount account, hash⟩) = true ↔
      ∃ tx ∈ node.pending, tx.sender = account := by
  simp only [List.any_eq_true, Node.sameSlot, Bool.and_eq_true, decide_eq_true_eq]
  constructor
  · rintro ⟨tx, pending, own, -⟩
    exact ⟨tx, pending, own⟩
  · rintro ⟨tx, pending, own⟩
    exact ⟨tx, pending, own, a.due tx pending own⟩

theorem send (hash : Hash) (replaces : Bool) :
    Accounted account (node.sendRawTransaction ⟨account, node.transactionCount account, hash⟩ replaces) ∧
      Sending account node hash
        (node.sendRawTransaction ⟨account, node.transactionCount account, hash⟩ replaces) := by
  unfold Node.sendRawTransaction
  rw [if_neg (lt_irrefl _)]
  by_cases busy : ∃ tx ∈ node.pending, tx.sender = account
  · rw [if_pos ((a.slot_taken hash).mpr busy)]
    cases replaces with
    | false => exact ⟨a, .refused busy⟩
    | true =>
        obtain ⟨old, pending, own⟩ := busy
        -- the one transaction of the account gives way to the new one
        have isNew : (node.pending.map fun other =>
              if Node.sameSlot ⟨account, node.transactionCount account, hash⟩ other then
                (⟨account, node.transactionCount account, hash⟩ : Transaction Address Hash)
              else other).filter (Node.isOwn account) =
            [⟨account, node.transactionCount account, hash⟩] := by
          have sameOwner : node.pending.filter (Node.isOwn account ∘ fun other =>
                if Node.sameSlot ⟨account, node.transactionCount account, hash⟩ other then
                  (⟨account, node.transactionCount account, hash⟩ : Transaction Address Hash)
                else other) = [old] := by
            rw [← a.own_pending pending own]
            apply List.filter_congr
            intro other _
            by_cases slot : Node.sameSlot ⟨account, node.transactionCount account, hash⟩ other = true
            · have mine : other.sender = account := by
                simp only [Node.sameSlot, Bool.and_eq_true, decide_eq_true_eq] at slot
                exact slot.1
              simp [slot, Node.isOwn, mine]
            · simp [slot]
          have slot : Node.sameSlot ⟨account, node.transactionCount account, hash⟩ old = true := by
            simp [Node.sameSlot, own, a.due old pending own]
          rw [List.filter_map, sameOwner, List.map_singleton, if_pos slot]
        refine ⟨⟨a.owner, a.reporters, ?_, ?_⟩, .replaced _ ⟨old, pending, own⟩ ?_ ?_⟩
        · intro tx listed mine
          have single := List.mem_filter.mpr ⟨listed, isOwn_iff.mpr mine⟩
          rw [if_pos rfl, isNew] at single
          rw [List.mem_singleton.mp single]
          rfl
        · rw [if_pos rfl]
          exact le_of_eq (congrArg List.length isNew)
        · rw [if_pos rfl, Node.hashes, Node.hashes, isNew, a.own_pending pending own]
          simp
        · rw [if_pos rfl, Node.hashes, isNew]
          rfl
  · rw [if_neg fun taken => busy ((a.slot_taken hash).mp taken)]
    have noneOwn : node.pending.filter (Node.isOwn account) = [] := by
      rw [List.filter_eq_nil_iff]
      intro tx pending own
      exact busy ⟨tx, pending, isOwn_iff.mp own⟩
    have isNew : (node.pending ++ [(⟨account, node.transactionCount account, hash⟩ :
        Transaction Address Hash)]).filter (Node.isOwn account) =
          [⟨account, node.transactionCount account, hash⟩] := by
      rw [List.filter_append, noneOwn]
      simp [Node.isOwn]
    refine ⟨⟨a.owner, a.reporters, ?_, ?_⟩, .added _ busy ?_⟩
    · intro tx listed mine
      have single := List.mem_filter.mpr ⟨listed, isOwn_iff.mpr mine⟩
      rw [isNew] at single
      rw [List.mem_singleton.mp single]
    · exact le_of_eq (congrArg List.length isNew)
    · rw [Node.hashes, Node.hashes, isNew, noneOwn, List.map_nil, List.append_nil]
      rfl

/-- Others' transactions change nothing of the account. -/
theorem foreign {after : Node Address Hash} (log : after.log = node.log)
    (count : after.transactionCount account = node.transactionCount account)
    (own : after.pending.filter (Node.isOwn account) = node.pending.filter (Node.isOwn account)) :
    Accounted account after ∧ after.hashes account = node.hashes account := by
  refine ⟨⟨log ▸ a.owner, log ▸ a.reporters, ?_, own ▸ a.alone⟩, ?_⟩
  · intro tx listed mine
    have before := List.mem_filter.mpr ⟨listed, isOwn_iff.mpr mine⟩
    rw [own] at before
    rw [count]
    exact a.due tx (List.mem_filter.mp before).1 mine
  · rw [Node.hashes, Node.hashes, log, own]

theorem sendForeign {tx : Transaction Address Hash} (other : tx.sender ≠ account) (replaces : Bool) :
    Accounted account (node.sendRawTransaction tx replaces) ∧
      (node.sendRawTransaction tx replaces).hashes account = node.hashes account := by
  have notOwn : Node.isOwn account tx = false := decide_eq_false other
  unfold Node.sendRawTransaction
  split
  · exact ⟨a, rfl⟩
  split
  · split
    · refine a.foreign ?_ ?_ ?_
      · rfl
      · rfl
      have slotless : ∀ old, Node.isOwn account old = true → Node.sameSlot tx old = false := by
        intro old own
        have differ : old.sender ≠ tx.sender := fun same => other (same.symm.trans (isOwn_iff.mp own))
        simp [Node.sameSlot, differ]
      dsimp only
      induction node.pending with
      | nil => rfl
      | cons old rest ih =>
          cases own : Node.isOwn account old with
          | true =>
              rw [List.map_cons, slotless old own, List.filter_cons_of_pos own]
              simpa [own] using ih
          | false =>
              have still : ¬ Node.isOwn account (if Node.sameSlot tx old then tx else old) = true := by
                split
                · simp [notOwn]
                · simp [own]
              rw [List.map_cons, List.filter_cons_of_neg still, List.filter_cons_of_neg (by simp [own])]
              exact ih
    · exact ⟨a, rfl⟩
  · refine a.foreign ?_ ?_ ?_
    · rfl
    · rfl
    · rw [List.filter_append, List.filter_singleton, notOwn]
      exact List.append_nil _

/-- What leaves the pending transactions at a position. -/
theorem filter_eraseIdx {n : Nat} {tx : Transaction Address Hash} (at_ : node.pending[n]? = some tx) :
    (tx.sender = account → node.pending.filter (Node.isOwn account) = [tx] ∧
        (node.pending.eraseIdx n).filter (Node.isOwn account) = []) ∧
      (tx.sender ≠ account → (node.pending.eraseIdx n).filter (Node.isOwn account) =
        node.pending.filter (Node.isOwn account)) := by
  obtain ⟨before, later, isTable, isErased⟩ := eraseIdx_split at_
  constructor
  · intro own
    have single := a.own_pending (List.mem_of_getElem? at_) own
    refine ⟨single, ?_⟩
    have count := congrArg List.length single
    rw [isTable, List.filter_append, List.filter_cons_of_pos (isOwn_iff.mpr own), List.length_append,
      List.length_cons, List.length_singleton] at count
    rw [isErased, List.filter_append, ← List.length_eq_zero_iff, List.length_append]
    omega
  · intro other
    have notOwn : ¬ Node.isOwn account tx = true := fun own => other (isOwn_iff.mp own)
    rw [isErased, isTable, List.filter_append, List.filter_append, List.filter_cons_of_neg notOwn]

theorem mine (n : Nat) :
    Accounted account (node.mine n) ∧ (node.mine n).hashes account = node.hashes account := by
  unfold Node.mine
  cases at_ : node.pending[n]? with
  | none => exact ⟨a, rfl⟩
  | some tx =>
      dsimp only
      by_cases isDue : tx.nonce = node.transactionCount tx.sender
      · rw [if_pos isDue]
        by_cases own : tx.sender = account
        · obtain ⟨before, after⟩ := (a.filter_eraseIdx at_).1 own
          have passes : ¬ account ≠ node.log.owner := not_not.mpr a.owner.symm
          rw [own, AuditLog.logAccess, if_neg passes]
          refine ⟨⟨a.owner, ?_, ?_, ?_⟩, ?_⟩
          · intro access listed
            rcases List.mem_append.mp listed with old | new
            · exact a.reporters access old
            · rw [List.mem_singleton.mp new]
          · intro other listed mine
            have single := List.mem_filter.mpr ⟨listed, isOwn_iff.mpr mine⟩
            rw [after] at single
            cases single
          · rw [after]
            exact Nat.zero_le 1
          · rw [Node.hashes, Node.hashes, before, after]
            simp
        · have reverts : tx.sender ≠ node.log.owner := fun same => own (same.trans a.owner)
          rw [AuditLog.logAccess, if_pos reverts]
          exact a.foreign rfl (Function.update_of_ne (Ne.symm own) _ _)
            ((a.filter_eraseIdx at_).2 own)
      · rw [if_neg isDue]
        exact ⟨a, rfl⟩

theorem drop (n : Nat) :
    Accounted account (node.drop n) ∧
      ((∃ tx, (node.pending[n]? = some tx ∧ tx.sender = account) ∧
          node.hashes account = (node.drop n).hashes account ++ [tx.eventHash]) ∨
        ((¬ ∃ tx, node.pending[n]? = some tx ∧ tx.sender = account) ∧
          (node.drop n).hashes account = node.hashes account)) := by
  unfold Node.drop
  cases at_ : node.pending[n]? with
  | none =>
      have same : node.pending.eraseIdx n = node.pending :=
        List.eraseIdx_of_length_le (List.getElem?_eq_none_iff.mp at_)
      rw [same]
      exact ⟨a, Or.inr ⟨by simp, rfl⟩⟩
  | some tx =>
      by_cases own : tx.sender = account
      · obtain ⟨before, after⟩ := (a.filter_eraseIdx at_).1 own
        refine ⟨⟨a.owner, a.reporters, ?_, ?_⟩, Or.inl ⟨tx, ⟨rfl, own⟩, ?_⟩⟩
        · intro other listed mine
          have single := List.mem_filter.mpr ⟨listed, isOwn_iff.mpr mine⟩
          rw [after] at single
          cases single
        · rw [after]
          exact Nat.zero_le 1
        · rw [Node.hashes, Node.hashes, before, after]
          simp
      · have kept : Accounted account { node with pending := node.pending.eraseIdx n } ∧ _ :=
          a.foreign rfl rfl ((a.filter_eraseIdx at_).2 own)
        refine ⟨kept.1, Or.inr ⟨?_, kept.2⟩⟩
        rintro ⟨other, same, mine⟩
        cases same
        exact own mine

end Accounted

/-! ## Every run -/

section Runs

variable {parsers : Host → Source → Parser} {keccak : ByteArray → Hash}
  {steps : List (Step Hash account)}

/-- The steps of a run that lost an event. -/
def lostIn (parsers : Host → Source → Parser) (keccak : ByteArray → Hash)
    (steps : List (Step Hash account)) : Nat :=
  (trail parsers keccak account).observe
    (fun st step lost => if loses account st step then lost + 1 else lost) 0 steps

/-- Every handled event is on the chain, pending, or lost. -/
structure Follows (keccak : ByteArray → Hash) (account : Address) (st : Trail Address Hash)
    (lost : Nat) : Prop where
  node : Accounted account st.node
  handled : st.handled ≤ st.watcher.submitted.length
  inOrder : (st.node.hashes account).Sublist (st.handledEvents.filterMap (eventHash keccak))
  balance : (st.node.hashes account).length + lost = st.handled
  complete : lost = 0 → (st.node.hashes account).map some = st.handledEvents.map (eventHash keccak)

omit [DecidableEq Address] in
theorem handledEvents_next {st : Trail Address Hash} {event : AuditEvent}
    (next : st.watcher.submitted[st.handled]? = some event) (node : Node Address Hash) :
    Trail.handledEvents { st with handled := st.handled + 1, node := node } =
      st.handledEvents ++ [event] := by
  rw [Trail.handledEvents, List.take_add_one, next, Trail.handledEvents]
  rfl

namespace Follows

variable {st : Trail Address Hash} {lost : Nat} (f : Follows keccak account st lost)

include f

theorem arrived (arrival : Arrival) :
    Follows keccak account { st with watcher := wake parsers st.watcher arrival } lost := by
  obtain ⟨more, longer⟩ : ∃ more, (wake parsers st.watcher arrival).submitted =
      st.watcher.submitted ++ more := by
    unfold wake
    split
    · exact ⟨[], (List.append_nil _).symm⟩
    · exact ⟨_, rfl⟩
  have same : (wake parsers st.watcher arrival).submitted.take st.handled = st.handledEvents := by
    rw [longer, List.take_append_of_le_length f.handled, Trail.handledEvents]
  refine ⟨f.node, ?_, ?_, f.balance, ?_⟩
  · show st.handled ≤ (wake parsers st.watcher arrival).submitted.length
    rw [longer, List.length_append]
    exact le_trans f.handled (Nat.le_add_right _ _)
  · rw [Trail.handledEvents, same]
    exact f.inOrder
  · rw [Trail.handledEvents, same]
    exact f.complete

/-- The node changed, and the account's hashes with it or not. -/
theorem nodeChanged {node : Node Address Hash} (accounted : Accounted account node)
    (hashes : node.hashes account = st.node.hashes account) :
    Follows keccak account { st with node := node } lost :=
  ⟨accounted, f.handled, hashes ▸ f.inOrder, hashes ▸ f.balance, hashes ▸ f.complete⟩

theorem dropped {node : Node Address Hash} (accounted : Accounted account node) {hash : Hash}
    (hashes : st.node.hashes account = node.hashes account ++ [hash]) :
    Follows keccak account { st with node := node } (lost + 1) := by
  refine ⟨accounted, f.handled, ?_, ?_, fun none_ => absurd none_ (Nat.succ_ne_zero _)⟩
  · have shorter : (node.hashes account).Sublist (st.node.hashes account) := by
      rw [hashes]
      exact List.sublist_append_left _ _
    exact shorter.trans f.inOrder
  · have balance := f.balance
    rw [hashes, List.length_append, List.length_singleton] at balance
    show (node.hashes account).length + (lost + 1) = st.handled
    omega

section Submit

variable {event : AuditEvent} (next : st.watcher.submitted[st.handled]? = some event)

include next

/-- The event handled is lost; the transaction pending may be lost in its place. -/
theorem lostNext {node : Node Address Hash} (accounted : Accounted account node)
    (length : (node.hashes account).length = (st.node.hashes account).length)
    (inOrder : (node.hashes account).Sublist
      ((st.handledEvents ++ [event]).filterMap (eventHash keccak))) :
    Follows keccak account { st with handled := st.handled + 1, node := node } (lost + 1) := by
  have inside : st.handled < st.watcher.submitted.length := (List.getElem?_eq_some_iff.mp next).1
  refine ⟨accounted, inside, ?_, ?_, fun none_ => absurd none_ (Nat.succ_ne_zero _)⟩
  · rw [handledEvents_next next]
    exact inOrder
  · show (node.hashes account).length + (lost + 1) = st.handled + 1
    rw [length, ← f.balance, Nat.add_assoc]

/-- Nothing of the account is pending: the event's transaction is. -/
theorem addedNext {node : Node Address Hash} (accounted : Accounted account node) {hash : Hash}
    (hashed : eventHash keccak event = some hash)
    (hashes : node.hashes account = st.node.hashes account ++ [hash]) :
    Follows keccak account { st with handled := st.handled + 1, node := node } lost := by
  have inside : st.handled < st.watcher.submitted.length := (List.getElem?_eq_some_iff.mp next).1
  refine ⟨accounted, inside, ?_, ?_, ?_⟩
  · rw [handledEvents_next next, hashes, List.filterMap_append, List.filterMap_cons_some hashed]
    exact f.inOrder.append (List.Sublist.refl _)
  · have balance := f.balance
    show (node.hashes account).length + lost = st.handled + 1
    rw [hashes, List.length_append, List.length_singleton]
    omega
  · intro none_
    rw [handledEvents_next next, hashes, List.map_append, List.map_append, f.complete none_,
      List.map_singleton, List.map_singleton, hashed]

theorem submitted (answers replaces : Bool) :
    Follows keccak account { st with
        handled := st.handled + 1
        node := submitEvent keccak account st.node event answers replaces }
      (if (packed event).isNone || !answers || st.node.pending.any (Node.isOwn account) then lost + 1
        else lost) := by
  have later : (st.node.hashes account).Sublist
      ((st.handledEvents ++ [event]).filterMap (eventHash keccak)) := by
    rw [List.filterMap_append]
    exact f.inOrder.trans (List.sublist_append_left _ _)
  unfold submitEvent
  cases bytes : packed event with
  | none =>
      simp only [eventHash, bytes, Option.map_none]
      exact f.lostNext next f.node rfl later
  | some packedBytes =>
      have hashed : eventHash keccak event = some (keccak packedBytes) := by rw [eventHash, bytes]; rfl
      rw [hashed]
      cases answers with
      | false => exact f.lostNext next f.node rfl later
      | true =>
          obtain ⟨accounted, sending⟩ := f.node.send (keccak packedBytes) replaces
          simp only [if_true]
          generalize st.node.sendRawTransaction _ replaces = after at accounted sending
          have busy_iff : st.node.pending.any (Node.isOwn account) = true ↔
              ∃ tx ∈ st.node.pending, tx.sender = account := by
            simp only [List.any_eq_true, isOwn_iff]
          cases sending with
          | added _ free hashes =>
              have isFree : st.node.pending.any (Node.isOwn account) = false :=
                Bool.eq_false_iff.mpr fun busy => free (busy_iff.mp busy)
              rw [isFree]
              exact f.addedNext next accounted hashed hashes
          | refused busy =>
              rw [busy_iff.mpr busy]
              exact f.lostNext next f.node rfl later
          | replaced _ busy length hashes =>
              rw [busy_iff.mpr busy]
              refine f.lostNext next accounted length ?_
              have emitted : (st.node.log.emitted.map SecretAccess.eventHash).Sublist
                  (st.handledEvents.filterMap (eventHash keccak)) :=
                (List.sublist_append_left _ _).trans f.inOrder
              rw [hashes, List.filterMap_append, List.filterMap_cons_some hashed]
              exact emitted.append (List.Sublist.refl _)

end Submit

end Follows

theorem follows (steps : List (Step Hash account)) :
    Follows keccak account ((trail parsers keccak account).run steps)
      (lostIn parsers keccak steps) := by
  refine (trail parsers keccak account).observe_invariant (P := Follows keccak account) ?_ ?_ steps
  · exact ⟨⟨rfl, by simp [trail, AuditLog.deployed], by simp [trail], Nat.zero_le 1⟩, le_refl 0,
      List.Sublist.refl _, rfl, fun _ => rfl⟩
  · intro st step lost f
    cases step with
    | arrival arrival => exact f.arrived arrival
    | submit answers replaces =>
        cases next : st.watcher.submitted[st.handled]? with
        | none =>
            simp only [trail, follow, loses, next]
            exact f
        | some event =>
            simpa only [trail, follow, loses, next] using f.submitted next answers replaces
    | sent tx replaces foreign =>
        obtain ⟨accounted, hashes⟩ := f.node.sendForeign foreign replaces
        exact f.nodeChanged accounted hashes
    | mine n =>
        obtain ⟨accounted, hashes⟩ := f.node.mine n
        exact f.nodeChanged accounted hashes
    | drop n =>
        obtain ⟨accounted, ⟨tx, ⟨at_, own⟩, hashes⟩ | ⟨other, hashes⟩⟩ := f.node.drop n
        · have lost_ : loses account st (.drop n : Step Hash account) = true := by
            rw [loses, at_]
            exact isOwn_iff.mpr own
          rw [if_pos lost_]
          exact f.dropped accounted hashes
        · have kept : ¬ loses account st (.drop n : Step Hash account) = true := by
            rw [loses, Option.any_eq_true]
            rintro ⟨tx, at_, own⟩
            exact other ⟨tx, at_, isOwn_iff.mp own⟩
          rw [if_neg kept]
          exact f.nodeChanged accounted hashes

theorem lostIn_eq_zero : lostIn parsers keccak steps = 0 ↔
    EachStep (fun earlier step =>
      loses account ((trail parsers keccak account).run earlier) step = false) steps := by
  induction steps using List.reverseRecOn with
  | nil => simp [lostIn, System.observe, EachStep]
  | append_singleton steps step ih =>
      rw [eachStep_snoc, ← ih, lostIn, System.observe_snoc, ← lostIn]
      cases loses account ((trail parsers keccak account).run steps) step with
      | true => simp
      | false => simp

/-- **What the contract has emitted is the trail of the logs**, in every run: hashes of
events the watcher submitted, each once and in their order, all reported by the owner,
whatever others send.  What is not on the chain of the events handled is the one
transaction that may be pending and the events lost, one to a step that loses one. -/
theorem trail_faithful (parsers : Host → Source → Parser) (keccak : ByteArray → Hash)
    (steps : List (Step Hash account)) :
    let st := (trail parsers keccak account).run steps
    (∀ access ∈ st.node.log.emitted, access.reporter = account) ∧
      (st.node.log.emitted.map SecretAccess.eventHash).Sublist
        (st.watcher.submitted.filterMap (eventHash keccak)) ∧
      (st.node.pending.filter (Node.isOwn account)).length ≤ 1 ∧
      st.node.log.emitted.length + (st.node.pending.filter (Node.isOwn account)).length +
        lostIn parsers keccak steps = st.handled := by
  intro st
  have f : Follows keccak account st (lostIn parsers keccak steps) := follows steps
  refine ⟨f.node.reporters, ?_, f.node.alone, ?_⟩
  · have handled := (List.take_sublist st.handled st.watcher.submitted).filterMap (eventHash keccak)
    exact ((List.sublist_append_left _ _).trans f.inOrder).trans handled
  · simpa [Node.hashes] using f.balance

/-- **The trail is complete iff no step lost an event**: the hashes emitted and pending are
those of all events handled exactly if each of these had a hash, met a node that answered
and none of the account's transactions still pending, and none was dropped. -/
theorem trail_complete_iff (parsers : Host → Source → Parser) (keccak : ByteArray → Hash)
    (steps : List (Step Hash account)) :
    (((trail parsers keccak account).run steps).node.hashes account).map some =
        ((trail parsers keccak account).run steps).handledEvents.map (eventHash keccak) ↔
      EachStep (fun earlier step =>
        loses account ((trail parsers keccak account).run earlier) step = false) steps := by
  have f : Follows keccak account _ (lostIn parsers keccak steps) := follows steps
  rw [← lostIn_eq_zero]
  refine ⟨fun same => ?_, f.complete⟩
  have lengths := congrArg List.length same
  rw [List.length_map, List.length_map, Trail.handledEvents,
    List.length_take_of_le f.handled] at lengths
  have balance := f.balance
  omega

end Runs

end SecureMsg.Audit.Chain
