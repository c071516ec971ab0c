/-
# Groups.ConcurrentKeys — sender keys stored and popped at the same time

`store_skdms` and `add_member` move the epoch of a group with an `UPDATE` that
holds the row until the commit, and stamp their keys with the epoch it returned;
`pop_skdms_for_user` is one `DELETE ... RETURNING`, which takes the rows of its
snapshot one at a time and passes over those another pop has taken.  This module
runs any number of the three statement by statement (`keyring`).

`stores_serialise`: whatever the interleaving, the stores that committed, done one
after another in the order of their commits, give the groups, the memberships and
the epochs of the committed database, and each batch was stamped with the epoch
its own store moved the group to.  The keys they stored are those still pending
and those handed out, each once.
-/
import SecureMsg.Theory.Locks
import SecureMsg.Repository.Operation

namespace SecureMsg.Groups

open SecureMsg.Theory SecureMsg.Store SecureMsg.Repository

set_option autoImplicit false

namespace Keyring

/-! ## The transactions -/

/-- The calls that store a batch of keys. -/
inductive Batching where
  | storeSkdms (groupId : GroupId) (skdmCiphertexts : Ciphertexts)
  | addMember (groupId : GroupId) (requesterId userId : UserId) (skdmCiphertext : Bytes)
  deriving DecidableEq

namespace Batching

def groupId : Batching → GroupId
  | .storeSkdms groupId _ => groupId
  | .addMember groupId _ _ _ => groupId

/-- What the call hands to `_store_skdms`. -/
def skdmCiphertexts : Batching → Ciphertexts
  | .storeSkdms _ skdmCiphertexts => skdmCiphertexts
  | .addMember _ _ userId skdmCiphertext => Dict.singleton userId skdmCiphertext

def operation : Batching → Operation
  | .storeSkdms groupId skdmCiphertexts => .storeSkdms groupId skdmCiphertexts
  | .addMember groupId requesterId userId skdmCiphertext =>
      .addMember groupId requesterId userId skdmCiphertext

/-- The rows stamped with `epoch`. -/
def rows (call : Batching) (epoch : Int) : List SenderKeyDistribution :=
  skdmRows call.groupId epoch call.skdmCiphertexts

end Batching

inductive Call where
  | batching (call : Batching)
  /-- `plan` stands for the query plan, which settles the order of the rows. -/
  | popSkdmsForUser (userId : UserId) (groupId : GroupId) (plan : Nat)
  deriving DecidableEq

/-- The order in which a `DELETE` comes by the rows of its snapshot. -/
structure Scan where
  order : Nat → List SenderKeyDistribution → List SenderKeyDistribution
  perm : ∀ plan rows, (order plan rows).Perm rows

/-- In the order they are stored, whatever the plan. -/
def Scan.inOrder : Scan := ⟨fun _ rows => rows, fun _ rows => .refl rows⟩

inductive Point where
  /-- Before the `SELECT` of the creator. -/
  | selectCreator (groupId : GroupId) (requesterId userId : UserId) (skdmCiphertext : Bytes)
  /-- Before `INSERT ... ON CONFLICT DO NOTHING`. -/
  | insertMember (groupId : GroupId) (requesterId userId : UserId) (skdmCiphertext : Bytes)
  /-- Before `UPDATE groups ... RETURNING epoch`; `joined` are the memberships inserted. -/
  | updateEpoch (call : Batching) (joined : List GroupMember)
  /-- Before the flush of the rows. -/
  | insertSkdms (call : Batching) (joined : List GroupMember) (epoch : Int)
  | commit (call : Batching) (joined : List GroupMember) (epoch : Int)
  /-- Before the `DELETE` takes its snapshot. -/
  | selectPending (userId : UserId) (groupId : GroupId) (plan : Nat)
  /-- In the `DELETE`: the rows taken so far, and those of the snapshot still to come. -/
  | deletePending (userId : UserId) (groupId : GroupId)
      (taken pending : List SenderKeyDistribution)
  deriving DecidableEq

inductive Write where
  | insertMember (row : GroupMember)
  | bumpEpoch (groupId : GroupId)
  | insertSkdms (rows : List SenderKeyDistribution)
  | deleteSkdm (row : SenderKeyDistribution)
  deriving DecidableEq, Repr

/-- What the method did: the epoch of a batch, the rows of a pop. -/
inductive Answer where
  | stored (call : Batching) (epoch : Int)
  | popped (userId : UserId) (groupId : GroupId) (rows : List SenderKeyDistribution)
  | raised (e : Error)
  deriving DecidableEq

def writeKeyring (db : Database) : Write → Database
  | .insertMember row => { db with groupMembers := db.groupMembers ++ [row] }
  | .bumpEpoch groupId => db.updateGroup groupId Repository.bumpEpoch
  | .insertSkdms rows => { db with senderKeyDistributions := db.senderKeyDistributions ++ rows }
  | .deleteSkdm row => db.deleteSkdmsWhere fun other => other = row

def uniqueKey (row : SenderKeyDistribution) : UserId × GroupId × Int :=
  (row.recipientId, row.groupId, row.epoch)

/-- Two writes of one row, or of two rows with one key: the second has to wait. -/
def Write.clashes : Write → Write → Bool
  | .insertMember a, .insertMember b => a = b
  | .bumpEpoch g, .bumpEpoch h => g = h
  | .insertSkdms a, .insertSkdms b => a.any fun row => b.any fun other => uniqueKey row = uniqueKey other
  | .deleteSkdm a, .deleteSkdm b => a = b
  | _, _ => false

def blocked (wr : Write) (held : List Write) : Bool := held.any wr.clashes

variable (scan : Scan)

def nextKeyring (point : Point) (own : List Write) (view : Database) (held : List Write) :
    Action Database Point Write Answer :=
  match point with
  | .selectCreator groupId requesterId userId skdmCiphertext =>
      if isCreator view groupId requesterId then
        .proceed id (.insertMember groupId requesterId userId skdmCiphertext) own
      else .rollback (.raised (.permissionError "only the group creator can add members"))
  | .insertMember groupId requesterId userId skdmCiphertext =>
      if blocked (.insertMember ⟨groupId, userId⟩) held then .wait
      else match view.insertGroupMemberOrIgnore ⟨groupId, userId⟩ with
        | .error e => .rollback (.raised e)
        | .ok _ =>
            let joined := if view.IsMember groupId userId then [] else [⟨groupId, userId⟩]
            .proceed id (.updateEpoch (.addMember groupId requesterId userId skdmCiphertext) joined)
              (own ++ joined.map .insertMember)
  | .updateEpoch call joined =>
      match view.findGroup call.groupId with
      | none =>
          .rollback (.raised (.valueError ("group " ++ toString call.groupId ++ " does not exist")))
      | some row =>
          if blocked (.bumpEpoch call.groupId) held then .wait
          else .proceed id (.insertSkdms call joined (row.epoch + 1))
            (own ++ [.bumpEpoch call.groupId])
  | .insertSkdms call joined epoch =>
      if blocked (.insertSkdms (call.rows epoch)) held then .wait
      else match view.insertSenderKeyDistributions (call.rows epoch) with
        | .error e => .rollback (.raised e)
        | .ok _ => .proceed id (.commit call joined epoch) (own ++ [.insertSkdms (call.rows epoch)])
  | .commit call _ epoch => .commit (.stored call epoch)
  | .selectPending userId groupId plan =>
      .proceed id (.deletePending userId groupId []
        (scan.order plan (view.senderKeyDistributions.filter (pendingFor userId groupId)))) own
  | .deletePending userId groupId taken (row :: pending) =>
      -- a row that another pop deleted while this one waited is passed over
      if row ∉ view.senderKeyDistributions then
        .proceed id (.deletePending userId groupId taken pending) own
      else if blocked (.deleteSkdm row) held then .wait
      else .proceed id (.deletePending userId groupId (taken ++ [row]) pending)
        (own ++ [.deleteSkdm row])
  | .deletePending userId groupId taken [] => .commit (.popped userId groupId taken)

def keyringProgram : Program Database Point Write Answer := ⟨writeKeyring, nextKeyring scan⟩

abbrev KeyringWorld := World Database Point Write Answer
abbrev KeyringSession := Session Point Write Answer

def firstPoint : Call → Point
  | .batching (.storeSkdms groupId skdmCiphertexts) =>
      .updateEpoch (.storeSkdms groupId skdmCiphertexts) []
  | .batching (.addMember groupId requesterId userId skdmCiphertext) =>
      .selectCreator groupId requesterId userId skdmCiphertext
  | .popSkdmsForUser userId groupId plan => .selectPending userId groupId plan

/-- One session for each call, none of which has started. -/
def opened (db : Database) (calls : List Call) : KeyringWorld :=
  ⟨db, calls.map fun call => .running (firstPoint call) []⟩

def keyring (db : Database) (calls : List Call) : System KeyringWorld Nat :=
  (keyringProgram scan).system (opened db calls)

/-! ## What a statement sees -/

section Views

variable (db : Database)

theorem view_joined (joined : List GroupMember) :
    (keyringProgram scan).view db (joined.map .insertMember) =
      { db with groupMembers := db.groupMembers ++ joined } := by
  induction joined generalizing db with
  | nil => simp
  | cons row joined ih =>
      rw [List.map_cons, Program.view_cons, ih]
      simp [keyringProgram, writeKeyring]

theorem view_taken (taken : List SenderKeyDistribution) :
    (keyringProgram scan).view db (taken.map .deleteSkdm) =
      { db with senderKeyDistributions := db.senderKeyDistributions.filter (· ∉ taken) } := by
  induction taken generalizing db with
  | nil => simp
  | cons row taken ih =>
      rw [List.map_cons, Program.view_cons, ih]
      simp [keyringProgram, writeKeyring, Database.deleteSkdmsWhere, List.filter_filter, Bool.and_comm]

end Views

/-! ## A pop on its own -/

section Alone

variable {db : Database} {u : UserId} {g : GroupId}

/-- With no other session the rows are taken one after another. -/
theorem deletions_alone (taken pending : List SenderKeyDistribution)
    (stored : ∀ row ∈ pending, row ∈ db.senderKeyDistributions)
    (distinct : (taken ++ pending).Nodup) :
    (List.replicate (pending.length + 1) 0).foldl (keyringProgram scan).advance
        ⟨db, [.running (.deletePending u g taken pending) (taken.map .deleteSkdm)]⟩ =
      ⟨(keyringProgram scan).view db ((taken ++ pending).map .deleteSkdm),
        [.ended (.popped u g (taken ++ pending))]⟩ := by
  induction pending generalizing taken with
  | nil => simp [Program.advance, keyringProgram, nextKeyring]
  | cons row pending ih =>
      have new : row ∉ taken := fun already =>
        (List.nodup_append.mp distinct).2.2 row already row List.mem_cons_self rfl
      have there : row ∈ ((keyringProgram scan).view db
          (taken.map .deleteSkdm)).senderKeyDistributions := by
        rw [view_taken]
        simpa [new] using stored row List.mem_cons_self
      have stepped : (keyringProgram scan).advance
          ⟨db, [.running (.deletePending u g taken (row :: pending)) (taken.map .deleteSkdm)]⟩ 0 =
          ⟨db, [.running (.deletePending u g (taken ++ [row]) pending)
            ((taken ++ [row]).map .deleteSkdm)]⟩ := by
        simp only [Program.advance, List.getElem?_cons_zero]
        simp only [keyringProgram] at there ⊢
        simp [nextKeyring, there, blocked, Program.heldBesides]
      rw [List.length_cons, List.replicate_succ, List.foldl_cons, stepped,
        ih (taken ++ [row]) (fun r listed => stored r (List.mem_cons_of_mem _ listed))
          (by simpa using distinct)]
      simp

theorem pop_alone (c : Constraints db) (plan : Nat) :
    ∃ steps, (keyring scan db [.popSkdmsForUser u g plan]).run steps =
      ⟨(popSkdmsForUser db u g).1, [.ended (.popped u g
        (scan.order plan (db.senderKeyDistributions.filter (pendingFor u g))))]⟩ := by
  have sameRows := scan.perm plan (db.senderKeyDistributions.filter (pendingFor u g))
  generalize isRows : scan.order plan (db.senderKeyDistributions.filter (pendingFor u g)) = rows
    at sameRows
  refine ⟨0 :: List.replicate (rows.length + 1) 0, ?_⟩
  have selected : (keyringProgram scan).advance (opened db [.popSkdmsForUser u g plan]) 0 =
      ⟨db, [.running (.deletePending u g [] rows) []]⟩ := by
    simp [Program.advance, opened, firstPoint, keyringProgram, nextKeyring, isRows]
  have stored : ∀ row ∈ rows, row ∈ db.senderKeyDistributions :=
    fun row listed => List.mem_of_mem_filter (sameRows.mem_iff.mp listed)
  have distinct : ([] ++ rows).Nodup :=
    sameRows.nodup_iff.mpr (c.senderKeyDistributions.of_map.filter _)
  have taken := deletions_alone scan (u := u) (g := g) [] rows stored distinct
  rw [keyring, System.run, List.foldl_cons, Program.system_step, Program.system_init, selected]
  refine taken.trans ?_
  rw [view_taken, List.nil_append, popSkdmsForUser, Database.deleteSkdmsWhere]
  congr 2
  refine List.filter_congr fun row stored => ?_
  have listed : row ∈ rows ↔ pendingFor u g row = true := by
    rw [sameRows.mem_iff, List.mem_filter, and_iff_right stored]
  cases mine : pendingFor u g row <;> simp [listed, mine]

end Alone

/-! ## The order of the commits -/

/-- Beside a run: the batches that have committed, with their epochs, oldest first; and
of each pop the rows of its snapshot. -/
structure Ledger where
  batches : List (Batching × Int) := []
  snapshots : Nat → List SenderKeyDistribution := fun _ => []

def noteLedger (W : KeyringWorld) (n : Nat) (ledger : Ledger) : Ledger :=
  match W.sessions[n]? with
  | some (.running (.commit call _ epoch) _) =>
      { ledger with batches := ledger.batches ++ [(call, epoch)] }
  | some (.running (.selectPending userId groupId _) _) => { ledger with
      snapshots := Function.update ledger.snapshots n
        (W.committed.senderKeyDistributions.filter (pendingFor userId groupId)) }
  | _ => ledger

def ledgerOf (db : Database) (calls : List Call) (schedule : List Nat) : Ledger :=
  (keyring scan db calls).observe noteLedger {} schedule

/-- The batches done one after another, and no key taken. -/
def inTurn (db : Database) (batches : List (Batching × Int)) : Database :=
  batches.foldl (fun db entry => commit db entry.1.operation) db

@[simp] theorem inTurn_snoc (db : Database) (batches : List (Batching × Int))
    (entry : Batching × Int) :
    inTurn db (batches ++ [entry]) = commit (inTurn db batches) entry.1.operation :=
  List.foldl_concat ..

/-- The memberships a call has inserted when it comes to the epoch. -/
def Joins (db : Database) : Batching → List GroupMember → Prop
  | .storeSkdms .., joined => joined = []
  | .addMember g r u _, joined => isCreator db g r = true ∧
      db.insertGroupMemberOrIgnore ⟨g, u⟩ = .ok { db with groupMembers := db.groupMembers ++ joined }

/-- The database after a batch. -/
def afterBatch (db : Database) (call : Batching) (joined : List GroupMember) (row : Group) :
    Database :=
  { db.updateGroup call.groupId bumpEpoch with
    groupMembers := db.groupMembers ++ joined
    senderKeyDistributions := db.senderKeyDistributions ++ call.rows (row.epoch + 1) }

section Batches

variable {db : Database} {call : Batching} {joined : List GroupMember} {row : Group}

theorem storeSkdmsUncommitted_eq {g : GroupId} {K : Ciphertexts}
    (distinct : (db.senderKeyDistributions.map uniqueKey).Nodup) (within : PendingWithinEpoch db)
    (found : db.findGroup g = some row) (known : ∀ uid ∈ K.keys, uid ∈ db.userIds) :
    storeSkdmsUncommitted db g K = .ok { db.updateGroup g bumpEpoch with
      senderKeyDistributions := db.senderKeyDistributions ++ skdmRows g (row.epoch + 1) K } := by
  obtain ⟨stored, rfl⟩ := Database.findGroup_some found
  have unused : ∀ pending ∈ db.senderKeyDistributions, pending.groupId = row.id →
      pending.epoch ≠ row.epoch + 1 := by
    intro pending inTable same
    have behind := within pending inTable row stored same.symm
    omega
  obtain ⟨after, done⟩ := storeSkdmsUncommitted_ok_iff.mpr
    ⟨row, found, known, skdmKeys_nodup distinct unused⟩
  obtain ⟨row', found', -, rfl⟩ := storeSkdmsUncommitted_ok done
  rw [found] at found'
  cases found'
  exact done

/-- What the method does where the database is as the call has found it. -/
theorem perform_batching (sound : Sound db) (joins : Joins db call joined)
    (found : db.findGroup call.groupId = some row)
    (known : ∀ uid ∈ call.skdmCiphertexts.keys, uid ∈ db.userIds) :
    perform db call.operation = .ok (afterBatch db call joined row) := by
  have distinct := sound.constraints.senderKeyDistributions
  cases call with
  | storeSkdms g K =>
      cases joins
      refine (storeSkdmsUncommitted_eq distinct sound.epochs found known).trans ?_
      simp only [afterBatch, Batching.groupId, Batching.rows, Batching.skdmCiphertexts,
        List.append_nil]
      rfl
  | addMember g r u skdmCiphertext =>
      obtain ⟨creator, inserted⟩ := joins
      simp only [Batching.operation, perform, addMember, creator, if_true, inserted]
      have within : PendingWithinEpoch { db with groupMembers := db.groupMembers ++ joined } :=
        sound.epochs
      exact storeSkdmsUncommitted_eq distinct within found known

theorem findGroup_batched (g : GroupId) : (afterBatch db call joined row).findGroup g =
    (db.findGroup g).map fun old => if old.id = call.groupId then bumpEpoch old else old := by
  have keeps : ∀ old : Group, (if old.id = call.groupId then bumpEpoch old else old).id = old.id := by
    intro old
    by_cases hit : old.id = call.groupId <;> simp [hit]
  unfold Database.findGroup afterBatch Database.updateGroup
  rw [List.find?_map]
  simp only [Function.comp_def, keeps]

theorem isCreator_batched (g : GroupId) (r : UserId) :
    isCreator (afterBatch db call joined row) g r = isCreator db g r := by
  unfold isCreator
  rw [findGroup_batched, Option.map_map]
  congr 2
  funext old
  by_cases hit : old.id = call.groupId <;> simp [hit]

theorem findGroup_other {g : GroupId} (other : g ≠ call.groupId) :
    (afterBatch db call joined row).findGroup g = db.findGroup g := by
  rw [findGroup_batched]
  cases found : db.findGroup g with
  | none => rfl
  | some old =>
      obtain ⟨-, rfl⟩ := Database.findGroup_some found
      rw [Option.map_some, if_neg other]

end Batches

/-! ## What each session knows -/

/-- A session beside the batches done so far (`db`) and the pending keys (`table`);
`snapshot` is that of a pop. -/
inductive Placed (db : Database) (table snapshot : List SenderKeyDistribution) :
    KeyringSession → Prop where
  | selectCreator (g : GroupId) (r u : UserId) (skdmCiphertext : Bytes) :
      Placed db table snapshot (.running (.selectCreator g r u skdmCiphertext) [])
  | insertMember (g : GroupId) (r u : UserId) (skdmCiphertext : Bytes)
      (creator : isCreator db g r = true) :
      Placed db table snapshot (.running (.insertMember g r u skdmCiphertext) [])
  | updateEpoch (call : Batching) (joined : List GroupMember) (joins : Joins db call joined) :
      Placed db table snapshot (.running (.updateEpoch call joined) (joined.map .insertMember))
  | insertSkdms (call : Batching) (joined : List GroupMember) (row : Group)
      (joins : Joins db call joined) (found : db.findGroup call.groupId = some row) :
      Placed db table snapshot (.running (.insertSkdms call joined (row.epoch + 1))
        (joined.map .insertMember ++ [.bumpEpoch call.groupId]))
  | commit (call : Batching) (joined : List GroupMember) (row : Group)
      (joins : Joins db call joined) (found : db.findGroup call.groupId = some row)
      (known : ∀ uid ∈ call.skdmCiphertexts.keys, uid ∈ db.userIds) :
      Placed db table snapshot (.running (.commit call joined (row.epoch + 1))
        (joined.map .insertMember ++ [.bumpEpoch call.groupId] ++
          [.insertSkdms (call.rows (row.epoch + 1))]))
  | selectPending (u : UserId) (g : GroupId) (plan : Nat) :
      Placed db table snapshot (.running (.selectPending u g plan) [])
  | deletePending (u : UserId) (g : GroupId) (taken pending : List SenderKeyDistribution)
      (mine : ∀ row ∈ taken ++ pending, pendingFor u g row = true)
      (distinct : (taken ++ pending).Nodup) (there : ∀ row ∈ taken, row ∈ table)
      (covers : ∀ row ∈ snapshot, row ∈ taken ++ pending ∨ row ∉ table) :
      Placed db table snapshot
        (.running (.deletePending u g taken pending) (taken.map .deleteSkdm))
  | stored (call : Batching) (epoch : Int) : Placed db table snapshot (.ended (.stored call epoch))
  | popped (u : UserId) (g : GroupId) (rows : List SenderKeyDistribution)
      (mine : ∀ row ∈ rows, pendingFor u g row = true)
      (emptied : ∀ row ∈ snapshot, row ∉ table) :
      Placed db table snapshot (.ended (.popped u g rows))
  | raised (e : Error) (notUnique : e ≠ .integrityError .unique) :
      Placed db table snapshot (.ended (.raised e))

/-- The keys a session has handed out. -/
def handedOut : KeyringSession → List SenderKeyDistribution
  | .ended (.popped _ _ rows) => rows
  | _ => []

/-- The batch a session has committed. -/
def committedBatch : KeyringSession → Option (Batching × Int)
  | .ended (.stored call epoch) => some (call, epoch)
  | _ => none

/-- A batch as the `UPDATE` of its own store stamped it. -/
def StampedIn (db : Database) (entry : Batching × Int) : Prop :=
  ∃ joined row, perform db entry.1.operation = .ok (afterBatch db entry.1 joined row) ∧
    db.findGroup entry.1.groupId = some row ∧ entry.2 = row.epoch + 1

structure Serial (db : Database) (W : KeyringWorld) (ledger : Ledger) : Prop where
  sound : Sound (inTurn db ledger.batches)
  tables : W.committed = { inTurn db ledger.batches with
    senderKeyDistributions := W.committed.senderKeyDistributions }
  keys : (inTurn db ledger.batches).senderKeyDistributions.Perm
    (W.committed.senderKeyDistributions ++ W.sessions.flatMap handedOut)
  batches : ledger.batches.Perm (W.sessions.filterMap committedBatch)
  stamped : EachStep (fun earlier entry => StampedIn (inTurn db earlier) entry) ledger.batches
  rising : ledger.batches.Pairwise fun a b => a.1.groupId = b.1.groupId → a.2 < b.2
  reached : ∀ entry ∈ ledger.batches, ∀ row ∈ (inTurn db ledger.batches).groups,
    row.id = entry.1.groupId → entry.2 ≤ row.epoch
  snapshots : ∀ n, ∀ row ∈ ledger.snapshots n, row ∈ (inTurn db ledger.batches).senderKeyDistributions
  placed : ∀ (n : Nat) s, W.sessions[n]? = some s →
    Placed (inTurn db ledger.batches) W.committed.senderKeyDistributions (ledger.snapshots n) s

/-! ### Other sessions' steps -/

section Others

variable {db : Database} {table snapshot : List SenderKeyDistribution} {s : KeyringSession}

/-- Keys are taken that the session does not hold. -/
theorem Placed.shrink (placed : Placed db table snapshot s) {table' : List SenderKeyDistribution}
    (fewer : table' ⊆ table) (kept : ∀ row ∈ table, .deleteSkdm row ∈ s.holds → row ∈ table') :
    Placed db table' snapshot s := by
  cases placed with
  | selectCreator g r u skdmCiphertext => exact .selectCreator g r u skdmCiphertext
  | insertMember g r u skdmCiphertext creator => exact .insertMember g r u skdmCiphertext creator
  | updateEpoch call joined joins => exact .updateEpoch call joined joins
  | insertSkdms call joined row joins found => exact .insertSkdms call joined row joins found
  | commit call joined row joins found known => exact .commit call joined row joins found known
  | selectPending u g plan => exact .selectPending u g plan
  | deletePending u g taken pending mine distinct there covers =>
      refine .deletePending u g taken pending mine distinct (fun row held => ?_) (fun row seen => ?_)
      · exact kept row (there row held) (List.mem_map_of_mem held)
      · exact (covers row seen).imp id (mt (@fewer row))
  | stored call epoch => exact .stored call epoch
  | popped u g rows mine emptied =>
      exact .popped u g rows mine fun row seen => mt (@fewer row) (emptied row seen)
  | raised e notUnique => exact .raised e notUnique

/-- A membership that was inserted can still be inserted after another call's batch. -/
theorem Joins.batched {call other : Batching} {joined others : List GroupMember} {row : Group}
    (joins : Joins db other others) (apart : ∀ member ∈ others, member ∉ joined)
    (distinct : (db.groupMembers ++ joined).Nodup) :
    Joins (afterBatch db call joined row) other others := by
  cases other with
  | storeSkdms g K => exact joins
  | addMember g r u skdmCiphertext =>
      obtain ⟨creator, inserted⟩ := joins
      refine ⟨(isCreator_batched g r).trans creator, ?_⟩
      rw [Database.insertGroupMemberOrIgnore_ok] at inserted ⊢
      rcases inserted with ⟨present, same⟩ | ⟨absent, inserted⟩
      · have none_ : others = [] := by simpa using congrArg Database.groupMembers same
        subst none_
        exact Or.inl ⟨List.mem_append_left _ present, by simp⟩
      · obtain ⟨same, known, -⟩ := Database.insertGroupMembers_ok.mp inserted
        have one : others = [⟨g, u⟩] := by simpa using congrArg Database.groupMembers same
        subst one
        have absent' : (⟨g, u⟩ : GroupMember) ∉ db.groupMembers ++ joined := fun listed =>
          (List.mem_append.mp listed).elim absent (apart _ (List.mem_singleton_self _))
        refine Or.inr ⟨absent', Database.insertGroupMembers_ok.mpr ⟨rfl, ?_, ?_⟩⟩
        · intro member isNew
          have facts := known member isNew
          exact ⟨(Database.updateGroup_groupIds bumpEpoch_id).symm ▸ facts.1, facts.2⟩
        · exact List.nodup_append.mpr ⟨distinct, List.nodup_singleton _, fun a old b new same =>
            absent' (List.mem_singleton.mp new ▸ same ▸ old)⟩

/-- A batch is stored by a session that shares no lock with this one. -/
theorem Placed.grow (placed : Placed db table snapshot s) {call : Batching}
    {joined : List GroupMember} {row : Group} {rows : List SenderKeyDistribution}
    (distinct : (db.groupMembers ++ joined).Nodup)
    (members : ∀ member ∈ joined, .insertMember member ∉ s.holds)
    (group : .bumpEpoch call.groupId ∉ s.holds) (fresh : ∀ row ∈ snapshot, row ∉ rows) :
    Placed (afterBatch db call joined row) (table ++ rows) snapshot s := by
  have gone : ∀ row ∈ snapshot, row ∉ table → row ∉ table ++ rows := by
    intro row seen out listed
    exact (List.mem_append.mp listed).elim out (fresh row seen)
  have joins_ : ∀ {other : Batching} {others : List GroupMember},
      others.map .insertMember ⊆ s.holds → Joins db other others →
      Joins (afterBatch db call joined row) other others := by
    intro other others held joins
    refine joins.batched (fun member isOther isJoined => ?_) distinct
    exact members member isJoined (held (List.mem_map_of_mem isOther))
  have found_ : ∀ {g : GroupId} {old : Group}, .bumpEpoch g ∈ s.holds →
      db.findGroup g = some old → (afterBatch db call joined row).findGroup g = some old := by
    intro g old held found
    rwa [findGroup_other]
    exact fun same => group (same ▸ held)
  cases placed with
  | selectCreator g r u skdmCiphertext => exact .selectCreator g r u skdmCiphertext
  | insertMember g r u skdmCiphertext creator =>
      exact .insertMember g r u skdmCiphertext ((isCreator_batched g r).trans creator)
  | updateEpoch other others joins =>
      exact .updateEpoch other others (joins_ (fun _ held => held) joins)
  | insertSkdms other others old joins found =>
      refine .insertSkdms other others old (joins_ (List.subset_append_left _ _) joins) ?_
      exact found_ (by simp [Session.holds]) found
  | commit other others old joins found known =>
      refine .commit other others old (joins_ ?_ joins) ?_ known
      · exact List.subset_append_of_subset_left _ (List.subset_append_left _ _)
      · exact found_ (by simp [Session.holds]) found
  | selectPending u g plan => exact .selectPending u g plan
  | deletePending u g taken pending mine distinct there covers =>
      exact .deletePending u g taken pending mine distinct
        (fun row held => List.mem_append_left _ (there row held))
        (fun row seen => (covers row seen).imp id (gone row seen))
  | stored call epoch => exact .stored call epoch
  | popped u g rows mine emptied =>
      exact .popped u g rows mine fun row seen => gone row seen (emptied row seen)
  | raised e notUnique => exact .raised e notUnique

end Others

/-! ### Locks -/

def Clash (a b : Write) : Prop := a.clashes b = true

theorem clash_symm (a b : Write) (clash : Clash a b) : Clash b a := by
  unfold Clash at *
  cases a <;> cases b <;> simp only [Write.clashes, Bool.false_eq_true] at clash ⊢
  case insertMember => simpa [eq_comm] using clash
  case bumpEpoch => simpa [eq_comm] using clash
  case deleteSkdm => simpa [eq_comm] using clash
  case insertSkdms =>
    simp only [List.any_eq_true, decide_eq_true_eq] at clash ⊢
    obtain ⟨row, listed, other, listed', same⟩ := clash
    exact ⟨other, listed', row, listed, same.symm⟩

theorem not_clash_of_free {wr : Write} {held : List Write} (free : blocked wr held = false)
    (other : Write) (isHeld : other ∈ held) : ¬ Clash wr other := by
  have all := List.any_eq_false.mp free other isHeld
  simpa [Clash] using all

theorem keyring_locking : (keyringProgram scan).Locking Clash where
  symm := clash_symm
  respects := by
    intro point own view held draw point' own' did wr holds
    -- a statement adds nothing, or one write that it found free
    have adds : own' = own ∨ ∃ new, (own' = own ++ [new] ∧ blocked new held = false) := by
      simp only [keyringProgram] at did
      cases point with
      | selectCreator g r u skdmCiphertext =>
          simp only [nextKeyring] at did
          split at did <;> cases did
          exact Or.inl rfl
      | insertMember g r u skdmCiphertext =>
          simp only [nextKeyring] at did
          split at did
          · cases did
          · rename_i free
            split at did
            · cases did
            · cases did
              by_cases member : view.IsMember g u
              · exact Or.inl (by simp [member])
              · exact Or.inr ⟨.insertMember ⟨g, u⟩, by simp [member], by simpa using free⟩
      | updateEpoch call joined =>
          simp only [nextKeyring] at did
          split at did
          · cases did
          · split at did
            · cases did
            · rename_i free
              cases did
              exact Or.inr ⟨_, rfl, by simpa using free⟩
      | insertSkdms call joined epoch =>
          simp only [nextKeyring] at did
          split at did
          · cases did
          · rename_i free
            split at did
            · cases did
            · cases did
              exact Or.inr ⟨_, rfl, by simpa using free⟩
      | commit call joined epoch => cases did
      | selectPending u g plan =>
          cases did
          exact Or.inl rfl
      | deletePending u g taken pending =>
          cases pending with
          | nil => cases did
          | cons row pending =>
              simp only [nextKeyring] at did
              split at did
              · cases did
                exact Or.inl rfl
              · split at did
                · cases did
                · rename_i free
                  cases did
                  exact Or.inr ⟨_, rfl, by simpa using free⟩
    rcases adds with rfl | ⟨new, rfl, free⟩
    · exact Or.inl holds
    · rcases List.mem_append.mp holds with before | isNew
      · exact Or.inl before
      · cases List.mem_singleton.mp isNew
        exact Or.inr (not_clash_of_free free)

theorem opened_fresh {db : Database} {calls : List Call} (n : Nat) (point : Point)
    (own : List Write) (at_ : (opened db calls).sessions[n]? = some (.running point own)) :
    own = [] := by
  simp only [opened, List.getElem?_map, Option.map_eq_some_iff] at at_
  obtain ⟨call, -, isNew⟩ := at_
  cases isNew
  rfl

theorem keyring_compatible (db : Database) (calls : List Call) (schedule : List Nat) :
    Program.Compatible Clash ((keyring scan db calls).run schedule).sessions :=
  Program.compatible (keyring_locking scan) opened_fresh schedule

/-! ### One step -/

section Step

variable {scan : Scan} {db : Database} {W : KeyringWorld} {ledger : Ledger} {n : Nat}

/-- A row lock keeps the write from every other session. -/
theorem not_held (locks : Program.Compatible Clash W.sessions) {point : Point} {own : List Write}
    (at_ : W.sessions[n]? = some (.running point own)) {m : Nat} {t : KeyringSession}
    (other : m ≠ n) (found : W.sessions[m]? = some t) {wr : Write} (holds : wr ∈ own)
    (excludes : Clash wr wr) : wr ∉ t.holds := by
  cases t with
  | ended answer => exact List.not_mem_nil
  | running point' own' =>
      exact fun held => locks n m _ _ _ _ (Ne.symm other) at_ found wr holds wr held excludes

theorem handedOut_set {s s' : KeyringSession} (at_ : W.sessions[n]? = some s)
    (hands : handedOut s' = handedOut s) :
    ((W.sessions.set n s').flatMap handedOut).Perm (W.sessions.flatMap handedOut) := by
  have replaced := flatMap_set_perm (g := handedOut) at_ s'
  rwa [hands, List.perm_append_right_iff] at replaced

/-- A step that commits nothing. -/
theorem Serial.onward (now : Serial db W ledger) {s s' : KeyringSession}
    (at_ : W.sessions[n]? = some s) (hands : handedOut s' = handedOut s)
    (commits : committedBatch s' = committedBatch s)
    {snapshots : Nat → List SenderKeyDistribution}
    (others : ∀ m ≠ n, snapshots m = ledger.snapshots m)
    (seen : ∀ row ∈ snapshots n, row ∈ (inTurn db ledger.batches).senderKeyDistributions)
    (new : Placed (inTurn db ledger.batches) W.committed.senderKeyDistributions (snapshots n) s') :
    Serial db ⟨W.committed, W.sessions.set n s'⟩ { ledger with snapshots := snapshots } where
  sound := now.sound
  tables := now.tables
  keys := now.keys.trans ((handedOut_set at_ hands).symm.append_left _)
  batches := by
    show ledger.batches.Perm _
    rw [filterMap_set at_ commits]
    exact now.batches
  stamped := now.stamped
  rising := now.rising
  reached := now.reached
  snapshots := by
    intro m row listed
    by_cases same : m = n
    · subst same
      exact seen row listed
    · exact now.snapshots m row (others m same ▸ listed)
  placed := by
    intro m t found
    rcases (getElem?_replaced at_).mp found with ⟨rfl, rfl⟩ | ⟨other, before⟩
    · exact new
    · show Placed _ _ (snapshots m) t
      rw [others m other]
      exact now.placed m t before

/-- The same with no snapshot taken. -/
theorem Serial.onward' (now : Serial db W ledger) {s s' : KeyringSession}
    (at_ : W.sessions[n]? = some s) (hands : handedOut s' = handedOut s)
    (commits : committedBatch s' = committedBatch s)
    (new : Placed (inTurn db ledger.batches) W.committed.senderKeyDistributions
      (ledger.snapshots n) s') :
    Serial db ⟨W.committed, W.sessions.set n s'⟩ ledger :=
  now.onward at_ hands commits (fun _ _ => rfl) (now.snapshots n) new

/-- A batch is committed. -/
theorem serial_stored (now : Serial db W ledger) (locks : Program.Compatible Clash W.sessions)
    {call : Batching} {joined : List GroupMember} {epoch : Int} {own : List Write}
    (at_ : W.sessions[n]? = some (.running (.commit call joined epoch) own)) :
    Serial db ((keyringProgram scan).advance W n) (noteLedger W n ledger) := by
  have placed := now.placed n _ at_
  cases placed with
  | commit _ _ row joins found known =>
      have done := perform_batching now.sound joins found known
      obtain ⟨stored, sameId⟩ := Database.findGroup_some found
      have after : inTurn db (ledger.batches ++ [(call, row.epoch + 1)]) =
          afterBatch (inTurn db ledger.batches) call joined row := by
        rw [inTurn_snoc]
        exact commit_ok done
      have soundAfter : Sound (afterBatch (inTurn db ledger.batches) call joined row) :=
        now.sound.perform done
      have written : (keyringProgram scan).view W.committed (joined.map .insertMember ++
          [.bumpEpoch call.groupId] ++ [.insertSkdms (call.rows (row.epoch + 1))]) =
          { afterBatch (inTurn db ledger.batches) call joined row with
            senderKeyDistributions :=
              W.committed.senderKeyDistributions ++ call.rows (row.epoch + 1) } := by
        rw [Program.view_append, Program.view_append, view_joined, now.tables]
        rfl
      have fresh : ∀ old ∈ (inTurn db ledger.batches).senderKeyDistributions,
          old ∉ call.rows (row.epoch + 1) := by
        have apart := soundAfter.constraints.senderKeyDistributions.of_map
        exact fun old stored isNew =>
          (List.nodup_append.mp apart).2.2 old stored old isNew rfl
      simp only [Program.advance, noteLedger, at_, keyringProgram, nextKeyring]
      simp only [keyringProgram] at written
      rw [written]
      constructor
      case sound =>
        show Sound (inTurn db _)
        rw [after]
        exact soundAfter
      case tables =>
        show _ = _
        rw [after]
      case keys =>
        show (inTurn db _).senderKeyDistributions.Perm _
        rw [after]
        have hands : ((W.sessions.set n (.ended (.stored call (row.epoch + 1)))).flatMap
            handedOut).Perm (W.sessions.flatMap handedOut) := handedOut_set at_ rfl
        refine (now.keys.append_right _).trans ?_
        rw [List.append_assoc, List.append_assoc]
        exact List.Perm.append_left _ (List.perm_append_comm.trans (hands.symm.append_left _))
      case batches =>
        refine (now.batches.append_right _).trans ?_
        exact (filterMap_set_perm (f := committedBatch) at_ rfl rfl).symm
      case stamped =>
        exact (eachStep_snoc _ _ _).mpr ⟨now.stamped, joined, row, done, found, rfl⟩
      case rising =>
        refine List.pairwise_append.mpr ⟨now.rising, List.pairwise_singleton _ _, ?_⟩
        intro entry earlier last isLast same
        cases List.mem_singleton.mp isLast
        have behind := now.reached entry earlier row stored (sameId.trans same.symm)
        exact Int.lt_add_one_of_le behind
      case reached =>
        intro entry listed new inTable same
        have grouped : new ∈ (afterBatch (inTurn db ledger.batches) call joined row).groups :=
          after ▸ inTable
        obtain ⟨old, oldStored, rfl⟩ := Database.mem_updateGroup.mp grouped
        rcases List.mem_append.mp listed with earlier | isLast
        · by_cases hit : old.id = call.groupId
          · rw [if_pos hit] at same ⊢
            have behind := now.reached entry earlier old oldStored same
            rw [bumpEpoch_epoch]
            omega
          · rw [if_neg hit] at same ⊢
            exact now.reached entry earlier old oldStored same
        · cases List.mem_singleton.mp isLast
          by_cases hit : old.id = call.groupId
          · have isRow := now.sound.constraints.groups.unique oldStored stored
              (hit.trans sameId.symm)
            rw [if_pos hit, bumpEpoch_epoch, isRow]
          · rw [if_neg hit] at same
            exact absurd same hit
      case snapshots =>
        intro m old seen
        show old ∈ (inTurn db _).senderKeyDistributions
        rw [after]
        exact List.mem_append_left _ (now.snapshots m old seen)
      case placed =>
        intro m t there
        show Placed (inTurn db _) _ _ t
        rw [after]
        rcases (getElem?_replaced at_).mp there with ⟨rfl, rfl⟩ | ⟨other, before⟩
        · exact .stored call (row.epoch + 1)
        · refine (now.placed m t before).grow ?_ ?_ ?_ ?_
          · exact soundAfter.constraints.groupMembers
          · intro member isJoined
            refine not_held locks at_ other before ?_ (by simp [Clash, Write.clashes])
            simp [isJoined]
          · exact not_held locks at_ other before (by simp) (by simp [Clash, Write.clashes])
          · exact fun old seen => fresh old (now.snapshots m old seen)

/-- A pop is committed. -/
theorem serial_popped (now : Serial db W ledger) (locks : Program.Compatible Clash W.sessions)
    {u : UserId} {g : GroupId} {taken : List SenderKeyDistribution} {own : List Write}
    (at_ : W.sessions[n]? = some (.running (.deletePending u g taken []) own)) :
    Serial db ((keyringProgram scan).advance W n) (noteLedger W n ledger) := by
  have placed := now.placed n _ at_
  cases placed with
  | deletePending _ _ _ _ mine distinct there covers =>
      rw [List.append_nil] at mine distinct covers
      simp only [Program.advance, noteLedger, at_, keyringProgram, nextKeyring]
      have seen := view_taken scan W.committed taken
      simp only [keyringProgram] at seen
      rw [seen]
      have fewer : W.committed.senderKeyDistributions.filter (· ∉ taken) ⊆
          W.committed.senderKeyDistributions := List.filter_subset_self _
      constructor
      case sound => exact now.sound
      case tables =>
        have same := congrArg (fun db : Database => { db with
          senderKeyDistributions := W.committed.senderKeyDistributions.filter (· ∉ taken) })
          now.tables
        exact same
      case keys =>
        have once : W.committed.senderKeyDistributions.Nodup :=
          (List.nodup_append.mp (now.keys.nodup_iff.mp
            now.sound.constraints.senderKeyDistributions.of_map)).1
        -- what was pending is what still is and what was taken
        have split : W.committed.senderKeyDistributions.Perm
            (W.committed.senderKeyDistributions.filter (· ∉ taken) ++ taken) := by
          rw [List.perm_ext_iff_of_nodup once]
          · intro row
            by_cases held : row ∈ taken
            · simp [held, there row held]
            · simp [held]
          · refine List.nodup_append.mpr ⟨once.filter _, distinct, fun a old b held same => ?_⟩
            simp [same, held] at old
        have hands := flatMap_set_perm (g := handedOut) at_ (.ended (.popped u g taken))
        simp only [handedOut, List.append_nil] at hands
        refine now.keys.trans ((split.append_right _).trans ?_)
        rw [List.append_assoc]
        exact List.Perm.append_left _ (List.perm_append_comm.trans hands.symm)
      case batches =>
        have commits : committedBatch (.ended (.popped u g taken)) = committedBatch
          (.running (.deletePending u g taken []) (taken.map .deleteSkdm)) := rfl
        show ledger.batches.Perm ((W.sessions.set n (.ended (.popped u g taken))).filterMap
          committedBatch)
        rw [filterMap_set at_ commits]
        exact now.batches
      case stamped => exact now.stamped
      case rising => exact now.rising
      case reached => exact now.reached
      case snapshots => exact now.snapshots
      case placed =>
        intro m t found
        rcases (getElem?_replaced at_).mp found with ⟨rfl, rfl⟩ | ⟨other, before⟩
        · refine .popped u g taken mine fun row listed => ?_
          rcases covers row listed with held | gone
          · simp [held]
          · exact mt (@fewer row) gone
        · refine (now.placed m t before).shrink fewer fun row stored held => ?_
          refine List.mem_filter.mpr ⟨stored, decide_eq_true fun isTaken => ?_⟩
          have own : Write.deleteSkdm row ∈ taken.map Write.deleteSkdm := List.mem_map_of_mem isTaken
          exact not_held locks at_ other before own (by simp [Clash, Write.clashes]) held

theorem serial_insertMember (now : Serial db W ledger) {g : GroupId} {r u : UserId}
    {skdmCiphertext : Bytes}
    (at_ : W.sessions[n]? = some (.running (.insertMember g r u skdmCiphertext) []))
    (creator : isCreator (inTurn db ledger.batches) g r = true) :
    Serial db ((keyringProgram scan).advance W n) (noteLedger W n ledger) := by
  simp only [Program.advance, noteLedger, at_, keyringProgram, nextKeyring, Program.view_nil]
  by_cases isBlocked :
      blocked (.insertMember ⟨g, u⟩) (Program.heldBesides W.sessions n) = true
  · simp only [isBlocked, if_true]
    exact now
  · simp only [isBlocked]
    cases inserted : W.committed.insertGroupMemberOrIgnore ⟨g, u⟩ with
    | error e =>
        refine now.onward' at_ rfl rfl (.raised e ?_)
        rintro rfl
        unfold Database.insertGroupMemberOrIgnore at inserted
        split at inserted
        · cases inserted
        · rename_i absent
          refine insertInto_ne_unique ?_ inserted
          rw [List.map_id, List.nodup_append]
          have distinct : W.committed.groupMembers.Nodup := by
            rw [now.tables]
            exact now.sound.constraints.groupMembers
          exact ⟨distinct, List.nodup_singleton _, fun a old b new same =>
            absent (List.mem_singleton.mp new ▸ same ▸ old)⟩
    | ok after =>
        refine now.onward' at_ rfl rfl (.updateEpoch _ _ ⟨creator, ?_⟩)
        rw [now.tables] at inserted ⊢
        rw [Database.insertGroupMemberOrIgnore_ok] at inserted ⊢
        rcases inserted with ⟨present, -⟩ | ⟨absent, inserted⟩
        · have member : (inTurn db ledger.batches).IsMember g u := present
          refine Or.inl ⟨present, ?_⟩
          have still : Database.IsMember { inTurn db ledger.batches with
            senderKeyDistributions := W.committed.senderKeyDistributions } g u := present
          simp [still]
        · have still : ¬ Database.IsMember { inTurn db ledger.batches with
            senderKeyDistributions := W.committed.senderKeyDistributions } g u := absent
          obtain ⟨-, known, distinct⟩ := Database.insertGroupMembers_ok.mp inserted
          refine Or.inr ⟨absent, Database.insertGroupMembers_ok.mpr ⟨?_, known, distinct⟩⟩
          simp [still]

theorem serial_updateEpoch (now : Serial db W ledger) {call : Batching}
    {joined : List GroupMember} (joins : Joins (inTurn db ledger.batches) call joined)
    (at_ : W.sessions[n]? =
      some (.running (.updateEpoch call joined) (joined.map .insertMember))) :
    Serial db ((keyringProgram scan).advance W n) (noteLedger W n ledger) := by
  have seen := view_joined scan W.committed joined
  simp only [keyringProgram] at seen
  simp only [Program.advance, noteLedger, at_, keyringProgram, nextKeyring, seen]
  cases found : Database.findGroup
      { W.committed with groupMembers := W.committed.groupMembers ++ joined } call.groupId with
  | none => exact now.onward' at_ rfl rfl (.raised _ (by simp))
  | some row =>
      dsimp only
      by_cases isBlocked :
          blocked (.bumpEpoch call.groupId) (Program.heldBesides W.sessions n) = true
      · simp only [isBlocked, if_true]
        exact now
      · simp only [isBlocked]
        refine now.onward' at_ rfl rfl (.insertSkdms call joined row joins ?_)
        rw [now.tables] at found
        exact found

theorem serial_insertSkdms (now : Serial db W ledger) {call : Batching}
    {joined : List GroupMember} {row : Group}
    (joins : Joins (inTurn db ledger.batches) call joined)
    (found : (inTurn db ledger.batches).findGroup call.groupId = some row)
    (at_ : W.sessions[n]? = some (.running (.insertSkdms call joined (row.epoch + 1))
      (joined.map .insertMember ++ [.bumpEpoch call.groupId]))) :
    Serial db ((keyringProgram scan).advance W n) (noteLedger W n ledger) := by
  have seen : (keyringProgram scan).view W.committed
      (joined.map .insertMember ++ [.bumpEpoch call.groupId]) =
      { W.committed.updateGroup call.groupId bumpEpoch with
        groupMembers := W.committed.groupMembers ++ joined } := by
    rw [Program.view_append, view_joined]
    rfl
  simp only [keyringProgram] at seen
  simp only [Program.advance, noteLedger, at_, keyringProgram, nextKeyring, seen]
  by_cases isBlocked : blocked (.insertSkdms (call.rows (row.epoch + 1)))
      (Program.heldBesides W.sessions n) = true
  · simp only [isBlocked, if_true]
    exact now
  · simp only [isBlocked]
    cases inserted : Database.insertSenderKeyDistributions
        { W.committed.updateGroup call.groupId bumpEpoch with
          groupMembers := W.committed.groupMembers ++ joined } (call.rows (row.epoch + 1)) with
    | error e =>
        refine now.onward' at_ rfl rfl (.raised e ?_)
        rintro rfl
        have once : (W.committed.senderKeyDistributions.map uniqueKey).Nodup :=
          (List.nodup_append.mp (by
            have all := (now.keys.map uniqueKey).nodup_iff.mp
              now.sound.constraints.senderKeyDistributions
            rwa [List.map_append] at all)).1
        refine insertInto_ne_unique (skdmKeys_nodup once ?_) inserted
        intro pending stored same
        obtain ⟨inTable, sameId⟩ := Database.findGroup_some found
        have behind := now.sound.epochs pending
          (now.keys.mem_iff.mpr (List.mem_append_left _ stored)) row inTable (sameId.trans same.symm)
        omega
    | ok after =>
        refine now.onward' at_ rfl rfl (.commit call joined row joins found fun uid inKeys => ?_)
        obtain ⟨-, known, -⟩ := Database.insertSenderKeyDistributions_ok.mp inserted
        obtain ⟨entry, inDict, rfl⟩ := List.mem_map.mp inKeys
        have facts := (known _ (List.mem_map_of_mem inDict)).2
        have users := congrArg Database.userIds now.tables
        exact users ▸ facts

theorem serial_selectPending (now : Serial db W ledger) {u : UserId} {g : GroupId} {plan : Nat}
    (at_ : W.sessions[n]? = some (.running (.selectPending u g plan) [])) :
    Serial db ((keyringProgram scan).advance W n) (noteLedger W n ledger) := by
  simp only [Program.advance, noteLedger, at_, keyringProgram, nextKeyring, Program.view_nil]
  have sameRows := scan.perm plan (W.committed.senderKeyDistributions.filter (pendingFor u g))
  have once : W.committed.senderKeyDistributions.Nodup :=
    (List.nodup_append.mp (now.keys.nodup_iff.mp
      now.sound.constraints.senderKeyDistributions.of_map)).1
  have others : ∀ m ≠ n, Function.update ledger.snapshots n
      (W.committed.senderKeyDistributions.filter (pendingFor u g)) m = ledger.snapshots m :=
    fun m other => Function.update_of_ne other _ _
  refine now.onward at_ (by rfl) (by rfl) others ?_ ?_
  · intro row listed
    rw [Function.update_self] at listed
    exact now.keys.mem_iff.mpr (List.mem_append_left _ (List.mem_of_mem_filter listed))
  · rw [Function.update_self]
    refine .deletePending u g [] _ (fun row listed => ?_) ?_ (by simp) fun row listed => ?_
    · exact (List.mem_filter.mp (sameRows.mem_iff.mp listed)).2
    · exact sameRows.nodup_iff.mpr (once.filter _)
    · exact Or.inl (sameRows.mem_iff.mpr listed)

/-- One row of a pop. -/
theorem serial_deletePending (now : Serial db W ledger) {u : UserId} {g : GroupId}
    {taken pending : List SenderKeyDistribution} {row : SenderKeyDistribution} {own : List Write}
    (at_ : W.sessions[n]? = some (.running (.deletePending u g taken (row :: pending)) own)) :
    Serial db ((keyringProgram scan).advance W n) (noteLedger W n ledger) := by
  have placed := now.placed n _ at_
  cases placed with
  | deletePending _ _ _ _ mine distinct there covers =>
      have seen := view_taken scan W.committed taken
      simp only [keyringProgram] at seen
      simp only [Program.advance, noteLedger, at_, keyringProgram, nextKeyring, seen]
      have new : row ∉ taken := fun already =>
        (List.nodup_append.mp distinct).2.2 row already row List.mem_cons_self rfl
      have fewer : (taken ++ pending).Sublist (taken ++ row :: pending) :=
        (List.sublist_cons_self row pending).append_left taken
      have shown : row ∉ W.committed.senderKeyDistributions.filter (· ∉ taken) ↔
          row ∉ W.committed.senderKeyDistributions := by simp [new]
      by_cases gone : row ∉ W.committed.senderKeyDistributions
      · simp only [shown, gone]
        refine now.onward' at_ rfl rfl (.deletePending u g taken pending
          (fun other listed => mine other (fewer.subset listed)) (distinct.sublist fewer) there ?_)
        intro other listed
        rcases covers other listed with listed | out
        · rcases List.mem_append.mp listed with held | later
          · exact Or.inl (List.mem_append_left _ held)
          · rcases List.mem_cons.mp later with rfl | later
            · exact Or.inr gone
            · exact Or.inl (List.mem_append_right _ later)
        · exact Or.inr out
      · simp only [shown, gone, if_false]
        by_cases isBlocked :
            blocked (.deleteSkdm row) (Program.heldBesides W.sessions n) = true
        · simp only [isBlocked, if_true]
          exact now
        · simp only [isBlocked]
          have sameList : taken ++ [row] ++ pending = taken ++ row :: pending := by simp
          have held : taken.map Write.deleteSkdm ++ [.deleteSkdm row] =
              (taken ++ [row]).map .deleteSkdm := by simp
          rw [← sameList] at mine distinct covers
          show Serial db ⟨_, W.sessions.set n (.running _ (_ ++ [.deleteSkdm row]))⟩ ledger
          rw [held]
          refine now.onward' at_ rfl rfl
            (.deletePending u g (taken ++ [row]) pending mine distinct ?_ covers)
          intro other listed
          rcases List.mem_append.mp listed with before | isRow
          · exact there other before
          · rw [List.mem_singleton.mp isRow]
            exact not_not.mp gone

/-- **One step of one session.** -/
theorem serial_step (now : Serial db W ledger) (locks : Program.Compatible Clash W.sessions)
    (n : Nat) : Serial db ((keyringProgram scan).advance W n) (noteLedger W n ledger) := by
  cases at_ : W.sessions[n]? with
  | none => simpa only [Program.advance, noteLedger, at_] using now
  | some s =>
      have placed := now.placed n s at_
      cases placed with
      | selectCreator g r u skdmCiphertext =>
          simp only [Program.advance, noteLedger, at_, keyringProgram, nextKeyring,
            Program.view_nil]
          by_cases creator : isCreator W.committed g r = true
          · simp only [creator, if_true]
            rw [now.tables] at creator
            exact now.onward' at_ rfl rfl (.insertMember g r u skdmCiphertext creator)
          · simp only [creator]
            exact now.onward' at_ rfl rfl (.raised _ (by simp))
      | insertMember g r u skdmCiphertext creator => exact serial_insertMember now at_ creator
      | updateEpoch call joined joins => exact serial_updateEpoch now joins at_
      | insertSkdms call joined row joins found => exact serial_insertSkdms now joins found at_
      | commit call joined row joins found known => exact serial_stored now locks at_
      | selectPending u g plan => exact serial_selectPending now at_
      | deletePending u g taken pending mine distinct there covers =>
          cases pending with
          | nil => exact serial_popped now locks at_
          | cons row pending => exact serial_deletePending now at_
      | stored call epoch => simpa only [Program.advance, noteLedger, at_] using now
      | popped u g rows mine emptied => simpa only [Program.advance, noteLedger, at_] using now
      | raised e notUnique => simpa only [Program.advance, noteLedger, at_] using now

end Step

/-! ## Every run -/

theorem serial_run {db : Database} (sound : Sound db) (calls : List Call) (schedule : List Nat) :
    Serial db ((keyring scan db calls).run schedule) (ledgerOf scan db calls schedule) := by
  have started : ∀ (n : Nat) s, (opened db calls).sessions[n]? = some s →
      ∃ call, s = .running (firstPoint call) [] := by
    intro n s at_
    simp only [opened, List.getElem?_map, Option.map_eq_some_iff] at at_
    obtain ⟨call, -, rfl⟩ := at_
    exact ⟨call, rfl⟩
  have nothing : (opened db calls).sessions.flatMap handedOut = [] := by
    simp [opened, List.flatMap_map, handedOut]
  have none_ : (opened db calls).sessions.filterMap committedBatch = [] := by
    simp [opened, committedBatch]
  refine ((keyring scan db calls).observe_invariant
    (P := fun W ledger => Serial db W ledger ∧ Program.Compatible Clash W.sessions)
    ⟨?_, keyring_compatible scan db calls []⟩
    (fun W n ledger now => ⟨serial_step now.1 now.2 n,
      Program.compatible_step (keyring_locking scan) now.2 n⟩) schedule).1
  constructor
  case sound => exact sound
  case tables => rfl
  case keys =>
    show db.senderKeyDistributions.Perm (db.senderKeyDistributions ++ _)
    rw [keyring, Program.system_init, nothing, List.append_nil]
  case batches =>
    rw [keyring, Program.system_init, none_]
  case stamped => exact fun earlier entry within => by simp at within
  case rising => exact List.Pairwise.nil
  case reached => exact fun entry listed => absurd listed List.not_mem_nil
  case snapshots => exact fun n row listed => absurd listed List.not_mem_nil
  case placed =>
    intro n s at_
    obtain ⟨call, rfl⟩ := started n s at_
    cases call with
    | batching call =>
        cases call with
        | storeSkdms g K => exact .updateEpoch (.storeSkdms g K) [] rfl
        | addMember g r u skdmCiphertext => exact .selectCreator g r u skdmCiphertext
    | popSkdmsForUser u g plan => exact .selectPending u g plan

/-- What is so of a run from a database, with its ledger. -/
structure Serialised (db : Database) (W : KeyringWorld) (ledger : Ledger) : Prop where
  /-- The batches of the ledger are those the sessions committed. -/
  batches : ledger.batches.Perm (W.sessions.filterMap committedBatch)
  /-- In turn each goes through and moves its group to the epoch it was stamped with. -/
  stamped : EachStep (fun earlier entry => StampedIn (inTurn db earlier) entry) ledger.batches
  rising : ledger.batches.Pairwise fun a b => a.1.groupId = b.1.groupId → a.2 < b.2
  tables : W.committed = { inTurn db ledger.batches with
    senderKeyDistributions := W.committed.senderKeyDistributions }
  /-- A key stored is pending or has been handed out. -/
  keys : (inTurn db ledger.batches).senderKeyDistributions.Perm
    (W.committed.senderKeyDistributions ++ W.sessions.flatMap handedOut)
  once : ((W.committed.senderKeyDistributions ++ W.sessions.flatMap handedOut).map uniqueKey).Nodup
  /-- A pop hands out keys of its reader, and leaves none that it saw. -/
  popped : ∀ (n : Nat) u g rows, W.sessions[n]? = some (.ended (.popped u g rows)) →
    (∀ row ∈ rows, row.recipientId = u ∧ row.groupId = g) ∧
      ∀ row ∈ ledger.snapshots n, row ∉ W.committed.senderKeyDistributions
  notUnique : ∀ n : Nat, W.sessions[n]? ≠ some (.ended (.raised (.integrityError .unique)))

/-- **Stores and pops at the same time**, from any reachable database. -/
theorem stores_serialise (ops : List Operation) (calls : List Call) (schedule : List Nat) :
    Serialised (service.run ops) ((keyring scan (service.run ops) calls).run schedule)
      (ledgerOf scan (service.run ops) calls schedule) := by
  have run := serial_run scan (reachable ops) calls schedule
  refine ⟨run.batches, run.stamped, run.rising, run.tables, run.keys, ?_, ?_, ?_⟩
  · exact (run.keys.map uniqueKey).nodup_iff.mp run.sound.constraints.senderKeyDistributions
  · intro n u g rows at_
    have placed := run.placed n _ at_
    cases placed with
    | popped _ _ _ mine emptied =>
        refine ⟨fun row listed => ?_, emptied⟩
        simpa [pendingFor] using mine row listed
  · intro n at_
    have placed := run.placed n _ at_
    cases placed with
    | raised _ notUnique => exact notUnique rfl

/-- Ada has a group with Bob and Cyd, and one key is pending for Bob. -/
def keyedTrio : List Operation :=
  [.createUser "ada" "5a" [1] [2], .createUser "bob" "5b" [3] [4], .createUser "cyd" "5c" [5] [6],
    .createUser "dee" "5d" [7] [8], .createGroup "team" 1 (Dict.singleton 2 [12]),
    .addMember 1 1 3 [13]]

/-- Two batches, one of them with a new member, and two pops of Bob's. -/
def keyedTrioCalls : List Call :=
  [.batching (.storeSkdms 1 (Dict.singleton 2 [21])), .batching (.addMember 1 1 4 [24]),
    .popSkdmsForUser 2 1 0, .popSkdmsForUser 2 1 0]

/-- The second batch comes to the epoch while the first holds it, and the pops see the same
key: one takes it, one waits and passes over it. -/
def keyedTrioSchedule : List Nat :=
  [1, 0, 1, 1, 2, 3, 0, 2, 3, 0, 1, 2, 3, 3, 1, 1]

theorem stores_serialise_keyedTrio :
    Serialised (service.run keyedTrio)
      ((keyring .inOrder (service.run keyedTrio) keyedTrioCalls).run keyedTrioSchedule)
      (ledgerOf .inOrder (service.run keyedTrio) keyedTrioCalls keyedTrioSchedule) :=
  stores_serialise .inOrder keyedTrio keyedTrioCalls keyedTrioSchedule

example : let W := (keyring .inOrder (service.run keyedTrio) keyedTrioCalls).run keyedTrioSchedule
    W.sessions.filterMap committedBatch =
        [(.storeSkdms 1 (Dict.singleton 2 [21]), 3), (.addMember 1 1 4 [24], 4)] ∧
      W.sessions.flatMap handedOut = [⟨1, 2, [12], 1⟩] := by
  decide +kernel

end Keyring

end SecureMsg.Groups
