/-
# Groups.ConcurrentDeletion — two accounts deleted at the same time

`delete_user` tells sole-member groups from the others by counts of the snapshot
its `SELECT ... FOR UPDATE` began with.  While that statement waits for a group,
the other deletion can commit and leave the user alone in it: the count still
says two, and the bulk update, on a newer snapshot, finds no new creator.

`phase_run`: without such a commit (`Stale`) the second deletion goes on as if it
had started on what the first left.  `stale_dooms`: after one, it fails.
`deletions_agree_iff`: two deletions that both end have agreed with a serial order
iff both accounts were there and neither committed into such a `SELECT`.
-/
import SecureMsg.Groups.Deadlock
import SecureMsg.Groups.DeletionTransfer

namespace SecureMsg.Groups

open SecureMsg.Theory SecureMsg.Store SecureMsg.Repository

set_option autoImplicit false

namespace Departures

variable {db mid : Database} {x y : UserId}

/-! ## Two deletions -/

def deletions (db : Database) (a b : UserId) : System DepartureWorld Nat :=
  departures db [.deleteUser a, .deleteUser b]

/-- One account deleted after the other. -/
def DeletedInTurn (db : Database) (first second : UserId) (after : Database) : Prop :=
  ∃ mid, deleteUser db first = .ok (mid, true) ∧ deleteUser mid second = .ok (after, true)

/-- The run agrees with a serial order of the two deletions. -/
structure Agrees (db : Database) (a b : UserId) (schedule : List Nat) : Prop where
  returned : ((deletions db a b).run schedule).sessions =
    [.ended (.returned true), .ended (.returned true)]
  /-- No update assigns a `NULL` creator. -/
  neverNull : ∀ earlier, earlier <+: schedule → ∀ n : Nat,
    ((deletions db a b).run earlier).sessions[n]? ≠
      some (.ended (.raised (.integrityError .notNull)))
  inTurn : DeletedInTurn db a b ((deletions db a b).run schedule).committed ∨
    DeletedInTurn db b a ((deletions db a b).run schedule).committed
  sharedGone : ∀ g, (∀ uid, db.IsMember g uid ↔ uid = a ∨ uid = b) →
    g ∉ ((deletions db a b).run schedule).committed.groupIds

/-- Session `n` is to commit its deletion while the other is in its `SELECT` of the
groups, and the two users are all there is of a group that the other's user created. -/
def Stale (db : Database) (a b : UserId) (earlier : List Nat) (n : Nat) : Prop :=
  ∃ (m : Nat) (x y : UserId) (own own' : List Write) (locked pending : List (GroupId × Nat)),
    ((deletions db a b).run earlier).sessions[n]? = some (.running (.deleteUser x .commit) own) ∧
    ((deletions db a b).run earlier).sessions[m]? =
      some (.running (.deleteUser y (.lockGroups locked pending)) own') ∧
    SharedPair ((deletions db a b).run earlier).committed x y

/-- The two sessions, by who is first. -/
inductive Turn (a b : UserId) : Nat → Nat → UserId → UserId → Prop where
  | straight : Turn a b 0 1 a b
  | crossed : Turn a b 1 0 b a

section Turn

variable {a b : UserId} {n m : Nat}

theorem turn_of_lt (a b : UserId) (inside : n < 2) : ∃ m x y, Turn a b n m x y := by
  obtain rfl | rfl : n = 0 ∨ n = 1 := by omega
  · exact ⟨1, a, b, .straight⟩
  · exact ⟨0, b, a, .crossed⟩

theorem Turn.first (turn : Turn a b n m x y) :
    [Call.deleteUser a, .deleteUser b][n]? = some (.deleteUser x) := by
  cases turn <;> rfl

theorem Turn.second (turn : Turn a b n m x y) :
    [Call.deleteUser a, .deleteUser b][m]? = some (.deleteUser y) := by
  cases turn <;> rfl

theorem Turn.ne (turn : Turn a b n m x y) : n ≠ m := by
  cases turn <;> decide

theorem Turn.lt (turn : Turn a b n m x y) : n < 2 ∧ m < 2 := by
  cases turn <;> decide

theorem Turn.users_ne (turn : Turn a b n m x y) (different : a ≠ b) : x ≠ y := by
  cases turn with
  | straight => exact different
  | crossed => exact Ne.symm different

theorem Turn.cover (turn : Turn a b n m x y) {k : Nat} (inside : k < 2) : k = n ∨ k = m := by
  cases turn <;> omega

end Turn

/-! ## Runs without a stale commit -/

/-- The first user's deletion has committed, the second's goes on from there. -/
structure OneDeleted (db : Database) (W : DepartureWorld) (n m : Nat) (x y : UserId) : Prop where
  did : deleteUser db x = .ok (W.committed, true)
  ended : W.sessions[n]? = some (.ended (.returned true))
  known : y ∈ W.committed.userIds
  deleting : ∃ at_ own, W.sessions[m]? = some (.running (.deleteUser y at_) own) ∧
    Deleting W.committed y at_ own

structure BothDeleted (db : Database) (W : DepartureWorld) (n m : Nat) (x y : UserId) : Prop where
  did : DeletedInTurn db x y W.committed
  ended : W.sessions[n]? = some (.ended (.returned true))
  ended' : W.sessions[m]? = some (.ended (.returned true))

inductive Phase (db : Database) (a b : UserId) (W : DepartureWorld) : Prop where
  | neither (now : Unchanged db [.deleteUser a, .deleteUser b] W)
  | one (n m : Nat) (x y : UserId) (turn : Turn a b n m x y) (deleted : OneDeleted db W n m x y)
  | both (n m : Nat) (x y : UserId) (turn : Turn a b n m x y) (deleted : BothDeleted db W n m x y)

theorem sound_deleted (sound : Sound db) (did : deleteUser db x = .ok (mid, true)) : Sound mid := by
  have performed : perform db (.deleteUser x) = .ok mid := by
    simp only [perform, did]
    rfl
  exact sound.perform performed

theorem accountDeleted (sound : Sound db) (did : deleteUser db x = .ok (mid, true)) :
    x ∈ db.userIds ∧ AccountDeleted db x mid := by
  rcases deleteUser_ok sound.constraints sound.creators did with ⟨-, -, never⟩ | ⟨known, -, gone⟩
  · cases never
  · exact ⟨known, gone⟩

/-- One step of a deletion that goes by what is committed. -/
theorem deletion_advance {W : DepartureWorld} (sound : Sound W.committed) {n : Nat}
    {at_ : DeletePoint} {own : List Write} (known : x ∈ W.committed.userIds)
    (there : W.sessions[n]? = some (.running (.deleteUser x at_) own))
    (deleting : Deleting W.committed x at_ own) :
    (∃ next own', departureProgram.advance W n =
        ⟨W.committed, W.sessions.set n (.running (.deleteUser x next) own')⟩ ∧
        Deleting W.committed x next own') ∨
      (at_ = .commit ∧ ∃ after, deleteUser W.committed x = .ok (after, true) ∧
        departureProgram.advance W n = ⟨after, W.sessions.set n (.ended (.returned true))⟩) := by
  have next : DeleteNext W.committed x at_ (Program.heldBesides W.sessions n)
      (departureProgram.next (.deleteUser x at_) own (departureProgram.view W.committed own)
        (Program.heldBesides W.sessions n)) :=
    deleting_next sound.constraints sound.creators deleting _
  simp only [Program.advance, there]
  generalize departureProgram.next (.deleteUser x at_) own (departureProgram.view W.committed own)
    (Program.heldBesides W.sessions n) = action at next
  cases next with
  | waits lock wanted isBlocked =>
      obtain ⟨inside, isAt⟩ := List.getElem?_eq_some_iff.mp there
      refine Or.inl ⟨at_, own, ?_, deleting⟩
      rw [← isAt, List.set_getElem_self inside]
  | goesOn next own' deleting' => exact Or.inl ⟨next, own', rfl, deleting'⟩
  | commits last =>
      subst last
      exact Or.inr ⟨rfl, _, deleting_commit sound.constraints deleting, rfl⟩
  | unknown first absent => exact absurd known absent

/-- A session that is not open stays as it is. -/
theorem advance_idle {W : DepartureWorld} {n : Nat}
    (idle : ∀ point own, W.sessions[n]? ≠ some (.running point own)) :
    departureProgram.advance W n = W := by
  unfold Program.advance
  split
  · rename_i point own there
    exact absurd there (idle point own)
  · rfl

section Phases

variable {a b : UserId} {W : DepartureWorld}

/-- The first of the two to commit, on the database both started on. -/
theorem phase_first (sound : Sound db) (different : a ≠ b)
    (now : Unchanged db [.deleteUser a, .deleteUser b] W) (both : W.sessions.length = 2)
    (compatible : Program.Compatible Clash W.sessions) {n m : Nat} (turn : Turn a b n m x y)
    (knownX : x ∈ db.userIds) (knownY : y ∈ db.userIds)
    (quiet : ∀ own own' locked pending,
      W.sessions[n]? = some (.running (.deleteUser x .commit) own) →
      W.sessions[m]? = some (.running (.deleteUser y (.lockGroups locked pending)) own') →
        ¬ SharedPair db x y) : Phase db a b (departureProgram.advance W n) := by
  have inside : n < W.sessions.length := both ▸ turn.lt.1
  have inside' : m < W.sessions.length := both ▸ turn.lt.2
  obtain ⟨call, point, own, isCall, isRunning, departing⟩ :=
    now.departing n _ (List.getElem?_eq_getElem inside)
  obtain ⟨call', point', own', isCall', isRunning', departing'⟩ :=
    now.departing m _ (List.getElem?_eq_getElem inside')
  have there : W.sessions[n]? = some (.running point own) := by
    rw [List.getElem?_eq_getElem inside, isRunning]
  have there' : W.sessions[m]? = some (.running point' own') := by
    rw [List.getElem?_eq_getElem inside', isRunning']
  rw [turn.first] at isCall
  rw [turn.second] at isCall'
  cases isCall
  cases isCall'
  cases departing with
  | deleteUser _ at_ _ deleting =>
      cases departing' with
      | deleteUser _ at' _ deleting' =>
          have committed := now.committed
          subst committed
          rcases deletion_advance sound knownX there deleting with
            ⟨next, own'', stepped, going⟩ | ⟨rfl, after, did, stepped⟩
          · rw [stepped]
            refine .neither ⟨rfl, fun k session found => ?_⟩
            rcases (getElem?_replaced there).mp found with ⟨rfl, rfl⟩ | ⟨-, before⟩
            · exact ⟨_, _, _, turn.first, rfl, .deleteUser _ _ _ going⟩
            · exact now.departing k session before
          · obtain ⟨-, gone⟩ := accountDeleted sound did
            have moved := deleting_transfer sound (turn.users_ne different) gone
              (sound_deleted sound did).constraints
              (deleting_holdsAtEnd sound.constraints sound.creators deleting)
              (compatible n m _ _ _ _ turn.ne there there') deleting'
              (fun locked pending reads => quiet own own' locked pending there (reads ▸ there'))
            have rest : (W.sessions.set n (.ended (.returned true)))[m]? =
                some (.running (.deleteUser y at') own') :=
              (List.getElem?_set_ne turn.ne).trans there'
            rw [stepped]
            refine .one n m x y turn ⟨did, List.getElem?_set_self inside, ?_, at', own', rest, moved⟩
            exact (left_userIds gone).mpr ⟨knownY, Ne.symm (turn.users_ne different)⟩

/-- The second, on what the first has left. -/
theorem phase_second (sound : Sound db) {n m : Nat} (turn : Turn a b n m x y)
    (deleted : OneDeleted db W n m x y) : Phase db a b (departureProgram.advance W m) := by
  obtain ⟨at_, own, there, deleting⟩ := deleted.deleting
  obtain ⟨inside, -⟩ := List.getElem?_eq_some_iff.mp there
  have still := Program.advance_other (P := departureProgram) (W := W) turn.ne
  rw [deleted.ended] at still
  rcases deletion_advance (sound_deleted sound deleted.did) deleted.known there deleting with
    ⟨next, own', stepped, going⟩ | ⟨-, after, did, stepped⟩
  · rw [stepped] at still ⊢
    exact .one n m x y turn ⟨deleted.did, still, deleted.known, next, own',
      List.getElem?_set_self inside, going⟩
  · rw [stepped] at still ⊢
    exact .both n m x y turn
      ⟨⟨W.committed, deleted.did, did⟩, still, List.getElem?_set_self inside⟩

end Phases

section Quiet

variable {a b : UserId}

theorem deletions_length (db : Database) (a b : UserId) (schedule : List Nat) :
    ((deletions db a b).run schedule).sessions.length = 2 :=
  Program.run_length schedule

/-- **Without a stale commit every run is in one of three phases.** -/
theorem phase_run (sound : Sound db) (different : a ≠ b) (knownA : a ∈ db.userIds)
    (knownB : b ∈ db.userIds) (schedule : List Nat)
    (quiet : EachStep (fun earlier n => ¬ Stale db a b earlier n) schedule) :
    Phase db a b ((deletions db a b).run schedule) := by
  induction schedule using List.reverseRecOn with
  | nil => exact .neither (unchanged_opened db _)
  | append_singleton schedule k ih =>
      obtain ⟨before, last⟩ := (eachStep_snoc _ _ _).mp quiet
      have both := deletions_length db a b schedule
      rw [System.run_snoc]
      change Phase db a b (departureProgram.advance ((deletions db a b).run schedule) k)
      by_cases inside : k < 2
      · cases ih before with
        | neither now =>
            obtain ⟨m, x, y, turn⟩ := turn_of_lt a b inside
            have known : x ∈ db.userIds ∧ y ∈ db.userIds := by
              cases turn
              · exact ⟨knownA, knownB⟩
              · exact ⟨knownB, knownA⟩
            refine phase_first sound different now both (departures_compatible db _ schedule) turn
              known.1 known.2 fun own own' locked pending there there' pair => last ?_
            exact ⟨m, x, y, own, own', locked, pending, there, there', now.committed.symm ▸ pair⟩
        | one n m x y turn deleted =>
            rcases turn.cover inside with rfl | rfl
            · rw [advance_idle fun point own there => by cases deleted.ended.symm.trans there]
              exact .one k m x y turn deleted
            · exact phase_second sound turn deleted
        | both n m x y turn deleted =>
            rw [advance_idle ?_]
            · exact .both n m x y turn deleted
            · intro point own there
              rcases turn.cover inside with rfl | rfl
              · cases deleted.ended.symm.trans there
              · cases deleted.ended'.symm.trans there
      · rw [advance_idle ?_]
        · exact ih before
        · intro point own there
          have within := (List.getElem?_eq_some_iff.mp there).1
          omega

/-- A group of just the two goes with the second of them. -/
theorem shared_gone (sound : Sound db) {after : Database} (different : x ≠ y)
    (did : DeletedInTurn db x y after) {g : GroupId}
    (members : ∀ uid, db.IsMember g uid ↔ uid = x ∨ uid = y) : g ∉ after.groupIds := by
  obtain ⟨mid, first, second⟩ := did
  obtain ⟨-, gone⟩ := accountDeleted sound first
  obtain ⟨-, gone'⟩ := accountDeleted (sound_deleted sound first) second
  intro listed
  obtain ⟨row, stored, rfl⟩ := List.mem_map.mp listed
  obtain ⟨old, -, stays, rfl⟩ := (gone'.groups row).mp stored
  rw [withoutUser_id] at members
  refine stays (onlyMember_iff.mpr ⟨?_, fun uid member => ?_⟩)
  · exact (left_isMember gone).mpr ⟨(members y).mpr (Or.inr rfl), Ne.symm different⟩
  · obtain ⟨member, other⟩ := (left_isMember gone).mp member
    exact ((members uid).mp member).resolve_left other

theorem agrees_of_both (sound : Sound db) (different : a ≠ b) {schedule : List Nat} {n m : Nat}
    (turn : Turn a b n m x y) (deleted : BothDeleted db ((deletions db a b).run schedule) n m x y) :
    Agrees db a b schedule := by
  have returned : ((deletions db a b).run schedule).sessions =
      [.ended (.returned true), .ended (.returned true)] := by
    obtain ⟨first, second, both⟩ := List.length_eq_two.mp (deletions_length db a b schedule)
    have ended := deleted.ended
    have ended' := deleted.ended'
    rw [both] at ended ended' ⊢
    cases turn <;> cases ended <;> cases ended' <;> rfl
  refine ⟨returned, fun earlier before k isNull => ?_, ?_, fun g members => ?_⟩
  · have final := (deletions db a b).stays
      (P := fun W => W.sessions[k]? = some (.ended (.raised (.integrityError .notNull))))
      (fun W n ended => Program.advance_ended ended n) before isNull
    rw [returned] at final
    have listed := List.mem_of_getElem? final
    simp at listed
  · cases turn with
    | straight => exact Or.inl deleted.did
    | crossed => exact Or.inr deleted.did
  · refine shared_gone sound (turn.users_ne different) deleted.did fun uid => ?_
    rw [members uid]
    cases turn with
    | straight => rfl
    | crossed => exact or_comm

/-- Two deletions that end without a stale commit agree with a serial order. -/
theorem agrees_of_quiet (sound : Sound db) (different : a ≠ b) (knownA : a ∈ db.userIds)
    (knownB : b ∈ db.userIds) {schedule : List Nat}
    (ended : ∀ session ∈ ((deletions db a b).run schedule).sessions, session.hasEnded = true)
    (quiet : EachStep (fun earlier n => ¬ Stale db a b earlier n) schedule) :
    Agrees db a b schedule := by
  cases phase_run sound different knownA knownB schedule quiet with
  | neither now =>
      have inside : 0 < ((deletions db a b).run schedule).sessions.length := by
        rw [deletions_length]
        decide
      obtain ⟨_, _, _, -, isRunning, -⟩ := now.departing 0 _ (List.getElem?_eq_getElem inside)
      have hasEnded := ended _ (List.getElem_mem inside)
      rw [isRunning] at hasEnded
      cases hasEnded
  | one n m x y turn deleted =>
      obtain ⟨at_, own, there, -⟩ := deleted.deleting
      cases ended _ (List.mem_of_getElem? there)
  | both n m x y turn deleted => exact agrees_of_both sound different turn deleted

end Quiet

/-! ## After a stale commit -/

/-- The user is alone in a group they created. -/
def LeftAlone (mid : Database) (y : UserId) (g : GroupId) : Prop :=
  ∃ row ∈ mid.groups, row.id = g ∧ row.creatorId = y ∧ OnlyMember mid g y

/-- A deletion with a count above one for a group its user is alone in. -/
inductive Doomed (mid : Database) (y : UserId) (g : GroupId) : DeletePoint → List Write → Prop where
  | lockGroups (locked pending : List (GroupId × Nat)) (own : List Write)
      (nothing : departureProgram.view mid own = mid)
      (ascending : Ascending Prod.fst (locked ++ pending)) (count : Nat)
      (read : (g, count) ∈ locked ++ pending) (many : 1 < count) :
      Doomed mid y g (.lockGroups locked pending) own
  | deleteGroups (rows : List (GroupId × Nat)) (own : List Write)
      (nothing : departureProgram.view mid own = mid) (ascending : Ascending Prod.fst rows)
      (count : Nat) (read : (g, count) ∈ rows) (many : 1 < count) :
      Doomed mid y g (.deleteGroups rows) own
  | updateGroups (groupIds : List GroupId) (own : List Write) (some_ : groupIds ≠ [])
      (fails : reassignGroups (departureProgram.view mid own) y groupIds =
        .error (.integrityError .notNull)) : Doomed mid y g (.updateGroups groupIds) own

inductive DoomedNext (mid : Database) (y : UserId) (g : GroupId) : Next → Prop where
  | waits : DoomedNext mid y g .wait
  | goesOn (next : DeletePoint) (own : List Write) (doomed : Doomed mid y g next own) :
      DoomedNext mid y g (.proceed id (.deleteUser y next) own)
  | raises : DoomedNext mid y g (.rollback (.raised (.integrityError .notNull)))

section Doomed

variable {g : GroupId}

/-- Deleting the sole-member groups keeps the group, and its bulk update has no new
creator for it. -/
theorem reassign_fails (alone : LeftAlone mid y g) {rows : List (GroupId × Nat)}
    (ascending : Ascending Prod.fst rows) {count : Nat} (read : (g, count) ∈ rows)
    (many : 1 < count) :
    reassignGroups (departureProgram.view mid (soleWrites rows)) y (multiOf rows) =
      .error (.integrityError .notNull) := by
  obtain ⟨row, stored, rfl, creator, only⟩ := alone
  have multi : row.id ∈ multiOf rows :=
    List.mem_map.mpr ⟨_, List.mem_filter.mpr ⟨read, by simpa using many⟩, rfl⟩
  have notSole : row.id ∉ soleOf rows := by
    intro listed
    obtain ⟨other, chosen, same⟩ := List.mem_map.mp listed
    obtain ⟨inRows, few⟩ := List.mem_filter.mp chosen
    rw [ascending.unique inRows read same] at few
    have atMost : count ≤ 1 := by simpa using few
    omega
  have left : row ∈ (departureProgram.view mid (soleWrites rows)).groups ∧
      newCreator (departureProgram.view mid (soleWrites rows)) y row.id = none := by
    unfold soleWrites
    by_cases none_ : soleOf rows = []
    · rw [if_pos none_]
      exact ⟨stored, newCreator_none.mpr only.2⟩
    · rw [if_neg none_]
      have kept : mid.groupGone (fun r => decide (r.id ∈ soleOf rows)) row.id = false := by
        rw [← Bool.not_eq_true, Database.groupGone_iff]
        rintro ⟨other, -, chosen, same⟩
        exact notSole (same ▸ of_decide_eq_true chosen)
      refine ⟨List.mem_filter.mpr ⟨stored, by simpa using notSole⟩, ?_⟩
      change newCreator (mid.deleteGroupsWhere fun r => decide (r.id ∈ soleOf rows)) y row.id = none
      rw [newCreator, remaining, membersOf_deleteGroupsWhere kept]
      exact newCreator_none.mpr only.2
  unfold reassignGroups
  rw [if_pos (List.any_eq_true.mpr ⟨row, left.1, ?_⟩)]
  simp [multi, creator, left.2]

theorem doomed_next (alone : LeftAlone mid y g) {at_ : DeletePoint} {own : List Write}
    (doomed : Doomed mid y g at_ own) (held : List Write) :
    DoomedNext mid y g (nextDelete y at_ own (departureProgram.view mid own) held) := by
  cases doomed with
  | lockGroups locked pending _ nothing ascending count read many =>
      rw [nothing]
      cases pending with
      | nil =>
          rw [List.append_nil] at ascending read
          exact .goesOn _ _ (.deleteGroups locked own nothing ascending count read many)
      | cons row pending =>
          simp only [nextDelete]
          split
          · rename_i absent
            have others : (g, count) ∈ locked ++ pending := by
              rcases List.mem_append.mp read with early | late
              · exact List.mem_append_left _ early
              · rcases List.mem_cons.mp late with rfl | later
                · obtain ⟨group, stored, isGroup, -⟩ := alone
                  exact absurd (List.mem_map.mpr ⟨group, stored, isGroup⟩) absent
                · exact List.mem_append_right _ later
            have sorted : Ascending Prod.fst (locked ++ pending) :=
              List.Pairwise.sublist ((List.sublist_cons_self row pending).append_left locked)
                ascending
            exact .goesOn _ _ (.lockGroups locked pending own nothing sorted count others many)
          · split
            · exact .waits
            · rw [List.append_cons] at ascending read
              refine .goesOn _ _ (.lockGroups _ pending _ ?_ ascending count read many)
              rw [Program.view_append, nothing]
              rfl
  | deleteGroups rows _ nothing ascending count read many =>
      refine .goesOn _ _ (.updateGroups _ _ ?_ ?_)
      · intro none_
        have multi : g ∈ multiOf rows :=
          List.mem_map.mpr ⟨_, List.mem_filter.mpr ⟨read, by simpa using many⟩, rfl⟩
        rw [none_] at multi
        cases multi
      · rw [Program.view_append, nothing]
        exact reassign_fails alone ascending read many
  | updateGroups groupIds _ some_ fails =>
      simp only [nextDelete]
      rw [if_neg some_, fails]
      exact .raises

/-- The second deletion is doomed, or has failed; the first is over. -/
structure DoomedWorld (mid : Database) (y : UserId) (g : GroupId) (m : Nat) (W : DepartureWorld) :
    Prop where
  committed : W.committed = mid
  only : ∀ (k : Nat) point own, W.sessions[k]? = some (.running point own) → k = m
  doomed : (∃ at_ own, W.sessions[m]? = some (.running (.deleteUser y at_) own) ∧
      Doomed mid y g at_ own) ∨
    W.sessions[m]? = some (.ended (.raised (.integrityError .notNull)))

theorem doomedWorld_step (alone : LeftAlone mid y g) {m : Nat} {W : DepartureWorld}
    (now : DoomedWorld mid y g m W) (k : Nat) :
    DoomedWorld mid y g m (departureProgram.advance W k) := by
  by_cases running : ∃ point own, W.sessions[k]? = some (.running point own)
  · obtain ⟨point, own, there⟩ := running
    have same := now.only k point own there
    subst same
    obtain ⟨inside, -⟩ := List.getElem?_eq_some_iff.mp there
    rcases now.doomed with ⟨at_, own', there', doomed⟩ | ended
    · rw [there'] at there
      cases there
      have next : DoomedNext mid y g (departureProgram.next (.deleteUser y at_) own
          (departureProgram.view mid own) (Program.heldBesides W.sessions k)) :=
        doomed_next alone doomed _
      simp only [Program.advance, there', now.committed]
      generalize departureProgram.next (.deleteUser y at_) own (departureProgram.view mid own)
        (Program.heldBesides W.sessions k) = action at next
      cases next with
      | waits => exact now
      | goesOn next own' doomed' =>
          refine ⟨rfl, fun j point own found => ?_,
            Or.inl ⟨next, own', List.getElem?_set_self inside, doomed'⟩⟩
          rcases (getElem?_replaced there').mp found with ⟨rfl, -⟩ | ⟨-, before⟩
          · rfl
          · exact now.only j point own before
      | raises =>
          refine ⟨rfl, fun j point own found => ?_, Or.inr (List.getElem?_set_self inside)⟩
          rcases (getElem?_replaced there').mp found with ⟨rfl, -⟩ | ⟨-, before⟩
          · rfl
          · exact now.only j point own before
    · rw [ended] at there
      cases there
  · rw [advance_idle fun point own there => running ⟨point, own, there⟩]
    exact now

end Doomed

section Stale

variable {a b : UserId}

/-- The deletion of one of a pair leaves the other alone. -/
theorem leftAlone_of_pair (gone : AccountDeleted db x mid) (different : x ≠ y) {row : Group}
    (stored : row ∈ db.groups) (creator : row.creatorId = y)
    (members : ∀ uid, db.IsMember row.id uid ↔ uid = x ∨ uid = y) : LeftAlone mid y row.id := by
  have memberX : db.IsMember row.id x := (members x).mpr (Or.inl rfl)
  have memberY : db.IsMember row.id y := (members y).mpr (Or.inr rfl)
  refine ⟨withoutUser db x row, (gone.groups _).mpr ⟨row, stored, ?_, rfl⟩, withoutUser_id row, ?_,
    onlyMember_iff.mpr ⟨?_, fun uid member => ?_⟩⟩
  · exact fun only => different ((onlyMember_iff.mp only).2 y memberY).symm
  · simp [withoutUser, memberX, handedOver, departed, creator, Ne.symm different]
  · exact (left_isMember gone).mpr ⟨memberY, Ne.symm different⟩
  · obtain ⟨member, other⟩ := (left_isMember gone).mp member
    exact ((members uid).mp member).resolve_left other

/-- The other's count was taken when there were two. -/
theorem doomed_of_pair (different : x ≠ y) {g : GroupId}
    (members : ∀ uid, db.IsMember g uid ↔ uid = x ∨ uid = y) {locked pending : List (GroupId × Nat)}
    {own : List Write} (deleting : Deleting db y (.lockGroups locked pending) own)
    (mid : Database) : Doomed mid y g (.lockGroups locked pending) own := by
  cases deleting with
  | going _ _ known going =>
      cases going with
      | lockGroups _ _ exact_ =>
          obtain ⟨⟨_, count⟩, read, rfl⟩ :=
            List.mem_map.mp ((exact_.groups g).mpr ((members y).mpr (Or.inr rfl)))
          refine .lockGroups locked pending _ (view_lockWrites locked) exact_.ascending count read ?_
          rw [← not_le, exact_.counts _ read, onlyMember_iff]
          exact fun only => different (only.2 x ((members x).mpr (Or.inl rfl)))

/-- **A stale commit dooms the other deletion.** -/
theorem stale_dooms (sound : Sound db) (different : a ≠ b) {earlier : List Nat} {n : Nat}
    (stale : Stale db a b earlier n) :
    ∃ mid y g m, LeftAlone mid y g ∧ m < 2 ∧
      DoomedWorld mid y g m ((deletions db a b).run (earlier ++ [n])) := by
  obtain ⟨m, x, y, own, own', locked, pending, there, there', pair⟩ := stale
  have both := deletions_length db a b earlier
  have inside := (List.getElem?_eq_some_iff.mp there).1
  have inside' := (List.getElem?_eq_some_iff.mp there').1
  have apart : m ≠ n := by
    rintro rfl
    rw [there] at there'
    cases there'
  have either : ∀ k, k < 2 → k = n ∨ k = m := fun k within => by omega
  -- nobody has ended: there are two sessions, and both are open
  have now : Unchanged db [.deleteUser a, .deleteUser b] ((deletions db a b).run earlier) := by
    rcases unchanged_or_ended [.deleteUser a, .deleteUser b] sound earlier with
      now | ⟨k, answer, ended⟩
    · exact now
    · change ((deletions db a b).run earlier).sessions[k]? = _ at ended
      have within := (List.getElem?_eq_some_iff.mp ended).1
      rcases either k (both ▸ within) with rfl | rfl
      · cases ended.symm.trans there
      · cases ended.symm.trans there'
  rw [now.committed] at pair
  obtain ⟨row, stored, creator, members⟩ := pair
  obtain ⟨_, _, _, isCall, same, departing⟩ := now.departing n _ there
  obtain ⟨_, _, _, isCall', same', departing'⟩ := now.departing m _ there'
  cases same
  cases same'
  cases departing with
  | deleteUser _ _ _ deleting =>
      cases departing' with
      | deleteUser _ _ _ deleting' =>
          have users : x ≠ y := by
            obtain ⟨k, x', y', turn⟩ := turn_of_lt a b (both ▸ inside)
            obtain rfl := (turn.cover (both ▸ inside')).resolve_left apart
            rw [turn.first] at isCall
            rw [turn.second] at isCall'
            cases isCall
            cases isCall'
            exact turn.users_ne different
          have did := deleting_commit sound.constraints deleting
          obtain ⟨-, gone⟩ := accountDeleted sound did
          refine ⟨_, y, row.id, m, leftAlone_of_pair gone users stored creator members,
            both ▸ inside', ?_⟩
          have stepped : (deletions db a b).run (earlier ++ [n]) =
              ⟨departureProgram.view db own,
                ((deletions db a b).run earlier).sessions.set n (.ended (.returned true))⟩ := by
            rw [System.run_snoc]
            change departureProgram.advance _ n = _
            simp only [Program.advance, there, now.committed]
            rfl
          rw [stepped]
          refine ⟨rfl, fun k point held found => ?_, Or.inl ⟨_, own',
            (List.getElem?_set_ne (Ne.symm apart)).trans there',
            doomed_of_pair users members deleting' _⟩⟩
          rcases (getElem?_replaced there).mp found with ⟨-, isEnded⟩ | ⟨otherSession, before⟩
          · cases isEnded
          · have within := (List.getElem?_eq_some_iff.mp before).1
            exact (either k (both ▸ within)).resolve_left otherSession

/-- A run that agrees with a serial order has no stale commit. -/
theorem quiet_of_agrees (sound : Sound db) (different : a ≠ b) {schedule : List Nat}
    (agrees : Agrees db a b schedule) :
    EachStep (fun earlier n => ¬ Stale db a b earlier n) schedule := by
  intro earlier n before stale
  obtain ⟨mid, y, g, m, alone, inside, doomed⟩ := stale_dooms sound different stale
  have final := (deletions db a b).stays (P := DoomedWorld mid y g m)
    (fun W k now => doomedWorld_step alone now k) before doomed
  have returned : ((deletions db a b).run schedule).sessions[m]? =
      some (.ended (.returned true)) := by
    rw [agrees.returned]
    obtain rfl | rfl : m = 0 ∨ m = 1 := by omega
    · rfl
    · rfl
  rcases final.doomed with ⟨at_, own, there, -⟩ | failed
  · cases returned.symm.trans there
  · cases returned.symm.trans failed

theorem known_of_agrees (sound : Sound db) {schedule : List Nat} (agrees : Agrees db a b schedule) :
    a ∈ db.userIds ∧ b ∈ db.userIds := by
  rcases agrees.inTurn with ⟨mid, first, second⟩ | ⟨mid, first, second⟩
  · obtain ⟨known, gone⟩ := accountDeleted sound first
    have later := (accountDeleted (sound_deleted sound first) second).1
    exact ⟨known, ((left_userIds gone).mp later).1⟩
  · obtain ⟨known, gone⟩ := accountDeleted sound first
    have later := (accountDeleted (sound_deleted sound first) second).1
    exact ⟨((left_userIds gone).mp later).1, known⟩

end Stale

/-- **When concurrent deletions agree with a serial order**: iff both accounts were there
and neither deletion committed into the other's `SELECT` of a group of the two. -/
theorem deletions_agree_iff (ops : List Operation) {a b : UserId} (different : a ≠ b)
    (schedule : List Nat)
    (ended : ∀ session ∈ ((deletions (service.run ops) a b).run schedule).sessions,
      session.hasEnded = true) :
    Agrees (service.run ops) a b schedule ↔
      (a ∈ (service.run ops).userIds ∧ b ∈ (service.run ops).userIds) ∧
        EachStep (fun earlier n => ¬ Stale (service.run ops) a b earlier n) schedule := by
  have sound := reachable ops
  constructor
  · exact fun agrees => ⟨known_of_agrees sound agrees, quiet_of_agrees sound different agrees⟩
  · rintro ⟨⟨knownA, knownB⟩, quiet⟩
    exact agrees_of_quiet sound different knownA knownB ended quiet

/-- Ada's deletion, then Bob's. -/
def oneAfterTheOther : List Nat := List.replicate 10 0 ++ List.replicate 8 1

theorem deletions_agree_iff_inTurn :
    Agrees (service.run creatorAndMember) 1 2 oneAfterTheOther ↔
      (1 ∈ (service.run creatorAndMember).userIds ∧ 2 ∈ (service.run creatorAndMember).userIds) ∧
        EachStep (fun earlier n => ¬ Stale (service.run creatorAndMember) 1 2 earlier n)
          oneAfterTheOther :=
  deletions_agree_iff creatorAndMember (by decide) oneAfterTheOther (by decide)

/-- Ada's deletion has counted the group's two members when Bob's runs and commits: it fails,
and her group is still there. -/
theorem stale_count_fails :
    ((deletions (service.run creatorAndMember) 1 2).run
      ([0, 0] ++ List.replicate 9 1 ++ List.replicate 4 0)).sessions =
        [.ended (.raised (.integrityError .notNull)), .ended (.returned true)] ∧
    1 ∈ ((deletions (service.run creatorAndMember) 1 2).run
      ([0, 0] ++ List.replicate 9 1 ++ List.replicate 4 0)).committed.groupIds ∧
    ¬ Agrees (service.run creatorAndMember) 1 2
      ([0, 0] ++ List.replicate 9 1 ++ List.replicate 4 0) := by
  refine ⟨by decide, by decide, fun agrees => ?_⟩
  exact absurd agrees.returned (by decide)

end Departures

end SecureMsg.Groups
