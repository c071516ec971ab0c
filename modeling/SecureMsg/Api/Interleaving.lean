/-
# Api.Interleaving — requests whose two steps fall apart

Between the dependency step and the handler step of one request, steps of other
requests may be committed.  The handler then works with the `Group` object its
dependency loaded, and `remove_member` decides by that object who the creator is.

`creators_iff`: over every interleaving, each group's creator stays a member
exactly as long as no removal is handled under a stale creator.
-/
import SecureMsg.Repository.Membership
import SecureMsg.Api.Groups

namespace SecureMsg.Api

open SecureMsg.Theory SecureMsg.Store SecureMsg.Repository

set_option autoImplicit false

structure State where
  db : Database := {}
  /-- The requests whose dependencies have run, oldest first. -/
  inFlight : List Pending := []

inductive Step where
  /-- A request arrives and its dependencies run. -/
  | arrive (requesterId : UserId) (request : Request)
  /-- The handler of the `n`-th request in flight runs to completion. -/
  | handle (n : Nat)
  /-- A call of another endpoint is committed. -/
  | other (op : Operation)

def advanceState (st : State) : Step → State
  | .arrive requesterId request =>
      match dependencies st.db requesterId request with
      | .ok pending => { st with inFlight := st.inFlight ++ [pending] }
      | .error _ => st
  | .handle n =>
      match st.inFlight[n]? with
      | none => st
      | some pending => ⟨(handle st.db pending).1, st.inFlight.eraseIdx n⟩
  | .other op => { st with db := commit st.db op }

def interleaved : System State Step := ⟨{}, advanceState⟩

/-- The handler that runs does not remove the stored creator under an object that
names somebody else. -/
def ReadsCreator (st : State) : Step → Prop
  | .handle n => ∀ pending ∈ st.inFlight[n]?, ∀ group u K,
      pending.endpoint = .onGroup group (.removeMember u K) →
        ¬ StaleCreator pending.session st.db group.id pending.currentUser.id u K
  | _ => True

variable {db : Database}

/-! ## One handler -/

theorem answer_keeps {P : Database → Prop} {β : Type} {result : Except Error (Database × β)}
    {ok : β → Response} {raised : Error → Response} (now : P db)
    (kept : ∀ after value, result = .ok (after, value) → P after) :
    P (answer db result ok raised).1 := by
  cases result with
  | ok value => exact kept value.1 value.2 rfl
  | error e => exact now

/-- What a handler other than a removal commits is what its call commits. -/
theorem handleOnGroup_other {session : Session} {currentUser : User} {group : Group}
    {request : GroupRequest} (notRemoval : ∀ u K, request ≠ .removeMember u K) :
    (handleOnGroup db session currentUser group request).1 =
      commitCall db (request.call currentUser.id group.id) :=
  handleOnGroup_fst request fun u K isRemoval => absurd isRemoval (notRemoval u K)

theorem commitCall_constraints (c : Constraints db) (call : Option Operation) :
    Constraints (commitCall db call) := by
  cases call with
  | none => exact c
  | some op => exact commit_keeps c fun _ done => perform_constraints c done

theorem commitCall_creators (c : Constraints db) (creators : CreatorsAreMembers db)
    (call : Option Operation) : CreatorsAreMembers (commitCall db call) := by
  cases call with
  | none => exact creators
  | some op => exact commit_keeps creators fun _ done => perform_creators c creators done

/-- The call a handler makes, if it writes. -/
def Pending.call (pending : Pending) : Option Operation :=
  match pending.endpoint with
  | .listGroups => none
  | .createGroup name initialMembers =>
      some (.createGroup name pending.currentUser.id initialMembers)
  | .onGroup group request => request.call pending.currentUser.id group.id
  | .deleteMe => some (.deleteUser pending.currentUser.id)

/-- A handler commits its call, in the session its dependencies have read in. -/
theorem handle_fst (db : Database) (pending : Pending) :
    (handle db pending).1 =
      match pending.call with
      | none => db
      | some op => commitIn pending.session db op := by
  obtain ⟨session, currentUser, endpoint⟩ := pending
  cases endpoint with
  | listGroups => rfl
  | createGroup name initialMembers => exact answer_fst
  | deleteMe => exact answer_fst
  | onGroup group request =>
      cases request with
      | removeMember u K => exact answer_fst
      | info | listMessages => rfl
      | addMember | sendMessage | revokeMessage | recordReceipt | sendSkdms | popSkdms =>
          show (handleOnGroup db session currentUser group _).1 = _
          rw [handleOnGroup_other (by simp)]
          rfl

/-- Where nothing was committed between its two steps, the session reads what is stored. -/
theorem dependencies_upToDate {r : UserId} {request : Request} {pending : Pending}
    (ready : dependencies db r request = .ok pending) :
    ∀ group req, pending.endpoint = .onGroup group req →
      UpToDate pending.session db group.id := by
  intro group req onGroup
  obtain ⟨currentUser, -, rest⟩ := bind_eq_ok.mp ready
  cases request with
  | onGroup groupId request =>
      obtain ⟨⟨session, row⟩, required, returned⟩ := bind_eq_ok.mp rest
      cases returned
      cases onGroup
      unfold requireGroupMember at required
      cases found : getGroup .fresh db groupId with
      | none =>
          rw [found] at required
          cases required
      | some stored =>
          rw [found] at required
          dsimp only at required
          split at required
          · cases required
            rw [getGroup, Session.selectGroup_fresh] at found
            obtain ⟨-, rfl⟩ := Database.findGroup_some found
            exact remember_upToDate found
          · cases required
  | _ =>
      cases rest
      cases onGroup

theorem handle_dependencies {r : UserId} {request : Request} {pending : Pending}
    (ready : dependencies db r request = .ok pending) :
    (handle db pending).1 = commitCall db pending.call := by
  have current := dependencies_upToDate ready
  obtain ⟨session, currentUser, endpoint⟩ := pending
  cases endpoint with
  | listGroups => rfl
  | createGroup name initialMembers => exact answer_fst
  | deleteMe => exact answer_fst
  | onGroup group req => exact handleOnGroup_fst req fun _ _ _ => current group req rfl

theorem handle_constraints (c : Constraints db) (pending : Pending) :
    Constraints (handle db pending).1 := by
  rw [handle_fst]
  cases pending.call with
  | none => exact c
  | some op => exact commitIn_constraints c op

/-- A removal that would strand the group goes through. -/
theorem staleCreator_succeeds (c : Constraints db) (creators : CreatorsAreMembers db)
    {session : Session} {g : GroupId} {r u : UserId} {K : Ciphertexts}
    (stale : StaleCreator session db g r u K) :
    ∃ after, removeMember session db g r u K = .ok (after, .removed) := by
  obtain ⟨object, stored, selected, found, rfl, -, authorised, many, known⟩ := stale
  obtain ⟨inTable, rfl⟩ := Database.findGroup_some found
  exact removeMember_succeeds c selected authorised (creators stored inTable) many known

theorem handle_creators (c : Constraints db) (creators : CreatorsAreMembers db)
    (pending : Pending) :
    CreatorsAreMembers (handle db pending).1 ↔ ∀ group u K,
      pending.endpoint = .onGroup group (.removeMember u K) →
        ¬ StaleCreator pending.session db group.id pending.currentUser.id u K := by
  obtain ⟨session, currentUser, endpoint⟩ := pending
  cases endpoint with
  | listGroups => exact iff_of_true creators (by simp)
  | createGroup name initialMembers =>
      refine iff_of_true ?_ (by simp)
      exact answer_keeps creators fun _ _ done => createGroup_creators c creators done
  | deleteMe =>
      refine iff_of_true ?_ (by simp)
      exact answer_keeps creators fun _ _ done => deleteUser_creators c creators done
  | onGroup group request =>
      cases request with
      | removeMember u K =>
          have onlyThis : (∀ group' u' K', Endpoint.onGroup group (.removeMember u K) =
              .onGroup group' (.removeMember u' K') →
                ¬ StaleCreator session db group'.id currentUser.id u' K') ↔
              ¬ StaleCreator session db group.id currentUser.id u K := by
            constructor
            · exact fun all => all group u K rfl
            · intro fresh group' u' K' same
              cases same
              exact fresh
          rw [onlyThis]
          show CreatorsAreMembers (answer db (removeMember session db group.id currentUser.id u K)
            _ _).1 ↔ _
          cases done : removeMember session db group.id currentUser.id u K with
          | ok result => exact removeMember_creators c creators done
          | error e =>
              refine iff_of_true creators ?_
              intro stale
              obtain ⟨after, goes⟩ := staleCreator_succeeds c creators stale
              rw [done] at goes
              cases goes
      | _ =>
          refine iff_of_true ?_ (by simp)
          show CreatorsAreMembers (handleOnGroup db session currentUser group _).1
          rw [handleOnGroup_other (by simp)]
          exact commitCall_creators c creators _

/-! ## Every interleaving -/

/-- A dependency step only reads. -/
theorem advanceState_arrive {st : State} (requesterId : UserId) (request : Request) :
    (advanceState st (.arrive requesterId request)).db = st.db := by
  unfold advanceState
  cases ready : dependencies st.db requesterId request with
  | ok pending => simp only [ready]
  | error response => simp only [ready]

theorem advanceState_handle {st : State} {n : Nat} {pending : Pending}
    (isNext : st.inFlight[n]? = some pending) :
    (advanceState st (.handle n)).db = (handle st.db pending).1 := by
  simp only [advanceState, isNext]

theorem advanceState_idle {st : State} {n : Nat} (noRequest : st.inFlight[n]? = none) :
    advanceState st (.handle n) = st := by
  simp only [advanceState, noRequest]

theorem advanceState_constraints {st : State} (c : Constraints st.db) (s : Step) :
    Constraints (advanceState st s).db := by
  cases s with
  | arrive requesterId request =>
      rw [advanceState_arrive]
      exact c
  | handle n =>
      cases next : st.inFlight[n]? with
      | none =>
          rw [advanceState_idle next]
          exact c
      | some pending =>
          rw [advanceState_handle next]
          exact handle_constraints c pending
  | other op => exact commitCall_constraints c (some op)

theorem advanceState_creators {st : State} (c : Constraints st.db)
    (creators : CreatorsAreMembers st.db) (s : Step) :
    CreatorsAreMembers (advanceState st s).db ↔ ReadsCreator st s := by
  cases s with
  | arrive requesterId request =>
      rw [advanceState_arrive]
      exact iff_of_true creators trivial
  | handle n =>
      cases next : st.inFlight[n]? with
      | none =>
          rw [advanceState_idle next]
          refine iff_of_true creators ?_
          intro pending isNext
          rw [next] at isNext
          cases isNext
      | some pending =>
          rw [advanceState_handle next, handle_creators c creators pending]
          constructor
          · intro fresh found isNext
            rw [next] at isNext
            cases isNext
            exact fresh
          · exact fun fresh => fresh pending next
  | other op => exact iff_of_true (commitCall_creators c creators (some op)) trivial

/-- **Ownership survives exactly the interleavings without a stale removal.** -/
theorem creators_iff (steps : List Step) :
    Throughout (fun earlier => CreatorsAreMembers (interleaved.run earlier).db) steps ↔
      EachStep (fun earlier s => ReadsCreator (interleaved.run earlier) s) steps := by
  refine throughout_iff_eachStep ?_ ?_ steps
  · exact fun row stored => absurd stored List.not_mem_nil
  · intro earlier s creators
    have c : Constraints (interleaved.run earlier).db :=
      interleaved.invariant (P := fun st => Constraints st.db) sound_empty.constraints
        (fun st s c => advanceState_constraints c s) earlier
    rw [System.run_snoc]
    exact advanceState_creators c creators s

instance (db : Database) : Decidable (CreatorsAreMembers db) :=
  inferInstanceAs (Decidable (∀ row ∈ db.groups, db.IsMember row.id row.creatorId))

/-- Ada creates a group of four and leaves; between the two steps of Bob's own
leave, which loaded Ada as creator, Bob has become the creator. -/
def twoLeave : List Step :=
  [.other (.createUser "ada" "5a" [1] [2]), .other (.createUser "bob" "5b" [3] [4]),
    .other (.createUser "cyd" "5c" [5] [6]), .other (.createUser "dee" "5d" [7] [8]),
    .arrive 1 (.createGroup "team" ⟨[(2, [12]), (3, [13]), (4, [14])], by decide⟩), .handle 0,
    .arrive 2 (.onGroup 1 (.removeMember 2 Dict.empty)),
    .arrive 1 (.onGroup 1 (.removeMember 1 Dict.empty)), .handle 1, .handle 0]

theorem two_leave_strands_group :
    ¬ Throughout (fun earlier => CreatorsAreMembers (interleaved.run earlier).db) twoLeave := by
  decide

end SecureMsg.Api
