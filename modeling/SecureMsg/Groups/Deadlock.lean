/-
# Groups.Deadlock — two departures that wait for each other

`remove_member` and `delete_user` take `groups` rows in id order, but the check of
a new creator goes back to `users` with groups in hand.  A departure that makes a
user the creator and that user's own deletion take the two rows in opposite order.

`deadlock_free_iff`: two departures can come to wait for each other exactly when
one is the deletion of a user whom the other makes the creator of a group.
-/
import SecureMsg.Groups.DepartureSteps

namespace SecureMsg.Groups

open SecureMsg.Theory SecureMsg.Store SecureMsg.Repository

set_option autoImplicit false

namespace Departures

variable {db : Database} {calls : List Call} {W : DepartureWorld} {n m : Nat}

/-! ## While no session has ended -/

/-- Every session is open, on the database it started on. -/
structure Unchanged (db : Database) (calls : List Call) (W : DepartureWorld) : Prop where
  committed : W.committed = db
  departing : ∀ (n : Nat) session, W.sessions[n]? = some session → ∃ call point own,
    calls[n]? = some call ∧ session = .running point own ∧ Departing db call point own

/-- The sessions of a call that has not started. -/
theorem opened_session {session : Theory.Session Point Write Answer} :
    (opened db calls).sessions[n]? = some session ↔
      ∃ call, calls[n]? = some call ∧ session = .running (firstPoint call) [] := by
  simp [opened, eq_comm]

theorem departing_first (call : Call) : Departing db call (firstPoint call) [] := by
  cases call with
  | deleteUser userId => exact .deleteUser userId _ _ .start
  | removeMember removal => exact .removeMember removal _ _ .start

theorem unchanged_opened (db : Database) (calls : List Call) :
    Unchanged db calls (opened db calls) := by
  refine ⟨rfl, fun n session at_ => ?_⟩
  obtain ⟨call, isCall, rfl⟩ := opened_session.mp at_
  exact ⟨call, _, _, isCall, rfl, departing_first call⟩

/-- One step: nobody has ended still, or the stepping session has.  It held what a
departure holds at its end, and has done what its method does. -/
theorem unchanged_advance (sound : Sound db) (now : Unchanged db calls W) (n : Nat) :
    Unchanged db calls (departureProgram.advance W n) ∨
      ∃ call point own answer, calls[n]? = some call ∧
        W.sessions[n]? = some (.running point own) ∧ HoldsAtEnd db call own ∧
        (departureProgram.advance W n).sessions[n]? = some (.ended answer) ∧
        Answers db call answer (departureProgram.advance W n).committed := by
  cases at_ : W.sessions[n]? with
  | none =>
      have stayed : departureProgram.advance W n = W := by simp only [Program.advance, at_]
      rw [stayed]
      exact Or.inl now
  | some session =>
      obtain ⟨call, point, own, isCall, rfl, departing⟩ := now.departing n session at_
      obtain ⟨inside, -⟩ := List.getElem?_eq_some_iff.mp at_
      have next := departing_next sound departing (Program.heldBesides W.sessions n)
      simp only [Program.advance, at_, now.committed]
      generalize departureProgram.next point own (departureProgram.view db own)
        (Program.heldBesides W.sessions n) = action at next
      cases next with
      | waits lock wanted isBlocked promotes => exact Or.inl now
      | goesOn point' own' departing' =>
          refine Or.inl ⟨rfl, fun k session found => ?_⟩
          rcases (getElem?_replaced at_).mp found with ⟨rfl, rfl⟩ | ⟨-, before⟩
          · exact ⟨call, point', own', isCall, rfl, departing'⟩
          · exact now.departing k session before
      | commits answer did holds =>
          exact Or.inr
            ⟨call, point, own, answer, isCall, rfl, holds, List.getElem?_set_self inside, did⟩
      | rollsBack answer did holds =>
          exact Or.inr
            ⟨call, point, own, answer, isCall, rfl, holds, List.getElem?_set_self inside, did⟩

/-- In every run the database is the first one until a session ends. -/
theorem unchanged_or_ended (calls : List Call) (sound : Sound db) (schedule : List Nat) :
    Unchanged db calls ((departures db calls).run schedule) ∨
      ∃ (n : Nat) (answer : Answer),
        ((departures db calls).run schedule).sessions[n]? = some (.ended answer) := by
  refine (departures db calls).invariant (P := fun W => Unchanged db calls W ∨
    ∃ (n : Nat) (answer : Answer), W.sessions[n]? = some (.ended answer)) ?_ ?_ schedule
  · exact Or.inl (unchanged_opened db calls)
  · rintro W n (now | ⟨k, answer, ended⟩)
    · rcases unchanged_advance sound now n with still | ⟨_, _, _, answer, -, -, -, ended, -⟩
      · exact Or.inl still
      · exact Or.inr ⟨n, answer, ended⟩
    · exact Or.inr ⟨k, answer, Program.advance_ended ended n⟩

/-- A session that waits wants a row that another session holds. -/
theorem waits_inversion (sound : Sound db) (now : Unchanged db calls W)
    (waits : departureProgram.Waits W n) :
    ∃ call point own lock, calls[n]? = some call ∧ W.sessions[n]? = some (.running point own) ∧
      Departing db call point own ∧ point.wants = some lock ∧
      (∀ uid, lock = .userKeyShare uid → Promotes db call uid) ∧
      ∃ m point' own' other, m ≠ n ∧ W.sessions[m]? = some (.running point' own') ∧
        .lock other ∈ own' ∧ lock.conflicts other = true := by
  obtain ⟨point, own, at_, waited⟩ := waits
  obtain ⟨call, _, _, isCall, same, departing⟩ := now.departing n _ at_
  cases same
  have next := departing_next sound departing (Program.heldBesides W.sessions n)
  rw [now.committed] at waited
  rw [waited] at next
  cases next with
  | waits lock wanted isBlocked promotes =>
      obtain ⟨other, isHeld, conflict⟩ := blocked_iff.mp isBlocked
      obtain ⟨m, point', own', different, there, held⟩ := Program.mem_heldBesides.mp isHeld
      exact ⟨call, point, own, lock, isCall, at_, departing, wanted, promotes, m, point', own',
        other, different, there, held, conflict⟩

/-- **A departure on its own does what its method does.** -/
theorem departure_alone (sound : Sound db) (call : Call) :
    ∃ k answer, ((departures db [call]).run (List.replicate k 0)).sessions = [.ended answer] ∧
      Answers db call answer ((departures db [call]).run (List.replicate k 0)).committed := by
  have inside : ∀ W, Unchanged db [call] W → ∀ n session, W.sessions[n]? = some session → n = 0 := by
    intro W now n session at_
    obtain ⟨_, _, _, isCall, -, -⟩ := now.departing n session at_
    simpa using (List.getElem?_eq_some_iff.mp isCall).1
  have ends : ∀ k, Unchanged db [call] ((departures db [call]).run (List.replicate k 0)) ∨
      ∃ answer, ((departures db [call]).run (List.replicate k 0)).sessions = [.ended answer] ∧
        Answers db call answer ((departures db [call]).run (List.replicate k 0)).committed := by
    intro k
    induction k with
    | zero => exact Or.inl (unchanged_opened db [call])
    | succ k ih =>
        rw [List.replicate_succ', System.run_snoc]
        rcases ih with now | ⟨answer, ended, did⟩
        · rcases unchanged_advance sound now 0 with still | ⟨_, _, _, answer, isCall, -, -, ended, did⟩
          · exact Or.inl still
          · cases isCall
            refine Or.inr ⟨answer, List.ext_getElem? fun i => ?_, did⟩
            cases i with
            | zero => exact ended
            | succ i =>
                refine (Program.advance_other (Nat.succ_ne_zero i)).trans ?_
                cases there : ((departures db [call]).run (List.replicate k 0)).sessions[i + 1]? with
                | none => rfl
                | some session => exact absurd (inside _ now _ _ there) (Nat.succ_ne_zero i)
        · have stayed : (departures db [call]).step
              ((departures db [call]).run (List.replicate k 0)) 0 =
                (departures db [call]).run (List.replicate k 0) := by
            have isEnded : ((departures db [call]).run (List.replicate k 0)).sessions[0]? =
                some (.ended answer) := by rw [ended]; rfl
            change departureProgram.advance _ 0 = _
            simp only [Program.advance, isEnded]
          rw [stayed]
          exact Or.inr ⟨answer, ended, did⟩
  have first : ((departures db [call]).run []).sessions[0]? =
      some (.running (firstPoint call) []) := rfl
  obtain ⟨k, stopped⟩ := Program.stops rank
    (fun _ _ _ _ _ _ _ did => (nextDeparture_goesOn did).later) first
  rw [List.nil_append] at stopped
  rcases ends k with now | ⟨answer, ended, did⟩
  · rcases stopped with waits | ⟨answer, ended⟩
    · obtain ⟨_, _, _, _, -, -, -, -, -, m, _, _, _, different, there, -⟩ :=
        waits_inversion sound now waits
      exact absurd (inside _ now m _ there) different
    · obtain ⟨_, _, _, -, same, -⟩ := now.departing 0 _ ended
      cases same
  · exact ⟨k, answer, ended, did⟩

/-! ## Who waits for whom -/

theorem conflicts_user {lock : Lock} {uid : UserId} (conflict : lock.conflicts (.user uid) = true) :
    lock = .user uid ∨ lock = .userKeyShare uid := by
  cases lock <;> simp_all [Lock.conflicts]

theorem conflicts_share {other : Lock} {uid : UserId}
    (conflict : (Lock.userKeyShare uid).conflicts other = true) : other = .user uid := by
  cases other <;> simp_all [Lock.conflicts]

theorem conflicts_group {other : Lock} {g : GroupId}
    (conflict : (Lock.group g).conflicts other = true) : other = .group g := by
  cases other <;> simp_all [Lock.conflicts]

/-- The first departure makes a user the creator whose own deletion the second is. -/
def Crosses (db : Database) (one other : Call) : Prop :=
  ∃ uid, other = .deleteUser uid ∧ Promotes db one uid

/-- The two sessions wait, each for a row that only the other can hold. -/
def Deadlocked (W : DepartureWorld) : Prop :=
  departureProgram.Waits W 0 ∧ departureProgram.Waits W 1

/-- Of two departures that wait for each other one checks a new creator, and that
user's deletion is the other: `groups` rows alone are taken in order. -/
theorem deadlocked_crosses (sound : Sound db) {one other : Call}
    (now : Unchanged db [one, other] W) (dead : Deadlocked W) :
    Crosses db one other ∨ Crosses db other one := by
  obtain ⟨call₀, point₀, own₀, lock₀, isCall₀, at₀, departing₀, wanted₀, promotes₀,
    m₁, _, _, held₁, different₁, there₁, holds₁, conflict₁⟩ := waits_inversion sound now dead.1
  obtain ⟨call₁, point₁, own₁, lock₁, isCall₁, at₁, departing₁, wanted₁, promotes₁,
    m₀, _, _, held₀, different₀, there₀, holds₀, conflict₀⟩ := waits_inversion sound now dead.2
  cases isCall₀
  cases isCall₁
  -- there are two sessions, so the holder is the other one
  have inside : ∀ (k : Nat) point own, W.sessions[k]? = some (.running point own) → k < 2 := by
    intro k point own found
    obtain ⟨call, _, _, isCall, -, -⟩ := now.departing k _ found
    exact (List.getElem?_eq_some_iff.mp isCall).1
  have second : m₁ = 1 := by
    have below := inside m₁ _ _ there₁
    omega
  have first : m₀ = 0 := by
    have below := inside m₀ _ _ there₀
    omega
  subst second
  subst first
  rw [at₁] at there₁
  cases there₁
  rw [at₀] at there₀
  cases there₀
  cases lock₀ with
  | user uid =>
      rw [(departing₀.wants_user wanted₀).2] at holds₀
      cases holds₀
  | userKeyShare uid =>
      rw [conflicts_share conflict₁] at holds₁
      exact Or.inl ⟨uid, departing₁.holds_user holds₁, promotes₀ uid rfl⟩
  | group g =>
      rw [conflicts_group conflict₁] at holds₁
      cases lock₁ with
      | user uid =>
          rw [(departing₁.wants_user wanted₁).2] at holds₁
          cases holds₁
      | userKeyShare uid =>
          rw [conflicts_share conflict₀] at holds₀
          exact Or.inr ⟨uid, departing₀.holds_user holds₀, promotes₁ uid rfl⟩
      | group g' =>
          rw [conflicts_group conflict₀] at holds₀
          have before := departing₀.wants_group wanted₀ holds₀
          have after := departing₁.wants_group wanted₁ holds₁
          exact absurd before (lt_asymm after)

/-! ## A crossing closes -/

/-- A statement that waits for a row waits as long as the row is held. -/
theorem wait_again {point : Point} {own held held' : List Write} {view : Database} {lock : Lock}
    (waited : departureProgram.next point own view held = .wait) (wanted : point.wants = some lock)
    (isBlocked : blocked lock held' = true) :
    departureProgram.next point own view held' = .wait := by
  cases point with
  | deleteUser userId at_ =>
      change nextDelete userId at_ own view held = .wait at waited
      change nextDelete userId at_ own view held' = .wait
      cases at_ with
      | start =>
          cases wanted
          simp only [nextDelete] at waited ⊢
          split at waited
          · cases waited
          · rename_i known
            rw [if_neg known, if_pos isBlocked]
      | lockGroups locked pending =>
          cases pending with
          | nil => cases wanted
          | cons row pending =>
              cases wanted
              simp only [nextDelete] at waited ⊢
              split at waited
              · cases waited
              · rename_i stored
                rw [if_neg stored, if_pos isBlocked]
      | checkCreators newCreators =>
          cases newCreators with
          | nil => cases wanted
          | cons creatorId rest =>
              cases wanted
              exact if_pos isBlocked
      | _ => cases wanted
  | removeMember removal at_ =>
      change nextRemove removal at_ own view held = .wait at waited
      change nextRemove removal at_ own view held' = .wait
      cases at_ with
      | start =>
          cases wanted
          simp only [nextRemove] at waited ⊢
          cases selected : removal.session.selectGroup view removal.groupId with
          | none =>
              rw [selected] at waited
              cases waited
          | some group => exact if_pos isBlocked
      | updateCreator creatorId =>
          cases wanted
          simp only [nextRemove] at waited ⊢
          split at waited
          · cases waited
          · rename_i changes
            rw [if_neg changes, if_pos isBlocked]
      | _ => cases wanted

theorem departure_grows : departureProgram.Grows := by
  intro point own view held draw point' own' did
  obtain ⟨added, rfl, -⟩ := (nextDeparture_goesOn did).takes
  exact List.subset_append_left own added

theorem Promotes.known (sound : Sound db) {call : Call} {uid : UserId}
    (promotes : Promotes db call uid) : uid ∈ db.userIds ∧ call ≠ .deleteUser uid := by
  cases call with
  | deleteUser userId =>
      refine ⟨PromotesByDeletion.known sound.constraints promotes, fun same => ?_⟩
      cases same
      obtain ⟨row, -, -, least⟩ := promotes
      exact (newCreator_some least).2 rfl
  | removeMember removal =>
      refine ⟨(sound.constraints.member_exists (newCreator_some promotes.least).1).2, ?_⟩
      exact fun same => by cases same

/-- A deletion on its own among sessions that have not started takes its user's row. -/
theorem deletion_starts {uid : UserId} (isCall : calls[m]? = some (.deleteUser uid))
    (known : uid ∈ db.userIds) :
    ((departures db calls).run [m]).sessions[m]? =
      some (.running (.deleteUser uid .readGroups) [.lock (.user uid)]) := by
  have at_ : (opened db calls).sessions[m]? = some (.running (.deleteUser uid .start) []) :=
    opened_session.mpr ⟨_, isCall, rfl⟩
  obtain ⟨inside, -⟩ := List.getElem?_eq_some_iff.mp at_
  have free : blocked (.user uid) (Program.heldBesides (opened db calls).sessions m) = false := by
    rw [← Bool.not_eq_true, blocked_iff]
    rintro ⟨other, isHeld, -⟩
    obtain ⟨k, point, own, -, there, held⟩ := Program.mem_heldBesides.mp isHeld
    rw [opened_fresh k point own there] at held
    cases held
  have next : departureProgram.next (.deleteUser uid .start) [] (departureProgram.view db [])
      (Program.heldBesides (opened db calls).sessions m) =
        .proceed id (.deleteUser uid .readGroups) [.lock (.user uid)] := by
    change nextDelete uid .start [] db (Program.heldBesides (opened db calls).sessions m) = _
    simp only [nextDelete, known, not_true_eq_false, if_false, free]
    rfl
  have stepped : (departures db calls).run [m] = departureProgram.advance (opened db calls) m := rfl
  have committed : (opened db calls).committed = db := rfl
  simp only [stepped, Program.advance, at_, committed, next]
  exact List.getElem?_set_self inside

theorem alone_other (different : m ≠ n) (schedule : List Nat) (k : Nat) :
    ((departures db calls).run (schedule ++ List.replicate k n)).sessions[m]? =
      ((departures db calls).run schedule).sessions[m]? :=
  Program.alone_other different schedule k

/-- A session run on its own that can never hold what it has to hold at its end comes
to wait. -/
theorem waits_alone (sound : Sound db) {schedule : List Nat}
    (now : Unchanged db calls ((departures db calls).run schedule)) {call : Call}
    (isCall : calls[n]? = some call)
    (stuck : ∀ k point own,
      ((departures db calls).run (schedule ++ List.replicate k n)).sessions[n]? =
        some (.running point own) → ¬ HoldsAtEnd db call own)
    {point : Point} {own : List Write}
    (at_ : ((departures db calls).run schedule).sessions[n]? = some (.running point own)) :
    ∃ k, Unchanged db calls ((departures db calls).run (schedule ++ List.replicate k n)) ∧
      departureProgram.Waits ((departures db calls).run (schedule ++ List.replicate k n)) n := by
  have still : ∀ k,
      Unchanged db calls ((departures db calls).run (schedule ++ List.replicate k n)) := by
    intro k
    induction k with
    | zero => rwa [List.replicate_zero, List.append_nil]
    | succ k ih =>
        rw [List.replicate_succ', ← List.append_assoc, System.run_snoc]
        rcases unchanged_advance sound ih n with next | ⟨call', point', own', answer, isCall', there,
          holds, -, -⟩
        · exact next
        · rw [isCall] at isCall'
          cases isCall'
          exact absurd holds (stuck k point' own' there)
  obtain ⟨k, waits | ⟨answer, ended⟩⟩ := Program.stops rank
    (fun _ _ _ _ _ _ _ did => (nextDeparture_goesOn did).later) at_
  · exact ⟨k, still k, waits⟩
  · obtain ⟨_, _, _, -, same, -⟩ := (still k).departing n _ ended
    cases same

/-- Once the deletion has its user's row, the other departure runs up to the check of
that user, with the row of a group of theirs. -/
theorem crossing_reaches_check (calls : List Call) (sound : Sound db) (different : n ≠ m)
    {call : Call} {uid : UserId} (isCall : calls[n]? = some call)
    (isDeletion : calls[m]? = some (.deleteUser uid)) (promotes : Promotes db call uid) :
    ∃ schedule point own g, Unchanged db calls ((departures db calls).run schedule) ∧
      departureProgram.Waits ((departures db calls).run schedule) n ∧
      ((departures db calls).run schedule).sessions[n]? = some (.running point own) ∧
      point.wants = some (.userKeyShare uid) ∧ .lock (.group g) ∈ own ∧ db.IsMember g uid ∧
      ((departures db calls).run schedule).sessions[m]? =
        some (.running (.deleteUser uid .readGroups) [.lock (.user uid)]) := by
  obtain ⟨known, other⟩ := promotes.known sound
  have started := deletion_starts isDeletion known
  have others : ∀ k, k ≠ m → ((departures db calls).run [m]).sessions[k]? =
      (opened db calls).sessions[k]? := fun k otherSession => Program.advance_other otherSession
  have begins : Unchanged db calls ((departures db calls).run [m]) := by
    rcases unchanged_advance sound (unchanged_opened db calls) m with
      now | ⟨_, _, _, _, -, -, -, ended, -⟩
    · exact now
    · have isRunning : ((departures db calls).run [m]).sessions[m]? = some (.ended _) := ended
      rw [started] at isRunning
      cases isRunning
  have first : ((departures db calls).run [m]).sessions[n]? =
      some (.running (firstPoint call) []) := by
    rw [others n different]
    exact opened_session.mpr ⟨call, isCall, rfl⟩
  obtain ⟨k, now, waits⟩ := waits_alone sound begins isCall (by
    intro k point own there holds
    have kept := (alone_other (Ne.symm different) [m] k).trans started
    exact departures_compatible db calls _ n m _ _ _ _ different there kept _
      (holds.shares uid promotes) _ (List.mem_singleton_self _) (by simp [Clash, Lock.conflicts]))
    first
  have kept := (alone_other (Ne.symm different) [m] k).trans started
  obtain ⟨call', point, own, lock, isCall', at_, departing, wanted, -, m', point', own', held,
    different', there, holds, conflict⟩ := waits_inversion sound now waits
  rw [isCall] at isCall'
  cases isCall'
  -- only the deletion holds anything
  have holder : m' = m := by
    by_contra otherSession
    have fresh := (alone_other different' [m] k).symm.trans there
    rw [others m' otherSession] at fresh
    rw [opened_fresh m' point' own' fresh] at holds
    cases holds
  subst holder
  rw [kept] at there
  cases there
  cases List.mem_singleton.mp holds
  have wantsShare : lock = .userKeyShare uid := by
    rcases conflicts_user conflict with rfl | isShare
    · exact absurd (departing.wants_user wanted).1 other
    · exact isShare
  subst wantsShare
  obtain ⟨g, holdsGroup, member⟩ := departing.wants_share sound wanted
  exact ⟨_, point, own, g, now, waits, at_, wanted, holdsGroup, member, kept⟩

/-- **A crossing closes**: from there the deletion runs up to the group, and the check
still waits. -/
theorem crossing_deadlocks (calls : List Call) (sound : Sound db) (different : n ≠ m)
    {call : Call} {uid : UserId} (isCall : calls[n]? = some call)
    (isDeletion : calls[m]? = some (.deleteUser uid)) (promotes : Promotes db call uid) :
    ∃ schedule, departureProgram.Waits ((departures db calls).run schedule) n ∧
      departureProgram.Waits ((departures db calls).run schedule) m := by
  obtain ⟨schedule, point, own, g, now, waits, at_, wanted, holdsGroup, member, kept⟩ :=
    crossing_reaches_check calls sound different isCall isDeletion promotes
  obtain ⟨k, now', waits'⟩ := waits_alone sound now isDeletion (by
    intro k point' own' there holdsEnd
    have stays := (alone_other different schedule k).trans at_
    exact departures_compatible db calls _ n m _ _ _ _ different stays there _ holdsGroup _
      (holdsEnd.groups uid g rfl member) (by simp [Clash, Lock.conflicts])) kept
  refine ⟨_, ?_, waits'⟩
  obtain ⟨pointM, ownM, thereM, -⟩ := waits'
  obtain ⟨_, _, samePoint, waited⟩ := waits
  rw [at_] at samePoint
  cases samePoint
  refine ⟨point, own, (alone_other different schedule k).trans at_, ?_⟩
  rw [now.committed] at waited
  rw [now'.committed]
  refine wait_again waited wanted (blocked_iff.mpr ⟨.user uid, ?_, by simp [Lock.conflicts]⟩)
  have keeps := Program.alone_holds departure_grows kept k thereM
  exact Program.mem_heldBesides.mpr
    ⟨m, pointM, ownM, Ne.symm different, thereM, keeps (List.mem_singleton_self _)⟩

/-- **When departures deadlock**: two departures can come to wait for each other iff one
makes a user the creator of a group whose deletion the other is. -/
theorem deadlock_free_iff (ops : List Operation) (one other : Call) :
    (∀ schedule, ¬ Deadlocked ((departures (service.run ops) [one, other]).run schedule)) ↔
      ¬ Crosses (service.run ops) one other ∧ ¬ Crosses (service.run ops) other one := by
  have sound := reachable ops
  constructor
  · intro free
    constructor
    · rintro ⟨uid, rfl, promotes⟩
      obtain ⟨schedule, waits, waits'⟩ := crossing_deadlocks (n := 0) (m := 1)
        [one, .deleteUser uid] sound (by decide) rfl rfl promotes
      exact free schedule ⟨waits, waits'⟩
    · rintro ⟨uid, rfl, promotes⟩
      obtain ⟨schedule, waits, waits'⟩ := crossing_deadlocks (n := 1) (m := 0)
        [.deleteUser uid, other] sound (by decide) rfl rfl promotes
      exact free schedule ⟨waits', waits⟩
  · rintro ⟨notOne, notOther⟩ schedule dead
    rcases unchanged_or_ended [one, other] sound schedule with now | ⟨n, answer, ended⟩
    · rcases deadlocked_crosses sound now dead with crosses | crosses
      · exact notOne crosses
      · exact notOther crosses
    · have inside : n < 2 := by
        have within := (List.getElem?_eq_some_iff.mp ended).1
        rwa [departures, Program.run_length] at within
      obtain ⟨⟨_, _, at₀, -⟩, ⟨_, _, at₁, -⟩⟩ := dead
      obtain rfl | rfl : n = 0 ∨ n = 1 := by omega
      · rw [at₀] at ended
        cases ended
      · rw [at₁] at ended
        cases ended

/-- Ada's group, with Bob in it. -/
def creatorAndMember : List Operation :=
  [.createUser "ada" "5a" [1] [2], .createUser "bob" "5b" [3] [4],
    .createGroup "both" 1 Dict.empty, .addMember 1 1 2 [7]]

/-- Both delete their accounts.  Bob's row is locked first; Ada's deletion hands the group
to Bob and waits for his row, Bob's waits for the group. -/
theorem departures_deadlock :
    Deadlocked ((departures (service.run creatorAndMember) [.deleteUser 1, .deleteUser 2]).run
      [1, 0, 0, 0, 0, 0, 0, 1, 1]) :=
  ⟨⟨.deleteUser 1 (.checkCreators [2]), _, rfl, rfl⟩,
    ⟨.deleteUser 2 (.lockGroups [] [(1, 2)]), _, rfl, rfl⟩⟩

end Departures

end SecureMsg.Groups
