/-
# Groups.DeletionTransfer — what a deletion has read, after another commits

A deletion goes by the groups and counts it has read.  Row locks keep most of that
true when another deletion commits: a group it has locked is none of the other
user's, and a creator it has checked cannot be deleted.

What is left is a count read before the group's row is locked.  It can be wrong
only for a group of the two users alone; where the committing deletion's user
created it, that deletion had to wait for the other's row, so it is the waiting
one who did (`SharedPair`).  `deleting_transfer`: but for that, every invariant of
the deletion carries over.
-/
import SecureMsg.Groups.DepartureSteps

namespace SecureMsg.Groups

open SecureMsg.Theory SecureMsg.Store SecureMsg.Repository

set_option autoImplicit false

namespace Departures

variable {db mid : Database} {x y : UserId}

/-! ## What one deletion leaves of the other's groups -/

/-- A group of just the two users that the second created. -/
def SharedPair (db : Database) (x y : UserId) : Prop :=
  ∃ row ∈ db.groups, row.creatorId = y ∧ ∀ uid, db.IsMember row.id uid ↔ uid = x ∨ uid = y

section Left

variable (gone : AccountDeleted db x mid)

include gone

theorem left_isMember {g : GroupId} {uid : UserId} :
    mid.IsMember g uid ↔ db.IsMember g uid ∧ uid ≠ x :=
  gone.groupMembers ⟨g, uid⟩

theorem left_userIds {uid : UserId} : uid ∈ mid.userIds ↔ uid ∈ db.userIds ∧ uid ≠ x := by
  simp only [Database.userIds, List.mem_map, gone.users]
  constructor
  · rintro ⟨row, ⟨stored, other⟩, rfl⟩
    exact ⟨⟨row, stored, rfl⟩, other⟩
  · rintro ⟨⟨row, stored, rfl⟩, other⟩
    exact ⟨row, ⟨stored, other⟩, rfl⟩

/-- A group the deleted user was not in has lost nobody. -/
theorem left_newCreator {g : GroupId} (outside : ¬ db.IsMember g x) :
    newCreator mid y g = newCreator db y g := by
  refine newCreator_congr fun uid _ => ?_
  rw [left_isMember gone]
  refine and_iff_left_of_imp fun member => ?_
  rintro rfl
  exact outside member

theorem left_onlyMember {g : GroupId} (member : db.IsMember g y) (different : x ≠ y)
    (apart : (∀ uid, db.IsMember g uid → uid = x ∨ uid = y) → ¬ db.IsMember g x) :
    OnlyMember mid g y ↔ OnlyMember db g y := by
  have member' : mid.IsMember g y := (left_isMember gone).mpr ⟨member, Ne.symm different⟩
  rw [onlyMember_iff, onlyMember_iff]
  constructor
  · rintro ⟨-, alone⟩
    have two : ∀ uid, db.IsMember g uid → uid = x ∨ uid = y := by
      intro uid isMember
      by_cases same : uid = x
      · exact Or.inl same
      · exact Or.inr (alone uid ((left_isMember gone).mpr ⟨isMember, same⟩))
    refine ⟨member, fun uid isMember => ?_⟩
    rcases two uid isMember with rfl | same
    · exact absurd isMember (apart two)
    · exact same
  · rintro ⟨-, alone⟩
    exact ⟨member', fun uid isMember => alone uid ((left_isMember gone).mp isMember).1⟩

theorem left_rowsExact {rows : List (GroupId × Nat)} (exact_ : RowsExact db y rows)
    (different : x ≠ y) (apart : ∀ g, db.IsMember g y →
      (∀ uid, db.IsMember g uid → uid = x ∨ uid = y) → ¬ db.IsMember g x) :
    RowsExact mid y rows where
  ascending := exact_.ascending
  groups := by
    intro g
    rw [exact_.groups g, left_isMember gone]
    exact (and_iff_left (Ne.symm different)).symm
  counts := by
    intro row listed
    have member := (exact_.groups row.1).mp (List.mem_map_of_mem listed)
    rw [exact_.counts row listed]
    exact (left_onlyMember gone member different (apart row.1 member)).symm

theorem left_findGroup (c : Constraints db) (c' : Constraints mid) {g : GroupId}
    (outside : ¬ db.IsMember g x) : mid.findGroup g = db.findGroup g := by
  have same : ∀ row : Group, row.id = g → (row ∈ mid.groups ↔ row ∈ db.groups) := by
    intro row isGroup
    rw [gone.groups]
    constructor
    · rintro ⟨old, stored, stays, rfl⟩
      rw [withoutUser_id] at isGroup
      rwa [withoutUser, if_neg (isGroup ▸ outside)]
    · intro stored
      refine ⟨row, stored, fun only => outside (isGroup ▸ only.1), ?_⟩
      rw [withoutUser, if_neg (isGroup ▸ outside)]
  refine Option.ext fun row => ?_
  by_cases isGroup : row.id = g
  · subst isGroup
    rw [c'.findGroup_eq_some, c.findGroup_eq_some]
    exact same row rfl
  · constructor
    · intro found
      exact absurd (Database.findGroup_some found).2 isGroup
    · intro found
      exact absurd (Database.findGroup_some found).2 isGroup

theorem left_transferOf (c : Constraints db) (c' : Constraints mid) {g : GroupId}
    (outside : ¬ db.IsMember g x) : transferOf mid y g = transferOf db y g := by
  unfold transferOf
  rw [left_findGroup gone c c' outside, left_newCreator gone outside]

end Left

/-! ## What the other deletion knows after the commit -/

/-- A pair of the deleted user and the other, where the other did not create the group:
the deletion has made them its creator. -/
theorem pair_promotes (creators : CreatorsAreMembers db) {row : Group} (stored : row ∈ db.groups)
    (members : ∀ uid, db.IsMember row.id uid ↔ uid = x ∨ uid = y) (different : x ≠ y)
    (notShared : ¬ SharedPair db x y) : PromotesByDeletion db x y := by
  have creator : row.creatorId = x := by
    rcases (members row.creatorId).mp (creators row stored) with isX | isY
    · exact isX
    · exact absurd ⟨row, stored, isY, members⟩ notShared
  refine ⟨row, stored, creator, ?_⟩
  have isMember : db.IsMember row.id y := (members y).mpr (Or.inr rfl)
  cases least : newCreator db x row.id with
  | none =>
      have listed : y ∈ remaining db row.id x := mem_remaining.mpr ⟨isMember, Ne.symm different⟩
      rw [newCreator_none.mp least] at listed
      cases listed
  | some uid =>
      obtain ⟨member, other⟩ := newCreator_some least
      rcases (members uid).mp member with isX | isY
      · exact absurd isX other
      · rw [isY]

/-- **What a deletion has read stays true when the other commits**, unless that leaves
its user alone in a group whose count it has read and whose row it has not locked. -/
theorem deleting_transfer (sound : Sound db) (different : x ≠ y)
    (gone : AccountDeleted db x mid) (c' : Constraints mid) {ownX own : List Write}
    (ends : HoldsAtEnd db (.deleteUser x) ownX)
    (compatible : ∀ wr ∈ ownX, ∀ wr' ∈ own, ¬ Clash wr wr') {at_ : DeletePoint}
    (deleting : Deleting db y at_ own)
    (notShared : ∀ locked pending, at_ = .lockGroups locked pending → ¬ SharedPair db x y) :
    Deleting mid y at_ own := by
  have c := sound.constraints
  cases deleting with
  | start => exact .start
  | going _ _ known going =>
      refine .going _ _ ((left_userIds gone).mpr ⟨known, Ne.symm different⟩) ?_
      -- a locked group of the other is none of the deleted user's
      have outside : at_.hasLocked = true → ∀ g, db.IsMember g y → ¬ db.IsMember g x := by
        intro past g member isMember
        exact compatible _ (ends.groups x g rfl isMember) _ (going.holds_groups past member)
          (by simp [Clash, Lock.conflicts])
      have transfersSame : at_.hasLocked = true → ∀ rows, RowsExact db y rows →
          ∀ g ∈ multiOf rows, transferOf mid y g = transferOf db y g :=
        fun past rows exact_ g listed =>
          left_transferOf gone c c' (outside past g (exact_.mem_multiOf.mp listed).1)
      have rowsSame : at_.hasLocked = true → ∀ rows, RowsExact db y rows → RowsExact mid y rows :=
        fun past rows exact_ =>
          left_rowsExact gone exact_ different fun g member _ => outside past g member
      cases going with
      | readGroups => exact .readGroups
      | lockGroups locked pending exact_ =>
          refine .lockGroups locked pending (left_rowsExact gone exact_ different ?_)
          intro g member two isMember
          obtain ⟨row, stored, rfl⟩ := c.member_group member
          have members : ∀ uid, db.IsMember row.id uid ↔ uid = x ∨ uid = y := by
            intro uid
            refine ⟨two uid, ?_⟩
            rintro (rfl | rfl)
            · exact isMember
            · exact member
          have promotes := pair_promotes sound.creators stored members different
            (notShared locked pending rfl)
          exact compatible _ (ends.shares y promotes) (.lock (.user y)) List.mem_cons_self
            (by simp [Clash, Lock.conflicts])
      | deleteGroups rows exact_ => exact .deleteGroups rows (rowsSame rfl rows exact_)
      | updateGroups rows exact_ => exact .updateGroups rows (rowsSame rfl rows exact_)
      | checkCreators rows exact_ checked rest all =>
          have same := transfersSame rfl rows exact_
          rw [← multiWrites_congr same]
          refine .checkCreators rows (rowsSame rfl rows exact_) checked rest ?_
          rw [List.filterMap_congr same, all]
      | deleteUser rows exact_ =>
          have same := transfersSame rfl rows exact_
          rw [← settlingWrites_congr same]
          exact .deleteUser rows (rowsSame rfl rows exact_)
      | commit rows exact_ =>
          have same := transfersSame rfl rows exact_
          rw [← settlingWrites_congr same]
          exact .commit rows (rowsSame rfl rows exact_)

end Departures

end SecureMsg.Groups
