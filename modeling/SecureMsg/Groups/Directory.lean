/-
# Groups.Directory — accounts and rooms, as their users know them

What the users and the group tables are for, said without tables: a `Directory`
has accounts with their names, and rooms, each with a creator, a finite set of
members that the creator belongs to, and an epoch.  A call either is allowed by
the directory alone, and then changes it as `Directory.step` says, or leaves it as
it is.

Between two moments of a run an account set and a room only move `Forward`: a room
that changes hands or members is in a later epoch, and a closed room stays closed.
-/
import SecureMsg.Repository.Operation
import Mathlib.Data.Finset.Max
import Mathlib.Data.Finset.Sort
import Mathlib.Data.Int.ConditionallyCompleteOrder
import Mathlib.Order.ConditionallyCompleteLattice.Basic

namespace SecureMsg.Groups

open SecureMsg.Theory SecureMsg.Store SecureMsg.Repository

set_option autoImplicit false

/-! ## Rooms -/

structure Room where
  name : String
  creator : UserId
  members : Finset UserId
  epoch : Int
  creator_mem : creator ∈ members
  deriving DecidableEq

namespace Room

theorem ext' {a b : Room} (name : a.name = b.name) (creator : a.creator = b.creator)
    (members : a.members = b.members) (epoch : a.epoch = b.epoch) : a = b := by
  cases a
  cases b
  cases name
  cases creator
  cases members
  cases epoch
  rfl

/-- A new room; with guests it starts in its first epoch. -/
def found (name : String) (creator : UserId) (guests : Finset UserId) : Room where
  name := name
  creator := creator
  members := insert creator guests
  epoch := if guests.Nonempty then 1 else 0
  creator_mem := Finset.mem_insert_self _ _

def rekey (room : Room) : Room := { room with epoch := room.epoch + 1 }

def enrol (room : Room) (u : UserId) : Room where
  name := room.name
  creator := room.creator
  members := insert u room.members
  epoch := room.epoch + 1
  creator_mem := Finset.mem_insert_of_mem room.creator_mem

/-- The room without one of its members; a creator who goes leaves it to the least member. -/
def without (room : Room) (u : UserId) (others : (room.members.erase u).Nonempty) : Room where
  name := room.name
  creator := if room.creator = u then (room.members.erase u).min' others else room.creator
  members := room.members.erase u
  epoch := room.epoch + 1
  creator_mem := by
    by_cases leaves : room.creator = u
    · rw [if_pos leaves]
      exact Finset.min'_mem _ _
    · rw [if_neg leaves]
      exact Finset.mem_erase.mpr ⟨leaves, room.creator_mem⟩

/-- A member leaves or is removed: the room goes on if two are left. -/
def depart (room : Room) (u : UserId) : Option Room :=
  if many : 1 < (room.members.erase u).card then
    some (room.without u (Finset.card_pos.mp (Nat.lt_trans Nat.one_pos many)))
  else none

theorem depart_few {room : Room} {u : UserId} (few : (room.members.erase u).card ≤ 1) :
    room.depart u = none := dif_neg (Nat.not_lt.mpr few)

theorem depart_many {room : Room} {u : UserId} (many : 1 < (room.members.erase u).card) :
    ∃ others, room.depart u = some (room.without u others) := ⟨_, dif_pos many⟩

/-- An account goes: the rooms it was in go on if anybody is left. -/
def forget (room : Room) (u : UserId) : Option Room :=
  if u ∈ room.members then
    if others : (room.members.erase u).Nonempty then some (room.without u others) else none
  else some room

theorem forget_other {room : Room} {u : UserId} (other : u ∉ room.members) :
    room.forget u = some room := if_neg other

theorem forget_alone {room : Room} {u : UserId} (member : u ∈ room.members)
    (alone : ¬ (room.members.erase u).Nonempty) : room.forget u = none := by
  rw [forget, if_pos member, dif_neg alone]

theorem forget_member {room : Room} {u : UserId} (member : u ∈ room.members)
    (others : (room.members.erase u).Nonempty) : room.forget u = some (room.without u others) := by
  rw [forget, if_pos member, dif_pos others]

/-- The same room, or the room in a later epoch. -/
def Since (room later : Room) : Prop := later = room ∨ room.epoch < later.epoch

theorem Since.trans {a b c : Room} (ab : a.Since b) (bc : b.Since c) : a.Since c := by
  rcases ab with rfl | less
  · exact bc
  · rcases bc with rfl | less'
    · exact Or.inr less
    · exact Or.inr (less.trans less')

theorem since_rekey (room : Room) : room.Since room.rekey := Or.inr (Int.lt_succ _)

theorem since_enrol (room : Room) (u : UserId) : room.Since (room.enrol u) := Or.inr (Int.lt_succ _)

theorem since_depart {room later : Room} {u : UserId} (left : room.depart u = some later) :
    room.Since later := by
  unfold depart at left
  split at left
  · cases left
    exact Or.inr (Int.lt_succ _)
  · cases left

theorem since_forget {room later : Room} {u : UserId} (left : room.forget u = some later) :
    room.Since later := by
  unfold forget at left
  split at left
  · split at left
    · cases left
      exact Or.inr (Int.lt_succ _)
    · cases left
  · cases left
    exact Or.inl rfl

end Room

/-! ## The directory -/

@[ext]
structure Directory where
  accounts : UserId → Option String
  rooms : GroupId → Option Room
  nextAccount : UserId
  nextRoom : GroupId

namespace Directory

def empty : Directory := ⟨fun _ => none, fun _ => none, 1, 1⟩

def Knows (d : Directory) (u : UserId) : Prop := d.accounts u ≠ none

/-- A room is replaced, or closed. -/
def setRoom (d : Directory) (g : GroupId) (room : Option Room) : Directory :=
  { d with rooms := Function.update d.rooms g room }

open Classical in
/-- What a call does to the directory. -/
noncomputable def step (d : Directory) : Operation → Directory
  | .createUser username srpSalt _ _ =>
      if ¬ (Sendable username ∧ Sendable srpSalt) ∨ ∃ u, d.accounts u = some username then d
      else { d with
        accounts := Function.update d.accounts d.nextAccount (some username)
        nextAccount := d.nextAccount + 1 }
  | .deleteUser u =>
      if d.Knows u then { d with
        accounts := Function.update d.accounts u none
        rooms := fun g => (d.rooms g).bind fun room => room.forget u }
      else d
  | .createGroup name creator guests =>
      if Sendable name ∧ d.Knows creator ∧ (∀ u ∈ guests.keys, d.Knows u) ∧
          creator ∉ guests.keys then
        { d.setRoom d.nextRoom (some (.found name creator guests.keys.toFinset)) with
          nextRoom := d.nextRoom + 1 }
      else d
  | .addMember g requester u _ =>
      match d.rooms g with
      | some room => if room.creator = requester ∧ d.Knows u then d.setRoom g (room.enrol u) else d
      | none => d
  | .removeMember g requester u keys =>
      match d.rooms g with
      | some room =>
          if (requester = u ∨ room.creator = requester) ∧ u ∈ room.members ∧
              (room.depart u ≠ none → ∀ uid ∈ keys.keys, d.Knows uid) then
            d.setRoom g (room.depart u)
          else d
      | none => d
  | .storeSkdms g keys =>
      match d.rooms g with
      | some room => if ∀ uid ∈ keys.keys, d.Knows uid then d.setRoom g room.rekey else d
      | none => d
  | .rolledBack drawn =>
      { d with nextAccount := d.nextAccount + drawn.users, nextRoom := d.nextRoom + drawn.groups }
  | _ => d

/-- The rooms of the future have not been opened. -/
def Fresh (d : Directory) : Prop := ∀ g, d.nextRoom ≤ g → d.rooms g = none

structure Forward (d later : Directory) : Prop where
  rooms : ∀ g room room', d.rooms g = some room → later.rooms g = some room' → room.Since room'
  closed : ∀ g, g < d.nextRoom → d.rooms g = none → later.rooms g = none
  nextRoom : d.nextRoom ≤ later.nextRoom

theorem Forward.refl (d : Directory) : d.Forward d where
  rooms := by
    intro g room room' before after
    rw [before] at after
    cases after
    exact Or.inl rfl
  closed := fun g _ isClosed => isClosed
  nextRoom := le_refl _

theorem Forward.trans {a b c : Directory} (fresh : a.Fresh) (ab : a.Forward b)
    (bc : b.Forward c) : a.Forward c where
  rooms := by
    intro g room room'' before after
    cases between : b.rooms g with
    | some room' =>
        exact (ab.rooms g room room' before between).trans (bc.rooms g room' room'' between after)
    | none =>
        have opened : g < a.nextRoom := by
          by_contra later
          rw [fresh g (not_lt.mp later)] at before
          cases before
        rw [bc.closed g (lt_of_lt_of_le opened ab.nextRoom) between] at after
        cases after
  closed := fun g opened isClosed =>
    bc.closed g (lt_of_lt_of_le opened ab.nextRoom) (ab.closed g opened isClosed)
  nextRoom := ab.nextRoom.trans bc.nextRoom

section Step

variable {d : Directory}

/-- One room replaced by a later one of itself, or closed. -/
theorem forward_setRoom {g : GroupId} {room : Room} {new : Option Room}
    (isRoom : d.rooms g = some room) (since : ∀ later, new = some later → room.Since later) :
    d.Forward (d.setRoom g new) where
  rooms := by
    intro h old old' before after
    by_cases same : h = g
    · subst same
      rw [isRoom] at before
      cases before
      simp only [setRoom, Function.update_self] at after
      exact since old' after
    · simp only [setRoom, Function.update_of_ne same] at after
      rw [before] at after
      cases after
      exact Or.inl rfl
  closed := by
    intro h _ isClosed
    have other : h ≠ g := by
      rintro rfl
      rw [isRoom] at isClosed
      cases isClosed
    simpa only [setRoom, Function.update_of_ne other] using isClosed
  nextRoom := le_refl _

theorem fresh_setRoom (fresh : d.Fresh) {g : GroupId} {room : Room} (isRoom : d.rooms g = some room)
    (new : Option Room) : (d.setRoom g new).Fresh := by
  intro h later
  have other : h ≠ g := by
    rintro rfl
    rw [fresh h later] at isRoom
    cases isRoom
  simpa only [setRoom, Function.update_of_ne other] using fresh h later

/-- **A step moves every room forward.** -/
theorem step_forward (fresh : d.Fresh) (op : Operation) :
    (d.step op).Fresh ∧ d.Forward (d.step op) := by
  have still : d.Fresh ∧ d.Forward d := ⟨fresh, .refl d⟩
  cases op with
  | createUser username srpSalt srpVerifierEnc totpSecretEnc =>
      simp only [step]
      split
      · exact still
      · exact ⟨fresh, fun g room room' => (Forward.refl d).rooms g room room',
          (Forward.refl d).closed, le_refl _⟩
  | deleteUser u =>
      simp only [step]
      split
      · refine ⟨fun g later => by simp [fresh g later], ?_, ?_, le_refl _⟩
        · intro g room room' before after
          simp only [before, Option.bind_some] at after
          exact Room.since_forget after
        · intro g _ isClosed
          simp [isClosed]
      · exact still
  | createGroup name creator guests =>
      simp only [step]
      split
      · have unopened := fresh d.nextRoom (le_refl _)
        refine ⟨?_, ?_, ?_, Int.le_add_one (le_refl _)⟩
        · intro g later
          have different : g ≠ d.nextRoom := ne_of_gt (Int.lt_of_add_one_le later)
          simp only [setRoom, Function.update_of_ne different]
          exact fresh g (Int.le_of_lt later)
        · intro g room room' before after
          have different : g ≠ d.nextRoom := by
            rintro rfl
            rw [unopened] at before
            cases before
          simp only [setRoom, Function.update_of_ne different] at after
          exact (Forward.refl d).rooms g room room' before after
        · intro g opened isClosed
          have different : g ≠ d.nextRoom := ne_of_lt opened
          simpa only [setRoom, Function.update_of_ne different] using isClosed
      · exact still
  | addMember g requester u skdmCiphertext =>
      simp only [step]
      cases isRoom : d.rooms g with
      | none => exact still
      | some room =>
          dsimp only
          split
          · refine ⟨fresh_setRoom fresh isRoom _, forward_setRoom isRoom ?_⟩
            rintro later ⟨⟩
            exact room.since_enrol u
          · exact still
  | removeMember g requester u keys =>
      simp only [step]
      cases isRoom : d.rooms g with
      | none => exact still
      | some room =>
          dsimp only
          split
          · exact ⟨fresh_setRoom fresh isRoom _, forward_setRoom isRoom fun later => Room.since_depart⟩
          · exact still
  | storeSkdms g keys =>
      simp only [step]
      cases isRoom : d.rooms g with
      | none => exact still
      | some room =>
          dsimp only
          split
          · refine ⟨fresh_setRoom fresh isRoom _, forward_setRoom isRoom ?_⟩
            rintro later ⟨⟩
            exact room.since_rekey
          · exact still
  | rolledBack drawn =>
      have drawn_ : d.nextRoom ≤ d.nextRoom + drawn.groups :=
        Int.le_add_of_nonneg_right (Int.natCast_nonneg _)
      exact ⟨fun g later => fresh g (drawn_.trans later),
        fun g room room' => (Forward.refl d).rooms g room room', (Forward.refl d).closed, drawn_⟩
  | blockRefreshToken | popSkdmsForUser | storeGroupMessage | revokeGroupMessage
  | recordGroupReceipt | storeMessage | deleteMessage | storeKeyBundle | addOneTimePrekeys
  | popOneTimePrekey => exact still

end Step

/-- The directory a run of calls leads to. -/
noncomputable def ledger : System Directory Operation := ⟨empty, step⟩

theorem ledger_fresh (ops : List Operation) : (ledger.run ops).Fresh :=
  ledger.invariant (P := Fresh) (fun _ _ => rfl) (fun _ op fresh => (step_forward fresh op).1) ops

/-- **Between two moments of a run every room has moved forward.** -/
theorem ledger_forward {earlier ops : List Operation} (before : earlier <+: ops) :
    (ledger.run earlier).Forward (ledger.run ops) := by
  have kept : ∀ d op, (d.Fresh ∧ (ledger.run earlier).Forward d) →
      ((ledger.step d op).Fresh ∧ (ledger.run earlier).Forward (ledger.step d op)) := by
    intro d op now
    have moved := step_forward now.1 op
    exact ⟨moved.1, now.2.trans (ledger_fresh earlier) moved.2⟩
  exact (ledger.stays kept before ⟨ledger_fresh earlier, .refl _⟩).2

end Directory

end SecureMsg.Groups
