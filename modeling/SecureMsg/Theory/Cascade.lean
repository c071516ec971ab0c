/-
# Theory.Cascade — what `ON DELETE CASCADE` deletes

Rows of any number of tables live in one type `ρ`; a row may have a key other
rows refer to, and a row needs the keys its foreign keys name.  Deleting a set
of rows deletes everything that reaches it by references (`Cascaded`), and
nothing else: `survivors` is what remains.

The point of the rule is `survivors_closed`: if every reference resolved before
the deletion, every reference resolves after it.  When references only go from
higher to lower ranks of keys, as in a schema without reference cycles, a
cascade is computed key by key from the lowest rank up (`mem_survivors_iff`).
-/
import Mathlib.Data.Set.Basic

namespace SecureMsg.Theory

set_option autoImplicit false

universe u v

/-- Which key a row is referred to by, and which keys it refers to. -/
structure Schema (ρ : Type u) (κ : Type v) where
  key : ρ → Option κ
  needs : ρ → κ → Prop

namespace Schema

variable {ρ : Type u} {κ : Type v} (S : Schema ρ κ)

/-- Every reference resolves. -/
def Closed (rows : Set ρ) : Prop :=
  ∀ r ∈ rows, ∀ k, S.needs r k → ∃ p ∈ rows, S.key p = some k

/-- The rows that go when the `doomed` ones are deleted: the least set that has
them and every row that needs the key of a row in it. -/
inductive Cascaded (rows doomed : Set ρ) : ρ → Prop
  | root {r : ρ} (stored : r ∈ rows) (chosen : r ∈ doomed) : Cascaded rows doomed r
  | child {r p : ρ} {k : κ} (stored : r ∈ rows) (refers : S.needs r k)
      (named : S.key p = some k) (gone : Cascaded rows doomed p) : Cascaded rows doomed r

def survivors (rows doomed : Set ρ) : Set ρ := {r | r ∈ rows ∧ ¬ S.Cascaded rows doomed r}

variable {S} {rows doomed : Set ρ}

theorem Cascaded.stored {r : ρ} (gone : S.Cascaded rows doomed r) : r ∈ rows := by
  cases gone with
  | root stored _ => exact stored
  | child stored _ _ _ => exact stored

/-- **No reference dangles after a cascade.** -/
theorem survivors_closed (closed : S.Closed rows) : S.Closed (S.survivors rows doomed) := by
  rintro r ⟨stored, kept⟩ k refers
  obtain ⟨p, parentStored, named⟩ := closed r stored k refers
  exact ⟨p, ⟨parentStored, fun gone => kept (.child stored refers named gone)⟩, named⟩

/-! ## Level by level -/

section Ranked

variable (rank : κ → Nat) (goneKey : κ → Prop)
  (descends : ∀ r k k', S.key r = some k → S.needs r k' → rank k' < rank k)
  (keys : ∀ k, goneKey k ↔
    ∃ p ∈ rows, S.key p = some k ∧ (p ∈ doomed ∨ ∃ k', S.needs p k' ∧ goneKey k'))

include descends keys

theorem goneKey_cascaded {k : κ} (gone : goneKey k) :
    ∃ p, S.key p = some k ∧ S.Cascaded rows doomed p := by
  induction hr : rank k using Nat.strong_induction_on generalizing k with
  | _ n ih =>
      obtain ⟨p, stored, named, chosen | ⟨k', refers, parentGone⟩⟩ := (keys k).mp gone
      · exact ⟨p, named, .root stored chosen⟩
      · have lower : rank k' < n := hr ▸ descends p k k' named refers
        obtain ⟨parent, parentNamed, cascaded⟩ := ih (rank k') lower parentGone rfl
        exact ⟨p, named, .child stored refers parentNamed cascaded⟩

theorem cascaded_iff {r : ρ} : S.Cascaded rows doomed r ↔
    r ∈ rows ∧ (r ∈ doomed ∨ ∃ k, S.needs r k ∧ goneKey k) := by
  constructor
  · intro cascaded
    refine ⟨cascaded.stored, ?_⟩
    induction cascaded with
    | root stored chosen => exact Or.inl chosen
    | child stored refers named parent ih =>
        exact Or.inr ⟨_, refers, (keys _).mpr ⟨_, parent.stored, named, ih⟩⟩
  · rintro ⟨stored, chosen | ⟨k, refers, gone⟩⟩
    · exact .root stored chosen
    · obtain ⟨p, named, cascaded⟩ := goneKey_cascaded rank goneKey descends keys gone
      exact .child stored refers named cascaded

/-- **A cascade, computed.**  A row survives when it is not chosen and none of
the keys it needs is gone, where the gone keys are found rank by rank. -/
theorem mem_survivors_iff {r : ρ} : r ∈ S.survivors rows doomed ↔
    r ∈ rows ∧ r ∉ doomed ∧ ∀ k, S.needs r k → ¬ goneKey k := by
  change r ∈ rows ∧ ¬ S.Cascaded rows doomed r ↔ _
  rw [cascaded_iff rank goneKey descends keys]
  constructor
  · rintro ⟨stored, kept⟩
    exact ⟨stored, fun chosen => kept ⟨stored, Or.inl chosen⟩,
      fun k refers gone => kept ⟨stored, Or.inr ⟨k, refers, gone⟩⟩⟩
  · rintro ⟨stored, notChosen, needed⟩
    refine ⟨stored, ?_⟩
    rintro ⟨-, chosen | ⟨k, refers, gone⟩⟩
    · exact notChosen chosen
    · exact needed k refers gone

end Ranked

end Schema

end SecureMsg.Theory
