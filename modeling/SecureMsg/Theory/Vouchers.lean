/-
# Theory.Vouchers — a register of what is still good, and doing without it

Whoever issues vouchers may keep a register: a voucher is entered when it is issued, struck
out when it is spent, and good as long as it is there.  Or the vouchers are signed, nothing
is entered, and only the serial numbers of the spent ones are noted.

`Represents` relates the register to what was issued and what was spent.  `issue_all` and
`spend` keep it, as long as a key names one voucher and a serial number one key
(`Distinct`).  A voucher without a serial number is never spent.
-/
import SecureMsg.Theory.Dict

namespace SecureMsg.Theory.Vouchers

set_option autoImplicit false

universe u v w

variable {κ : Type u} {β : Type v} {ι : Type w} {serial : β → Option ι} {issued : List (κ × β)}
  {spent : List ι}

/-- The voucher's serial number, if it has one, is not among the spent ones. -/
def Good (serial : β → Option ι) (spent : List ι) (x : β) : Prop :=
  ∀ i, serial x = some i → i ∉ spent

/-- A key names one voucher, and a serial number was given out under one key. -/
structure Distinct (serial : β → Option ι) (issued : List (κ × β)) : Prop where
  voucher : ∀ k x y, (k, x) ∈ issued → (k, y) ∈ issued → x = y
  key : ∀ k x k' y i, (k, x) ∈ issued → (k', y) ∈ issued → serial x = some i →
    serial y = some i → k = k'

theorem Distinct.of_subset {fewer : List (κ × β)} (distinct : Distinct serial issued)
    (within : fewer ⊆ issued) : Distinct serial fewer where
  voucher k x y one other := distinct.voucher k x y (within one) (within other)
  key k x k' y i one other := distinct.key k x k' y i (within one) (within other)

theorem good_append {i : ι} {x : β} :
    Good serial (spent ++ [i]) x ↔ Good serial spent x ∧ serial x ≠ some i := by
  constructor
  · intro good
    refine ⟨fun j isSerial listed => good j isSerial (List.mem_append_left _ listed), ?_⟩
    intro isSerial
    exact good i isSerial (List.mem_append_right _ (List.mem_singleton_self i))
  · rintro ⟨good, other⟩ j isSerial listed
    rcases List.mem_append.mp listed with old | new
    · exact good j isSerial old
    · exact other (List.mem_singleton.mp new ▸ isSerial)

variable [DecidableEq κ] {register : Dict κ β}

/-- The register has the good ones of the issued vouchers. -/
def Represents (serial : β → Option ι) (issued : List (κ × β)) (spent : List ι)
    (register : Dict κ β) : Prop :=
  ∀ k x, register.get? k = some x ↔ (k, x) ∈ issued ∧ Good serial spent x

namespace Represents

theorem empty : Represents serial [] spent (Dict.empty : Dict κ β) := by
  intro k x
  rw [Dict.get?_eq_some]
  exact iff_of_false List.not_mem_nil fun listed => List.not_mem_nil listed.1

/-- A good voucher is entered. -/
theorem issue (now : Represents serial issued spent register) {k : κ} {x : β}
    (distinct : Distinct serial (issued ++ [(k, x)])) (good : Good serial spent x) :
    Represents serial (issued ++ [(k, x)]) spent (register.set k x) := by
  intro k' y
  have last : (k, x) ∈ issued ++ [(k, x)] := List.mem_append_right _ (List.mem_singleton_self _)
  by_cases same : k' = k
  · subst same
    rw [Dict.get?_set_self, Option.some.injEq]
    constructor
    · rintro rfl
      exact ⟨last, good⟩
    · rintro ⟨listed, -⟩
      exact distinct.voucher k' x y last listed
  · rw [Dict.get?_set_of_ne _ same, now k' y]
    refine and_congr_left fun _ => ?_
    rw [List.mem_append, List.mem_singleton, Prod.mk.injEq]
    exact (or_iff_left fun both => same both.1).symm

theorem issue_all (now : Represents serial issued spent register) {added : List (κ × β)}
    (distinct : Distinct serial (issued ++ added)) (good : ∀ e ∈ added, Good serial spent e.2) :
    Represents serial (issued ++ added) spent (register.setAll added) := by
  induction added using List.reverseRecOn with
  | nil =>
      rw [List.append_nil]
      exact now
  | append_singleton added e ih =>
      rw [← List.append_assoc] at distinct ⊢
      rw [Dict.setAll_snoc]
      have before := ih (distinct.of_subset (List.subset_append_left _ _))
        fun e listed => good e (List.mem_append_left _ listed)
      exact before.issue distinct (good e (List.mem_append_right _ (List.mem_singleton_self e)))

/-- A registered voucher with a serial number is spent: noting the number strikes out the key. -/
theorem spend (now : Represents serial issued spent register) (distinct : Distinct serial issued)
    {k : κ} {x : β} {i : ι} (registered : register.get? k = some x) (isSerial : serial x = some i) :
    Represents serial issued (spent ++ [i]) (register.erase k) := by
  intro k' y
  have listed := ((now k x).mp registered).1
  rw [Dict.erase, Dict.get?_filter_some, now k' y, good_append, and_assoc]
  refine and_congr_right fun listed' => and_congr_right fun _ => ?_
  rw [decide_eq_true_eq, not_iff_not]
  constructor
  · rintro rfl
    exact distinct.voucher k' x y listed listed' ▸ isSerial
  · intro sameSerial
    exact distinct.key k' y k x i listed' listed sameSerial isSerial

/-- What was not issued under a key is not found there. -/
theorem lookup (now : Represents serial issued spent register) (distinct : Distinct serial issued)
    {k : κ} {x y : β} (listed : (k, x) ∈ issued) (found : register.get? k = some y) : y = x :=
  distinct.voucher k y x ((now k y).mp found).1 listed

end Represents

end SecureMsg.Theory.Vouchers
