/-
# Theory.Dict — insertion-ordered dictionaries

A `Dict` is an association list that carries the proof that its keys are
distinct, so a dictionary with a repeated key cannot be built.  The order of the
entries is the order of first insertion, as in the language modelled.

`get?_eq_some` reads a lookup as membership of the entry; the lookup after `set`
and after `filter` follows from it.  `ofPairs_entries` says when a list of pairs
becomes a dictionary without loss.
-/
import Mathlib.Data.List.Induction
import Mathlib.Data.List.Nodup

namespace SecureMsg.Theory

set_option autoImplicit false

universe u v w

/-- A dictionary: entries in insertion order, under distinct keys. -/
@[ext]
structure Dict (κ : Type u) (β : Type v) where
  entries : List (κ × β)
  distinct : (entries.map Prod.fst).Nodup

namespace Dict

variable {κ : Type u} {β : Type v}

instance [DecidableEq κ] [DecidableEq β] : DecidableEq (Dict κ β) := fun a b =>
  decidable_of_iff (a.entries = b.entries) Dict.ext_iff.symm

def keys (d : Dict κ β) : List κ := d.entries.map Prod.fst

def empty : Dict κ β := ⟨[], List.nodup_nil⟩

def singleton (k : κ) (x : β) : Dict κ β := ⟨[(k, x)], List.nodup_singleton k⟩

/-- Truth value of a dictionary: false exactly when it has no entry. -/
def nonempty (d : Dict κ β) : Bool := !d.entries.isEmpty

theorem keys_nodup (d : Dict κ β) : d.keys.Nodup := d.distinct

theorem nonempty_eq_false {d : Dict κ β} : d.nonempty = false ↔ d.entries = [] := by
  simp [nonempty]

theorem nonempty_iff_keys {d : Dict κ β} : d.nonempty = true ↔ d.keys ≠ [] := by
  simp [nonempty, keys]

/-- A table built from a dictionary, one row per entry, is distinct under any
row key that reads the dictionary key back. -/
theorem rows_nodup {ρ : Type w} (d : Dict κ β) (row : κ × β → ρ) (key : ρ → κ)
    (reads : ∀ e, key (row e) = e.1) : (d.entries.map row).Nodup := by
  refine List.Nodup.of_map key ?_
  rw [List.map_map]
  have same : key ∘ row = Prod.fst := funext reads
  rw [same]
  exact d.distinct

/-! ## Lookup and update -/

variable [DecidableEq κ]

def get? (d : Dict κ β) (k : κ) : Option β := (d.entries.find? fun e => e.1 = k).map Prod.snd

/-- `d[k] = x`: an existing key keeps its place, a new one goes last. -/
def set (d : Dict κ β) (k : κ) (x : β) : Dict κ β :=
  if inside : k ∈ d.keys then
    ⟨d.entries.map fun e => if e.1 = k then (k, x) else e, by
      have same : (Prod.fst ∘ fun e : κ × β => if e.1 = k then (k, x) else e) = Prod.fst := by
        funext e
        by_cases hit : e.1 = k
        · simp [hit]
        · simp [hit]
      rw [List.map_map, same]
      exact d.distinct⟩
  else
    ⟨d.entries ++ [(k, x)], by
      rw [List.map_append, List.map_singleton, List.nodup_append]
      refine ⟨d.distinct, List.nodup_singleton k, ?_⟩
      intro a listed b last
      rw [List.mem_singleton.mp last]
      exact ne_of_mem_of_not_mem listed inside⟩

theorem entries_set_of_mem {d : Dict κ β} {k : κ} (inside : k ∈ d.keys) (x : β) :
    (d.set k x).entries = d.entries.map fun e => if e.1 = k then (k, x) else e := by
  rw [set, dif_pos inside]

theorem entries_set_of_not_mem {d : Dict κ β} {k : κ} (isNew : k ∉ d.keys) (x : β) :
    (d.set k x).entries = d.entries ++ [(k, x)] := by
  rw [set, dif_neg isNew]

def filter (d : Dict κ β) (keep : κ × β → Bool) : Dict κ β :=
  ⟨d.entries.filter keep, d.distinct.sublist (List.filter_sublist.map _)⟩

/-- The dictionary without the key. -/
def erase (d : Dict κ β) (k : κ) : Dict κ β := d.filter fun e => e.1 ≠ k

theorem get?_eq_some {d : Dict κ β} {k : κ} {x : β} : d.get? k = some x ↔ (k, x) ∈ d.entries := by
  constructor
  · intro found
    obtain ⟨e, isFirst, rfl⟩ := Option.map_eq_some_iff.mp found
    have named : e.1 = k := by simpa using List.find?_some isFirst
    rw [← named]
    exact List.mem_of_find?_eq_some isFirst
  · intro inside
    cases found : d.entries.find? fun e => e.1 = k with
    | none => exact absurd (decide_eq_true rfl) (List.find?_eq_none.mp found _ inside)
    | some e =>
        have named : e.1 = k := by simpa using List.find?_some found
        have unique : e = (k, x) :=
          List.inj_on_of_nodup_map d.distinct (List.mem_of_find?_eq_some found) inside named
        rw [get?, found, unique]
        rfl

theorem get?_set_of_ne (d : Dict κ β) {k k' : κ} (different : k' ≠ k) (x : β) :
    (d.set k x).get? k' = d.get? k' := by
  refine Option.ext fun y => ?_
  rw [get?_eq_some, get?_eq_some]
  by_cases inside : k ∈ d.keys
  · rw [set, dif_pos inside]
    constructor
    · intro listed
      obtain ⟨e, old, same⟩ := List.mem_map.mp listed
      by_cases hit : e.1 = k
      · rw [if_pos hit, Prod.mk.injEq] at same
        exact absurd same.1.symm different
      · rw [if_neg hit] at same
        exact same ▸ old
    · intro old
      exact List.mem_map.mpr ⟨_, old, if_neg different⟩
  · rw [set, dif_neg inside]
    constructor
    · intro listed
      rcases List.mem_append.mp listed with old | new
      · exact old
      · cases List.mem_singleton.mp new
        exact absurd rfl different
    · exact List.mem_append_left _

theorem get?_set_self (d : Dict κ β) (k : κ) (x : β) : (d.set k x).get? k = some x := by
  rw [get?_eq_some]
  by_cases inside : k ∈ d.keys
  · rw [set, dif_pos inside]
    obtain ⟨e, listed, named⟩ := List.mem_map.mp inside
    exact List.mem_map.mpr ⟨e, listed, if_pos named⟩
  · rw [set, dif_neg inside]
    exact List.mem_append_right _ (List.mem_singleton.mpr rfl)

/-- Setting what is there already changes nothing. -/
theorem set_eq_self_iff {d : Dict κ β} {k : κ} {x : β} : d.set k x = d ↔ d.get? k = some x := by
  constructor
  · intro same
    rw [← same]
    exact get?_set_self d k x
  · intro found
    have listed := get?_eq_some.mp found
    have inside : k ∈ d.keys := List.mem_map_of_mem listed
    refine Dict.ext ?_
    rw [entries_set_of_mem inside]
    conv_rhs => rw [← List.map_id d.entries]
    refine List.map_congr_left fun e stored => ?_
    by_cases hit : e.1 = k
    · rw [if_pos hit]
      exact List.inj_on_of_nodup_map d.distinct listed stored hit.symm
    · exact if_neg hit

theorem get?_filter_some {d : Dict κ β} {keep : κ × β → Bool} {k : κ} {x : β} :
    (d.filter keep).get? k = some x ↔ d.get? k = some x ∧ keep (k, x) = true := by
  rw [get?_eq_some, get?_eq_some]
  exact List.mem_filter

theorem ne_of_mem_erase {d : Dict κ β} {k : κ} {e : κ × β} (listed : e ∈ (d.erase k).entries) :
    e.1 ≠ k := of_decide_eq_true (List.mem_filter.mp listed).2

/-! ## From pairs -/

/-- Sets one pair after the other. -/
def setAll (d : Dict κ β) (pairs : List (κ × β)) : Dict κ β :=
  pairs.foldl (fun d e => d.set e.1 e.2) d

/-- `dict(pairs)`: a key keeps its first place and gets its last value. -/
def ofPairs (pairs : List (κ × β)) : Dict κ β := empty.setAll pairs

/-- The entries under the keys that are wanted. -/
def restrict (d : Dict κ β) (wanted : κ → Bool) : Dict κ β := d.filter fun e => wanted e.1

omit [DecidableEq κ] in
theorem entries_restrict (d : Dict κ β) (wanted : κ → Bool) :
    (d.restrict wanted).entries = d.entries.filter fun e => wanted e.1 := rfl

omit [DecidableEq κ] in
theorem mem_keys_restrict {d : Dict κ β} {wanted : κ → Bool} {k : κ} (isWanted : wanted k = true) :
    k ∈ (d.restrict wanted).keys ↔ k ∈ d.keys := by
  simp only [keys, restrict, filter, List.mem_map, List.mem_filter]
  constructor
  · rintro ⟨e, ⟨listed, -⟩, named⟩
    exact ⟨e, listed, named⟩
  · rintro ⟨e, listed, rfl⟩
    exact ⟨e, ⟨listed, isWanted⟩, rfl⟩

theorem restrict_erase_of_not (d : Dict κ β) {wanted : κ → Bool} {k : κ}
    (unwanted : wanted k = false) : (d.erase k).restrict wanted = d.restrict wanted := by
  refine Dict.ext ?_
  show (d.entries.filter _).filter _ = d.entries.filter _
  rw [List.filter_filter]
  refine List.filter_congr fun e _ => ?_
  by_cases hit : e.1 = k
  · simp [hit, unwanted]
  · simp [hit]

theorem restrict_set_of_not (d : Dict κ β) {wanted : κ → Bool} {k : κ} (x : β)
    (unwanted : wanted k = false) : (d.set k x).restrict wanted = d.restrict wanted := by
  refine Dict.ext ?_
  show (d.set k x).entries.filter _ = d.entries.filter _
  by_cases inside : k ∈ d.keys
  · rw [entries_set_of_mem inside, List.filter_map]
    have same : ((fun e : κ × β => wanted e.1) ∘ fun e => if e.1 = k then (k, x) else e) =
        fun e => wanted e.1 := by
      funext e
      by_cases hit : e.1 = k
      · simp [hit]
      · simp [hit]
    rw [same]
    conv_rhs => rw [← List.map_id (d.entries.filter fun e => wanted e.1)]
    refine List.map_congr_left fun e listed => if_neg ?_
    rintro rfl
    rw [(List.mem_filter.mp listed).2] at unwanted
    cases unwanted
  · rw [entries_set_of_not_mem inside, List.filter_append]
    simp [unwanted]

theorem restrict_set (d : Dict κ β) {wanted : κ → Bool} {k : κ} (x : β)
    (isWanted : wanted k = true) : (d.set k x).restrict wanted = (d.restrict wanted).set k x := by
  refine Dict.ext ?_
  show (d.set k x).entries.filter _ = _
  by_cases inside : k ∈ d.keys
  · rw [entries_set_of_mem inside, entries_set_of_mem ((mem_keys_restrict isWanted).mpr inside),
      List.filter_map]
    refine congrArg _ (List.filter_congr fun e _ => ?_)
    by_cases hit : e.1 = k
    · simp [hit]
    · simp [hit]
  · rw [entries_set_of_not_mem inside, entries_set_of_not_mem fun there =>
      inside ((mem_keys_restrict isWanted).mp there), List.filter_append]
    simp [isWanted, restrict, filter]

@[simp] theorem setAll_snoc (d : Dict κ β) (pairs : List (κ × β)) (e : κ × β) :
    d.setAll (pairs ++ [e]) = (d.setAll pairs).set e.1 e.2 := by
  simp [setAll]

theorem ofPairs_snoc (pairs : List (κ × β)) (e : κ × β) :
    ofPairs (pairs ++ [e]) = (ofPairs pairs).set e.1 e.2 := setAll_snoc empty pairs e

theorem get?_setAll (d : Dict κ β) {pairs : List (κ × β)} (distinct : (pairs.map Prod.fst).Nodup)
    {e : κ × β} (listed : e ∈ pairs) : (d.setAll pairs).get? e.1 = some e.2 := by
  induction pairs using List.reverseRecOn with
  | nil => cases listed
  | append_singleton pairs last ih =>
      rw [List.map_append, List.nodup_append] at distinct
      rw [setAll_snoc]
      rcases List.mem_append.mp listed with old | new
      · have different : e.1 ≠ last.1 :=
          distinct.2.2 _ (List.mem_map_of_mem old) _ (List.mem_singleton.mpr rfl)
        rw [get?_set_of_ne _ different]
        exact ih distinct.1 old
      · rw [List.mem_singleton.mp new]
        exact get?_set_self _ _ _

theorem restrict_setAll_of_not (d : Dict κ β) {wanted : κ → Bool} {pairs : List (κ × β)}
    (unwanted : ∀ e ∈ pairs, wanted e.1 = false) :
    (d.setAll pairs).restrict wanted = d.restrict wanted := by
  induction pairs using List.reverseRecOn with
  | nil => rfl
  | append_singleton pairs last ih =>
      rw [setAll_snoc, restrict_set_of_not _ _ (unwanted last (by simp))]
      exact ih fun e listed => unwanted e (List.mem_append_left _ listed)

theorem restrict_ofPairs (pairs : List (κ × β)) (wanted : κ → Bool) :
    (ofPairs pairs).restrict wanted = ofPairs (pairs.filter fun e => wanted e.1) := by
  induction pairs using List.reverseRecOn with
  | nil => rfl
  | append_singleton pairs e ih =>
      rw [ofPairs_snoc, List.filter_append]
      cases isWanted : wanted e.1 with
      | true =>
          have last : [e].filter (fun e => wanted e.1) = [e] := by simp [isWanted]
          rw [restrict_set _ _ isWanted, ih, last, ofPairs_snoc]
      | false =>
          have last : [e].filter (fun e => wanted e.1) = [] := by simp [isWanted]
          rw [restrict_set_of_not _ _ isWanted, ih, last, List.append_nil]

/-- Nothing is lost exactly if no key is repeated. -/
theorem ofPairs_entries {pairs : List (κ × β)} :
    (ofPairs pairs).entries = pairs ↔ (pairs.map Prod.fst).Nodup := by
  constructor
  · intro same
    have distinct := (ofPairs pairs).distinct
    rwa [same] at distinct
  · intro distinct
    induction pairs using List.reverseRecOn with
    | nil => rfl
    | append_singleton pairs e ih =>
        rw [List.map_append, List.nodup_append] at distinct
        have before := ih distinct.1
        have isNew : e.1 ∉ (ofPairs pairs).keys := by
          rw [keys, before]
          intro there
          exact distinct.2.2 _ there _ (List.mem_singleton.mpr rfl) rfl
        rw [ofPairs_snoc, entries_set_of_not_mem isNew, before]

/-- A key has one entry. -/
theorem entries_filter_key {d : Dict κ β} {k : κ} {x : β} (found : d.get? k = some x) :
    d.entries.filter (fun e => e.1 = k) = [(k, x)] := by
  have listed := get?_eq_some.mp found
  have once : (d.entries.filter fun e => e.1 = k).Nodup := (List.Nodup.of_map _ d.distinct).filter _
  refine List.perm_singleton.mp ((List.perm_ext_iff_of_nodup once (List.nodup_singleton _)).mpr ?_)
  intro e
  rw [List.mem_filter, List.mem_singleton, decide_eq_true_eq]
  constructor
  · rintro ⟨stored, named⟩
    exact List.inj_on_of_nodup_map d.distinct stored listed named
  · rintro rfl
    exact ⟨listed, rfl⟩

end Dict

end SecureMsg.Theory
