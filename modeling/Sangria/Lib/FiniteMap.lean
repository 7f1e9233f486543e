import Mathlib.Algebra.BigOperators.Group.Finset.Basic
import Mathlib.Algebra.Order.BigOperators.Group.Finset
import Mathlib.Data.Finmap

/-!
# Finite maps with a constant value type

Mathlib's `Finmap` is dependent in its values, which keeps a lookup from being
rewritten at another key.  `FiniteMap` is the constant case with `find` as its
lookup; the lemmas branch on the key, which is the form a proof about an
arbitrary key needs.
-/

universe u v w

abbrev FiniteMap (κ : Type u) (ν : Type v) := Finmap fun _ : κ => ν

namespace FiniteMap

variable {κ : Type u} {ν : Type v} [DecidableEq κ]

/-- The value stored under a key. -/
def find (map : FiniteMap κ ν) (key : κ) : Option ν := map.lookup key

theorem find_eq_lookup (map : FiniteMap κ ν) (key : κ) :
    map.find key = map.lookup key := rfl

theorem mem_iff {map : FiniteMap κ ν} {key : κ} :
    key ∈ map ↔ ∃ value, map.find key = some value := Finmap.mem_iff

theorem find_eq_none {map : FiniteMap κ ν} {key : κ} :
    map.find key = none ↔ key ∉ map := Finmap.lookup_eq_none

theorem ext {left right : FiniteMap κ ν} (same : ∀ key : κ, left.find key = right.find key) :
    left = right := Finmap.ext_lookup same

@[simp]
theorem find_empty (key : κ) : find (∅ : FiniteMap κ ν) key = none :=
  Finmap.lookup_empty key

theorem find_insert (map : FiniteMap κ ν) (key other : κ) (value : ν) :
    find (map.insert key value) other = if other = key then some value else map.find other := by
  simp only [find_eq_lookup]
  split
  next same =>
    subst same
    exact Finmap.lookup_insert map
  next different => exact Finmap.lookup_insert_of_ne map different

@[simp]
theorem find_insert_self (map : FiniteMap κ ν) (key : κ) (value : ν) :
    find (map.insert key value) key = some value := Finmap.lookup_insert map

theorem find_erase (map : FiniteMap κ ν) (key other : κ) :
    find (map.erase key) other = if other = key then none else map.find other := by
  simp only [find_eq_lookup]
  split
  next same =>
    subst same
    exact Finmap.lookup_erase other map
  next different => exact Finmap.lookup_erase_ne different

@[simp]
theorem find_erase_self (map : FiniteMap κ ν) (key : κ) :
    find (map.erase key) key = none := Finmap.lookup_erase key map

/-- What is found after an insertion is the new entry or an old one. -/
theorem eq_or_find_of_insert {map : FiniteMap κ ν} {key other : κ} {value found : ν}
    (here : find (map.insert key value) other = some found) :
    other = key ∧ found = value ∨ other ≠ key ∧ map.find other = some found := by
  rw [find_insert] at here
  split at here
  next same =>
    cases here
    exact .inl ⟨same, rfl⟩
  next different => exact .inr ⟨different, here⟩

theorem find_of_erase {map : FiniteMap κ ν} {key other : κ} {found : ν}
    (here : find (map.erase key) other = some found) :
    other ≠ key ∧ map.find other = some found := by
  rw [find_erase] at here
  split at here
  next => cases here
  next different => exact ⟨different, here⟩

theorem find_insert_of_ne {map : FiniteMap κ ν} {key other : κ} (value : ν)
    (different : other ≠ key) :
    find (map.insert key value) other = map.find other := by
  rw [find_insert, if_neg different]

theorem find_erase_of_ne {map : FiniteMap κ ν} {key other : κ} (different : other ≠ key) :
    find (map.erase key) other = map.find other := by
  rw [find_erase, if_neg different]

theorem find_union (left right : FiniteMap κ ν) (key : κ) :
    find (left ∪ right) key = (left.find key).or (right.find key) := by
  simp only [find_eq_lookup]
  by_cases present : key ∈ left
  · rw [Finmap.lookup_union_left present]
    obtain ⟨value, found⟩ := Finmap.mem_iff.mp present
    simp [found]
  · rw [Finmap.lookup_union_right present, Finmap.lookup_eq_none.mpr present]
    rfl

theorem mem_keys {map : FiniteMap κ ν} {key : κ} :
    key ∈ map.keys ↔ ∃ value, map.find key = some value :=
  Finmap.mem_keys.trans mem_iff

theorem eq_empty_of_keys {map : FiniteMap κ ν} (none : map.keys = ∅) : map = ∅ := by
  apply ext
  intro key
  rw [find_empty, find_eq_none, ← Finmap.mem_keys, none]
  exact Finset.notMem_empty key

/-- Replace or drop every entry. -/
def filterMap {ω : Type w} (change : κ → ν → Option ω) (map : FiniteMap κ ν) : FiniteMap κ ω :=
  Finmap.keysLookupEquiv.symm
    ⟨(map.keys.filter fun key => ((map.find key).bind (change key)).isSome = true,
      fun key => (map.find key).bind (change key)), by
      intro key
      rw [Finset.mem_filter, mem_keys]
      cases found : map.find key with
      | none => simp [found]
      | some => simp [found]⟩

@[simp]
theorem find_filterMap {ω : Type w} (change : κ → ν → Option ω) (map : FiniteMap κ ν) (key : κ) :
    find (filterMap change map) key = (map.find key).bind (change key) :=
  Finmap.keysLookupEquiv_symm_apply_lookup _ key

/-! ## Inserting a list of entries -/

theorem find_foldl_insert_of_notMem (entries : List (κ × ν)) (map : FiniteMap κ ν) {key : κ}
    (absent : key ∉ entries.map Prod.fst) :
    find (entries.foldl (fun all entry => all.insert entry.1 entry.2) map) key =
      map.find key := by
  induction entries generalizing map with
  | nil => rfl
  | cons _ _ inductionHypothesis =>
    rw [List.map_cons, List.mem_cons, not_or] at absent
    rw [List.foldl_cons, inductionHypothesis _ absent.2, find_insert, if_neg absent.1]

theorem find_foldl_insert_of_agree {entries : List (κ × ν)} (map : FiniteMap κ ν) {entry : κ × ν}
    (membership : entry ∈ entries) (agree : ∀ other ∈ entries, other.1 = entry.1 → other = entry) :
    find (entries.foldl (fun all entry => all.insert entry.1 entry.2) map) entry.1 =
      some entry.2 := by
  induction entries generalizing map with
  | nil => cases membership
  | cons _ rest inductionHypothesis =>
    rw [List.foldl_cons]
    by_cases behind : entry.1 ∈ rest.map Prod.fst
    · obtain ⟨other, listed, same⟩ := List.mem_map.mp behind
      cases agree other (List.mem_cons_of_mem _ listed) same
      exact inductionHypothesis _ listed fun other listed =>
        agree other (List.mem_cons_of_mem _ listed)
    · rw [find_foldl_insert_of_notMem _ _ behind]
      cases membership with
      | head => exact find_insert_self _ _ _
      | tail _ listed => exact absurd (List.mem_map_of_mem listed) behind

theorem find_foldl_insert_of_mem {entries : List (κ × ν)} (map : FiniteMap κ ν)
    (distinct : (entries.map Prod.fst).Nodup) {entry : κ × ν} (membership : entry ∈ entries) :
    find (entries.foldl (fun all entry => all.insert entry.1 entry.2) map) entry.1 =
      some entry.2 :=
  find_foldl_insert_of_agree map membership fun _ listed same =>
    List.inj_on_of_nodup_map distinct listed membership same

/-- A list of the entries of a function, in any order and with repetitions. -/
theorem find_foldl_insert_of_lists {entries : List (κ × ν)} {lookup : κ → Option ν}
    (lists : ∀ key value, (key, value) ∈ entries ↔ lookup key = some value) (key : κ) :
    find (entries.foldl (fun all entry => all.insert entry.1 entry.2) (∅ : FiniteMap κ ν)) key =
      lookup key := by
  cases found : lookup key with
  | none =>
    rw [find_foldl_insert_of_notMem, find_empty]
    intro listed
    obtain ⟨⟨_, value⟩, member, rfl⟩ := List.mem_map.mp listed
    cases found.symm.trans ((lists _ value).mp member)
  | some value =>
    have listed : (key, value) ∈ entries := (lists key value).mpr found
    refine find_foldl_insert_of_agree ∅ listed ?_
    rintro ⟨_, other⟩ member rfl
    cases found.symm.trans ((lists _ other).mp member)
    rfl

/-! ## Sums over the entries -/

/-- The sum of a weight over the entries. -/
def tally (weight : κ → ν → Nat) (map : FiniteMap κ ν) : Nat :=
  ∑ key ∈ map.keys, (map.find key).elim 0 (weight key)

section Tally

variable (weight : κ → ν → Nat) {map : FiniteMap κ ν} {key : κ} {old : ν}

@[simp]
theorem tally_empty : tally weight (∅ : FiniteMap κ ν) = 0 := by
  simp [tally]

private theorem tally_rest (new : ν) (keys : Finset κ) :
    ∑ other ∈ keys.erase key, (find (map.insert key new) other).elim 0 (weight other) =
      ∑ other ∈ keys.erase key, (map.find other).elim 0 (weight other) := by
  apply Finset.sum_congr rfl
  intro other membership
  rw [find_insert, if_neg (Finset.ne_of_mem_erase membership)]

/-- Replacing a value exchanges its weight for that of the new one. -/
theorem tally_insert_of_find (new : ν) (found : map.find key = some old) :
    tally weight (map.insert key new) + weight key old = tally weight map + weight key new := by
  have present : key ∈ map.keys := mem_keys.mpr ⟨old, found⟩
  have sameKeys : Finmap.keys (map.insert key new) = map.keys := by
    ext other
    simp only [mem_keys, find_insert]
    by_cases same : other = key
    · simp [same, found]
    · simp [same]
  have here := Finset.sum_erase_add map.keys
    (fun other => (find (map.insert key new) other).elim 0 (weight other)) present
  have there := Finset.sum_erase_add map.keys
    (fun other => (map.find other).elim 0 (weight other)) present
  simp only [find_insert_self, found, Option.elim_some, tally_rest] at here there
  simp only [tally, sameKeys]
  omega

theorem tally_insert_of_none (new : ν) (missing : map.find key = none) :
    tally weight (map.insert key new) = tally weight map + weight key new := by
  have absent : key ∉ map.keys := by
    rw [mem_keys]
    simp [missing]
  have moreKeys : Finmap.keys (map.insert key new) = insert key map.keys := by
    ext other
    simp only [mem_keys, find_insert, Finset.mem_insert]
    by_cases same : other = key
    · simp [same]
    · simp [same]
  have rest := @tally_rest _ _ _ weight map key new (insert key map.keys)
  rw [Finset.erase_insert absent] at rest
  rw [tally, moreKeys, Finset.sum_insert absent, rest, find_insert_self, tally]
  exact Nat.add_comm _ _

theorem tally_erase_of_find (found : map.find key = some old) :
    tally weight (map.erase key) + weight key old = tally weight map := by
  have present : key ∈ map.keys := mem_keys.mpr ⟨old, found⟩
  have fewerKeys : Finmap.keys (map.erase key) = map.keys.erase key := by
    ext other
    simp only [mem_keys, find_erase, Finset.mem_erase]
    by_cases same : other = key
    · simp [same]
    · simp [same]
  have rest : ∑ other ∈ map.keys.erase key, (find (map.erase key) other).elim 0 (weight other) =
      ∑ other ∈ map.keys.erase key, (map.find other).elim 0 (weight other) := by
    apply Finset.sum_congr rfl
    intro other membership
    rw [find_erase, if_neg (Finset.ne_of_mem_erase membership)]
  have there := Finset.sum_erase_add map.keys
    (fun other => (map.find other).elim 0 (weight other)) present
  simp only [found, Option.elim_some] at there
  rw [tally, fewerKeys, rest]
  exact there

theorem le_tally (found : map.find key = some old) : weight key old ≤ tally weight map := by
  have := tally_erase_of_find weight found
  omega

theorem tally_eq_zero (vanishes : ∀ key value, map.find key = some value → weight key value = 0) :
    tally weight map = 0 := by
  apply Finset.sum_eq_zero
  intro key membership
  obtain ⟨value, found⟩ := mem_keys.mp membership
  simp [found, vanishes key value found]

theorem tally_le_tally {heavier : κ → ν → Nat}
    (lighter : ∀ key value, weight key value ≤ heavier key value) :
    tally weight map ≤ tally heavier map := by
  apply Finset.sum_le_sum
  intro key membership
  obtain ⟨value, found⟩ := mem_keys.mp membership
  simpa [found] using lighter key value

end Tally

end FiniteMap
