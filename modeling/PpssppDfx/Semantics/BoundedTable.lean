import Mathlib.Data.List.Basic

/-!
# Bounded tables that evict their oldest entry

A table from keys to values in the order in which the keys were inserted. Before an insertion
the oldest entries are evicted until there is room. A key that is there already keeps its
place, and its value is replaced.

## Main results

* `length_insertEvicting_le` — the table stays bounded
* `lookup_insertEvicting_self`, `lookup_insertEvicting_of_ne` — the key has the new value, and
  any other has its old one unless it was the oldest of a full table
-/

set_option autoImplicit false

namespace Semantics

variable {κ α : Type*} [DecidableEq κ]

/-- Evict the oldest entries until there is room for one more. -/
def evictOldest (cap : ℕ) (table : List (κ × α)) : List (κ × α) :=
  table.drop (table.length + 1 - cap)

/-- Set the value of a key; a key that is there keeps its place. -/
def putKey (table : List (κ × α)) (key : κ) (value : α) : List (κ × α) :=
  if (table.lookup key).isSome then
    table.map fun entry => if entry.1 = key then (key, value) else entry
  else table ++ [(key, value)]

/-- Make room, and set the value of a key. -/
def insertEvicting (cap : ℕ) (table : List (κ × α)) (key : κ) (value : α) : List (κ × α) :=
  putKey (evictOldest cap table) key value

/-- The table is full, and the key is the oldest. -/
def IsOldest (cap : ℕ) (table : List (κ × α)) (key : κ) : Prop :=
  table.length = cap ∧ table.head?.map Prod.fst = some key

variable {cap : ℕ} {table : List (κ × α)} {key key' : κ} {value : α} {entry : κ × α}

/-- What is found under a key is an entry of the table. -/
theorem mem_of_lookup (h : table.lookup key = some value) : (key, value) ∈ table := by
  obtain ⟨before, after, rfl, -⟩ := List.lookup_eq_some_iff.mp h
  exact List.mem_append_right _ List.mem_cons_self

/-- An entry after an insertion was there before or is the new one. -/
theorem mem_putKey (h : entry ∈ putKey table key value) : entry ∈ table ∨ entry = (key, value) := by
  unfold putKey at h
  split at h
  · obtain ⟨old, hold, rfl⟩ := List.mem_map.mp h
    split
    · exact Or.inr rfl
    · exact Or.inl hold
  · simpa using h

theorem length_putKey_le : (putKey table key value).length ≤ table.length + 1 := by
  unfold putKey
  split
  · rw [List.length_map]
    exact Nat.le_succ _
  · simp

/-- However full the table was, there is room for the entry. -/
theorem length_insertEvicting_le (hcap : 0 < cap) :
    (insertEvicting cap table key value).length ≤ cap := by
  have hput : (insertEvicting cap table key value).length ≤ (evictOldest cap table).length + 1 :=
    length_putKey_le
  rw [evictOldest, List.length_drop] at hput
  omega

theorem lookup_map_replace (h : (table.lookup key).isSome = true) :
    (table.map fun entry => if entry.1 = key then (key, value) else entry).lookup key =
      some value := by
  induction table with
  | nil => cases h
  | cons entry rest ih =>
    obtain ⟨k, v⟩ := entry
    by_cases hk : k = key
    · simp [hk]
    · have hne : (key == k) = false := beq_false_of_ne (Ne.symm hk)
      rw [List.lookup_cons, hne] at h
      simp only [List.map_cons, hk, if_false, List.lookup_cons, hne]
      exact ih h

@[simp] theorem lookup_putKey_self : (putKey table key value).lookup key = some value := by
  unfold putKey
  split
  · rename_i h
    exact lookup_map_replace h
  · rename_i h
    rw [Bool.not_eq_true, Option.isSome_eq_false_iff, Option.isNone_iff_eq_none] at h
    rw [List.lookup_append, h]
    simp

theorem lookup_map_replace_of_ne (hne : key' ≠ key) :
    (table.map fun entry => if entry.1 = key then (key, value) else entry).lookup key' =
      table.lookup key' := by
  have hother : (key' == key) = false := beq_false_of_ne hne
  induction table with
  | nil => rfl
  | cons entry rest ih =>
    obtain ⟨k, v⟩ := entry
    rw [List.map_cons, List.lookup_cons]
    by_cases hk : k = key
    · subst hk
      rw [if_pos rfl, List.lookup_cons, hother]
      exact ih
    · rw [if_neg hk, List.lookup_cons, ih]

theorem lookup_putKey_of_ne (hne : key' ≠ key) :
    (putKey table key value).lookup key' = table.lookup key' := by
  have hother : (key' == key) = false := beq_false_of_ne hne
  unfold putKey
  split
  · exact lookup_map_replace_of_ne hne
  · rw [List.lookup_append, List.lookup_cons, hother]
    simp

/-- The keys stay distinct. -/
theorem nodup_putKey (h : (table.map Prod.fst).Nodup) :
    ((putKey table key value).map Prod.fst).Nodup := by
  unfold putKey
  split
  case isTrue =>
    have hkeys : (table.map fun entry => if entry.1 = key then (key, value) else entry).map
        Prod.fst = table.map Prod.fst := by
      rw [List.map_map]
      refine List.map_congr_left fun entry _ => ?_
      rw [Function.comp_apply]
      split
      case isTrue hkey => exact hkey.symm
      case isFalse => rfl
    rw [hkeys]
    exact h
  case isFalse hnone =>
    rw [List.map_append, List.map_singleton, List.nodup_append]
    refine ⟨h, List.pairwise_singleton _ key, fun k hk k' hk' heq => ?_⟩
    obtain ⟨entry, hentry, rfl⟩ := List.mem_map.mp hk
    rw [List.mem_singleton.mp hk'] at heq
    exact hnone (List.lookup_isSome_iff.mpr ⟨entry, hentry, beq_iff_eq.mpr heq.symm⟩)

/-- Of the entries, those remain whose key passes a test. -/
theorem lookup_filter_key (p : κ → Bool) :
    (table.filter fun entry => p entry.1).lookup key =
      if p key then table.lookup key else none := by
  induction table with
  | nil => exact (ite_self _).symm
  | cons entry rest ih =>
    obtain ⟨k, v⟩ := entry
    rw [List.filter_cons, List.lookup_cons]
    by_cases hkey : key = k
    · subst hkey
      cases hp : p key with
      | true => simp
      | false => simpa [hp] using ih
    · have hother : (key == k) = false := beq_false_of_ne hkey
      cases hp : p k with
      | true => simp only [if_true, List.lookup_cons, hother, ih]
      | false => simp only [Bool.false_eq_true, if_false, hother, ih]

/-- The removal of a key leaves the others. -/
theorem lookup_filter_of_ne (hne : key' ≠ key) :
    (table.filter fun entry => decide (entry.1 ≠ key)).lookup key' = table.lookup key' :=
  (lookup_filter_key fun k => decide (k ≠ key)).trans (if_pos (decide_eq_true hne))

/-! ## Eviction -/

/-- Eviction spares what is not the oldest entry of a full table. -/
theorem lookup_evictOldest (hlength : table.length ≤ cap) (hkey : ¬ IsOldest cap table key) :
    (evictOldest cap table).lookup key = table.lookup key := by
  rcases Nat.lt_or_eq_of_le hlength with hroom | hfull
  · have hnone : table.length + 1 - cap = 0 := by omega
    rw [evictOldest, hnone, List.drop_zero]
  · have hone : table.length + 1 - cap = 1 := by omega
    rw [evictOldest, hone]
    cases table with
    | nil => rfl
    | cons entry rest =>
      -- the entry that goes has another key
      have hne : key ≠ entry.1 := by
        rintro rfl
        exact hkey ⟨hfull, rfl⟩
      rw [List.drop_succ_cons, List.drop_zero, List.lookup_cons, beq_false_of_ne hne]

/-- The key of an insertion has the new value. -/
@[simp] theorem lookup_insertEvicting_self :
    (insertEvicting cap table key value).lookup key = some value := lookup_putKey_self

/-- Another key has its old value, unless it was the oldest of a full table. -/
theorem lookup_insertEvicting_of_ne (hlength : table.length ≤ cap) (hne : key' ≠ key)
    (hkey : ¬ IsOldest cap table key') :
    (insertEvicting cap table key value).lookup key' = table.lookup key' := by
  rw [insertEvicting, lookup_putKey_of_ne hne, lookup_evictOldest hlength hkey]

/-- The entries after an insertion were there before, or are the new one. -/
theorem mem_insertEvicting (h : entry ∈ insertEvicting cap table key value) :
    entry ∈ table ∨ entry = (key, value) :=
  (mem_putKey h).imp_left List.mem_of_mem_drop

end Semantics
