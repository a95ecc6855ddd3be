import Mathlib.Data.List.Nodup

/-!
# Dictionaries in insertion order

A dictionary keeps its entries in the order in which their keys came. A key that is set again
keeps its place.

## Main definitions

* `Semantics.OrderedDict` — the entries, with distinct keys

## Main results

* `OrderedDict.get?_set` — what is found after a key is set
* `OrderedDict.get?_update` — what is found after keys are set from another dictionary
* `OrderedDict.mem_entries_iff` — the entries are what is found
-/

set_option autoImplicit false

namespace Semantics

variable {κ α : Type*} [DecidableEq κ]

/-- Set a key: in its place, or at the end. -/
def setEntries (key : κ) (a : α) : List (κ × α) → List (κ × α)
  | [] => [(key, a)]
  | e :: entries => if e.1 = key then (key, a) :: entries else e :: setEntries key a entries

theorem mem_keys_setEntries {key k : κ} {a : α} {entries : List (κ × α)} :
    k ∈ (setEntries key a entries).map Prod.fst ↔ k = key ∨ k ∈ entries.map Prod.fst := by
  induction entries with
  | nil => simp [setEntries]
  | cons e entries ih =>
    rw [setEntries]
    split
    · rename_i he
      simp [he]
    · rw [List.map_cons, List.mem_cons, ih, List.map_cons, List.mem_cons]
      exact or_left_comm

theorem nodup_keys_setEntries {key : κ} {a : α} {entries : List (κ × α)}
    (h : (entries.map Prod.fst).Nodup) : ((setEntries key a entries).map Prod.fst).Nodup := by
  induction entries with
  | nil => simp [setEntries]
  | cons e entries ih =>
    obtain ⟨hnot, hrest⟩ := List.nodup_cons.mp (List.map_cons ▸ h)
    rw [setEntries]
    split
    · rename_i he
      rw [List.map_cons, List.nodup_cons]
      exact ⟨he ▸ hnot, hrest⟩
    · rename_i he
      rw [List.map_cons, List.nodup_cons, mem_keys_setEntries]
      exact ⟨fun hmem => hmem.elim he hnot, ih hrest⟩

theorem lookup_cons_eq_ite {key : κ} {e : κ × α} {entries : List (κ × α)} :
    (e :: entries).lookup key = if key = e.1 then some e.2 else entries.lookup key := by
  rw [List.lookup_cons]
  by_cases h : key = e.1
  · rw [beq_iff_eq.mpr h, if_pos h]
  · rw [beq_eq_false_iff_ne.mpr h, if_neg h]

variable (κ α) in
omit [DecidableEq κ] in
/-- A dictionary. -/
structure OrderedDict where
  entries : List (κ × α)
  nodup : (entries.map Prod.fst).Nodup

namespace OrderedDict

omit [DecidableEq κ] in
/-- No entries. -/
def empty : OrderedDict κ α := ⟨[], List.nodup_nil⟩

variable (d : OrderedDict κ α)

/-- `mapping.get(key)`. -/
def get? (key : κ) : Option α := d.entries.lookup key

/-- `mapping[key] = a`. -/
def set (key : κ) (a : α) : OrderedDict κ α :=
  ⟨setEntries key a d.entries, nodup_keys_setEntries d.nodup⟩

variable {β : Type*}

/-- `for key, a in source.items()`, where some keys are set. -/
def update (d : OrderedDict κ β) (source : OrderedDict κ α) (f : κ → α → Option β) :
    OrderedDict κ β :=
  source.entries.foldl (fun d e => (f e.1 e.2).elim d (d.set e.1)) d

variable {d} {key k : κ} {a : α}

@[simp] theorem get?_empty : (empty : OrderedDict κ α).get? key = none := rfl

@[simp] theorem get?_set : (d.set key a).get? k = if k = key then some a else d.get? k := by
  obtain ⟨entries, hnodup⟩ := d
  show (setEntries key a entries).lookup k = if k = key then some a else entries.lookup k
  clear hnodup
  induction entries with
  | nil => exact lookup_cons_eq_ite
  | cons e entries ih =>
    rw [setEntries]
    split
    · rename_i he
      rw [lookup_cons_eq_ite, lookup_cons_eq_ite, he]
      by_cases hk : k = key
      · rw [if_pos hk, if_pos hk]
      · rw [if_neg hk, if_neg hk, if_neg hk]
    · rename_i he
      rw [lookup_cons_eq_ite, lookup_cons_eq_ite, ih]
      by_cases hk : k = e.1
      · rw [if_pos hk, if_pos hk, if_neg (hk ▸ he)]
      · rw [if_neg hk, if_neg hk]

/-- The entries are what is found. -/
theorem mem_entries_iff : (key, a) ∈ d.entries ↔ d.get? key = some a := by
  obtain ⟨entries, hnodup⟩ := d
  show (key, a) ∈ entries ↔ entries.lookup key = some a
  induction entries with
  | nil => simp
  | cons e entries ih =>
    obtain ⟨hnot, hrest⟩ := List.nodup_cons.mp (List.map_cons ▸ hnodup)
    rw [List.mem_cons, lookup_cons_eq_ite, ih hrest]
    by_cases hkey : key = e.1
    · -- the key occurs once
      have hnone : entries.lookup key ≠ some a := fun hmem =>
        hnot (hkey ▸ List.mem_map_of_mem ((ih hrest).mpr hmem))
      subst hkey
      rw [if_pos rfl, Option.some_inj, or_iff_left hnone]
      exact ⟨fun heq => (congrArg Prod.snd heq).symm, fun heq => Prod.ext rfl heq.symm⟩
    · rw [if_neg hkey]
      exact or_iff_right fun heq => hkey (congrArg Prod.fst heq)

theorem get?_eq_none_iff : d.get? key = none ↔ key ∉ d.entries.map Prod.fst := by
  rw [get?, List.lookup_eq_none_iff]
  simp only [bne_iff_ne, ne_eq, List.mem_map, not_exists, not_and]
  exact ⟨fun h e he heq => h e he heq.symm, fun h e he heq => h e he heq.symm⟩

/-- What is found after keys are set from another dictionary. -/
theorem get?_update {d : OrderedDict κ β} {source : OrderedDict κ α} {f : κ → α → Option β} :
    (d.update source f).get? key = ((source.get? key).bind (f key)).or (d.get? key) := by
  obtain ⟨entries, hnodup⟩ := source
  show (entries.foldl (fun d e => (f e.1 e.2).elim d (d.set e.1)) d).get? key =
    ((entries.lookup key).bind (f key)).or (d.get? key)
  induction entries generalizing d with
  | nil => rfl
  | cons e entries ih =>
    obtain ⟨hnot, hrest⟩ := List.nodup_cons.mp (List.map_cons ▸ hnodup)
    rw [List.foldl_cons, ih hrest, lookup_cons_eq_ite]
    by_cases hkey : key = e.1
    · subst hkey
      have hnone : get? ⟨entries, hrest⟩ e.1 = none := get?_eq_none_iff.mpr hnot
      rw [get?] at hnone
      rw [if_pos rfl, hnone]
      cases hf : f e.1 e.2 with
      | none => simp [hf]
      | some b => simp [hf]
    · rw [if_neg hkey]
      cases hf : f e.1 e.2 with
      | none => rfl
      | some b => simp [hkey]

end OrderedDict

end Semantics
