import Mathlib.Data.List.AList

/-!
# Tables with their values converted

A table that is read from another one, entry by entry: each value is converted, or the entry
is dropped. Lookups go through the conversion, and a conversion of every value commutes with
the insertion and the removal of a key.
-/

set_option autoImplicit false

namespace Semantics

variable {κ α β : Type*}

/-- A table from keys to values, in insertion order. -/
abbrev KeyedTable (κ α : Type*) := AList fun _ : κ => α

namespace KeyedTable

/-- The entries whose value converts. -/
def convertedEntries (f : α → Option β) (entries : List (Sigma fun _ : κ => α)) :
    List (Sigma fun _ : κ => β) :=
  entries.filterMap fun e => (f e.2).map fun b => ⟨e.1, b⟩

theorem keys_convertedEntries_sublist (f : α → Option β)
    (entries : List (Sigma fun _ : κ => α)) :
    (convertedEntries f entries).keys.Sublist entries.keys := by
  induction entries with
  | nil => exact List.Sublist.refl _
  | cons e entries ih =>
    rw [convertedEntries, List.filterMap_cons]
    cases hvalue : f e.2 with
    | none => exact ih.cons e.1
    | some b => exact ih.cons_cons e.1

/-- Convert the values, and drop the entries whose value does not convert. -/
def filterMap (f : α → Option β) (t : KeyedTable κ α) : KeyedTable κ β :=
  ⟨convertedEntries f t.entries, (keys_convertedEntries_sublist f t.entries).nodup t.nodupKeys⟩

/-- Convert every value. -/
def mapValues (f : α → β) (t : KeyedTable κ α) : KeyedTable κ β := t.filterMap fun a => some (f a)

theorem entries_mapValues (f : α → β) (t : KeyedTable κ α) :
    (t.mapValues f).entries = t.entries.map fun e => ⟨e.1, f e.2⟩ := by
  show convertedEntries (fun a => some (f a)) t.entries = _
  rw [← List.filterMap_eq_map']
  rfl

variable [DecidableEq κ]

theorem lookup_filterMap (f : α → Option β) (t : KeyedTable κ α) (k : κ) :
    (t.filterMap f).lookup k = (t.lookup k).bind f := by
  obtain ⟨entries, hnodup⟩ := t
  show (convertedEntries f entries).dlookup k = (entries.dlookup k).bind f
  induction entries with
  | nil => rfl
  | cons e entries ih =>
    obtain ⟨key, a⟩ := e
    obtain ⟨hfresh, hrest⟩ := List.nodupKeys_cons.mp hnodup
    have hrest' := ih hrest
    rw [convertedEntries, List.filterMap_cons]
    by_cases hkey : k = key
    · subst hkey
      rw [List.dlookup_cons_eq, Option.bind_some]
      cases hvalue : f a with
      | none =>
        -- the key occurs once, so nothing is found behind the dropped entry
        have hnone : entries.dlookup k = none := List.dlookup_eq_none.mpr hfresh
        rw [hnone] at hrest'
        exact hrest'
      | some b => exact List.dlookup_cons_eq _ _ _
    · have hskip : List.dlookup k (⟨key, a⟩ :: entries) = entries.dlookup k :=
        List.dlookup_cons_ne entries _ hkey
      rw [hskip]
      cases hvalue : f a with
      | none => exact hrest'
      | some b => exact (List.dlookup_cons_ne (convertedEntries f entries) _ hkey).trans hrest'

@[simp] theorem lookup_mapValues (f : α → β) (t : KeyedTable κ α) (k : κ) :
    (t.mapValues f).lookup k = (t.lookup k).map f := by
  rw [mapValues, lookup_filterMap]
  cases t.lookup k <;> rfl

omit [DecidableEq κ] in
@[simp] theorem keys_mapValues (f : α → β) (t : KeyedTable κ α) : (t.mapValues f).keys = t.keys := by
  show (t.mapValues f).entries.keys = t.entries.keys
  rw [entries_mapValues, List.keys, List.keys, List.map_map]
  rfl

omit [DecidableEq κ] in
@[simp] theorem mem_mapValues (f : α → β) {t : KeyedTable κ α} {k : κ} : k ∈ t.mapValues f ↔ k ∈ t := by
  rw [AList.mem_keys, keys_mapValues, ← AList.mem_keys]

theorem map_kerase (f : α → β) (entries : List (Sigma fun _ : κ => α)) (k : κ) :
    (entries.kerase k).map (fun e => (⟨e.1, f e.2⟩ : Sigma fun _ : κ => β)) =
      (entries.map fun e => ⟨e.1, f e.2⟩).kerase k := by
  induction entries with
  | nil => rfl
  | cons e entries ih =>
    by_cases hkey : k = e.1
    · simp [hkey]
    · simp [hkey, ih]

@[simp] theorem mapValues_erase (f : α → β) (t : KeyedTable κ α) (k : κ) :
    mapValues f (AList.erase k t) = AList.erase k (t.mapValues f) := by
  refine AList.ext ?_
  show _ = (t.mapValues f).entries.kerase k
  rw [entries_mapValues, entries_mapValues]
  exact map_kerase f t.entries k

@[simp] theorem mapValues_insert (f : α → β) (t : KeyedTable κ α) (k : κ) (a : α) :
    mapValues f (AList.insert k a t) = AList.insert k (f a) (t.mapValues f) := by
  refine AList.ext ?_
  rw [entries_mapValues, AList.entries_insert, AList.entries_insert, entries_mapValues,
    List.map_cons, map_kerase]

end KeyedTable

end Semantics
