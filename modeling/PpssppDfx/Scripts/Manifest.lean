import Mathlib.Data.List.Forall2
import Mathlib.Data.List.Nodup
import PpssppDfx.Python.Value

/-!
# The script manifest

A manifest lists the diagnostic scripts of a project. A loaded manifest has no two entries of
one name, since the loader refuses a second one.

## Main definitions

* `Scripts.ScriptEntry` — one script
* `Scripts.ScriptManifest` — a loaded manifest
* `Scripts.collect` — the loop over the items of the file
* `Scripts.load` — what the loader makes of the entries of the file

## Main results

* `Scripts.collect_eq_ok_iff` — the loop ends with an entry of each item
* `Scripts.load_eq_ok_iff` — a load keeps every entry, and succeeds when no name is repeated
-/

set_option autoImplicit false

namespace Scripts

open Python

/-- `VALID_SCRIPT_CATEGORIES`. -/
inductive Category where
  | eboot
  | state
  | p0ab
  | ndx
  | memory
  | misc
  | recipe
  deriving DecidableEq

def Category.text : Category → String
  | .eboot => "eboot"
  | .state => "state"
  | .p0ab => "p0ab"
  | .ndx => "ndx"
  | .memory => "memory"
  | .misc => "misc"
  | .recipe => "recipe"

/-- `_VALID_STATUSES`. The `run` of a skeleton only says that it is not implemented. -/
inductive Status where
  | migrated
  | skeleton
  deriving DecidableEq

structure ScriptEntry where
  name : String
  description : String
  category : Category
  requiresPpsspp : Bool := false
  path : String
  inputModel : String
  outputModel : String
  entry : String := "run"
  exposed : Bool := false
  status : Status := .migrated
  deriving DecidableEq

/-- The entries of a manifest, in the order of the file. -/
structure ScriptManifest where
  entries : List ScriptEntry
  unique : (entries.map ScriptEntry.name).Nodup

namespace ScriptManifest

def empty : ScriptManifest := ⟨[], List.nodup_nil⟩

/-- `entries.append(entry)`, for an entry whose name is not in `by_name`. -/
def append (m : ScriptManifest) (e : ScriptEntry) (h : e.name ∉ m.entries.map ScriptEntry.name) :
    ScriptManifest where
  entries := m.entries ++ [e]
  unique := by
    rw [List.map_append, List.map_singleton]
    exact List.nodup_append.mpr ⟨m.unique, List.nodup_singleton _, fun a ha b hb heq =>
      h (List.mem_singleton.mp hb ▸ heq ▸ ha)⟩

/-- `list_exposed()`. -/
def listExposed (m : ScriptManifest) : List ScriptEntry := m.entries.filter (·.exposed)

end ScriptManifest

/-- The entries of the file so far, with their index. -/
structure Collected extends ScriptManifest where
  byName : List (String × ScriptEntry)
  byName_eq : byName = entries.map fun e => (e.name, e)

namespace Collected

def start : Collected := ⟨.empty, [], rfl⟩

theorem names_eq (c : Collected) : c.byName.map Prod.fst = c.entries.map ScriptEntry.name := by
  rw [c.byName_eq, List.map_map]
  rfl

/-- `entries.append(entry)` and `by_name[entry.name] = entry`, for a name that is not there. -/
def add (c : Collected) (e : ScriptEntry) (h : e.name ∉ c.byName.map Prod.fst) : Collected where
  toScriptManifest := c.toScriptManifest.append e (c.names_eq ▸ h)
  byName := c.byName ++ [(e.name, e)]
  byName_eq := by
    show c.byName ++ [(e.name, e)] = (c.entries ++ [e]).map fun e => (e.name, e)
    rw [c.byName_eq, List.map_append, List.map_singleton]

@[simp] theorem entries_add (c : Collected) (e : ScriptEntry)
    (h : e.name ∉ c.byName.map Prod.fst) : (c.add e h).entries = c.entries ++ [e] := rfl

theorem ext {c c' : Collected} (h : c.entries = c'.entries) : c = c' := by
  obtain ⟨⟨entries, unique⟩, byName, hbyName⟩ := c
  obtain ⟨⟨entries', unique'⟩, byName', hbyName'⟩ := c'
  obtain rfl : entries = entries' := h
  obtain rfl : byName = byName' := hbyName.trans hbyName'.symm
  rfl

end Collected

section Loop

variable {α ε : Type}

/-- The loop of `_load_locked` over the items of `scripts`, of which `make` makes entries. -/
def collect (make : ℕ → α → Except ε ScriptEntry) (manifestError : String → ε) :
    ℕ → Collected → List α → Except ε Collected
  | _, c, [] => .ok c
  | idx, c, item :: rest =>
    match make idx item with
    | .error e => .error e
    | .ok entry =>
      -- entries that share an input or output model are only logged
      if h : entry.name ∈ c.byName.map Prod.fst then
        .error (manifestError ("manifest duplicate script name: " ++ strRepr entry.name))
      else collect make manifestError (idx + 1) (c.add entry h) rest

variable {make : ℕ → α → Except ε ScriptEntry} {manifestError : String → ε}
  {makes : α → ScriptEntry → Prop}

/-- If an item makes the same entry wherever it stands, the loop ends with the entries of all
items, unless an item makes none or two of them have one name. -/
theorem collect_eq_ok_iff (hmakes : ∀ idx item e, make idx item = .ok e ↔ makes item e)
    {idx : ℕ} {c c' : Collected} {items : List α} :
    collect make manifestError idx c items = .ok c' ↔
      ∃ entries, List.Forall₂ makes items entries ∧ c'.entries = c.entries ++ entries := by
  induction items generalizing idx c with
  | nil =>
    simp only [collect, List.forall₂_nil_left_iff, exists_eq_left, List.append_nil,
      Except.ok.injEq]
    exact ⟨fun h => h ▸ rfl, fun h => Collected.ext h.symm⟩
  | cons item rest ih =>
    rw [collect]
    cases hmake : make idx item with
    | error e =>
      refine iff_of_false (by rintro ⟨⟩) ?_
      rintro ⟨_, hentries, -⟩
      obtain ⟨entry, entries, hitem, -, rfl⟩ := List.forall₂_cons_left_iff.mp hentries
      rw [(hmakes idx item entry).mpr hitem] at hmake
      cases hmake
    | ok entry =>
      have hentry : makes item entry := (hmakes idx item entry).mp hmake
      have honly (e : ScriptEntry) (he : makes item e) : e = entry := by
        rw [(hmakes idx item e).mpr he] at hmake
        exact Except.ok.inj hmake
      dsimp only
      split
      next hold =>
        refine iff_of_false (by rintro ⟨⟩) ?_
        rintro ⟨_, hentries, heq⟩
        obtain ⟨e, entries, hitem, -, rfl⟩ := List.forall₂_cons_left_iff.mp hentries
        obtain rfl := honly e hitem
        -- the name would be there twice
        have hunique := c'.unique
        rw [heq, List.map_append, List.map_cons] at hunique
        rw [c.names_eq] at hold
        exact absurd rfl ((List.nodup_append.mp hunique).2.2 e.name hold e.name
          List.mem_cons_self)
      next hnew =>
        rw [ih]
        constructor
        · rintro ⟨entries, hentries, heq⟩
          refine ⟨entry :: entries, .cons hentry hentries, ?_⟩
          rw [heq, Collected.entries_add, List.append_assoc, List.singleton_append]
        · rintro ⟨_, hentries, heq⟩
          obtain ⟨e, entries, hitem, hrest, rfl⟩ := List.forall₂_cons_left_iff.mp hentries
          obtain rfl := honly e hitem
          refine ⟨entries, hrest, ?_⟩
          rw [heq, Collected.entries_add, List.append_assoc, List.singleton_append]

end Loop

/-- `reload()` and `ensure_loaded()`, once the entries have been parsed. -/
def load (raw : List ScriptEntry) : Except String ScriptManifest :=
  (collect (fun _ e => .ok e) id 0 .start raw).map Collected.toScriptManifest

/-- A load keeps every entry in its place; it fails exactly when the entries make no manifest,
which is when two of them have one name. -/
theorem load_eq_ok_iff {raw : List ScriptEntry} {m : ScriptManifest} :
    load raw = .ok m ↔ m.entries = raw := by
  have hcollect (c : Collected) : collect (fun _ e => .ok e) id 0 .start raw = .ok c ↔
      c.entries = raw := by
    have hmakes (idx : ℕ) (item e : ScriptEntry) :
        (Except.ok item : Except String ScriptEntry) = .ok e ↔ item = e :=
      iff_of_eq (Except.ok.injEq item e)
    rw [collect_eq_ok_iff hmakes]
    simp only [List.forall₂_eq_eq_eq, exists_eq_left']
    exact Iff.rfl
  rw [load]
  constructor
  · intro h
    cases hloop : collect (fun _ e => .ok e) id 0 .start raw with
    | error message =>
      rw [hloop] at h
      cases h
    | ok c =>
      rw [hloop] at h
      cases h
      exact (hcollect c).mp hloop
  · intro h
    rw [(hcollect ⟨m, _, rfl⟩).mpr h]
    rfl

end Scripts
