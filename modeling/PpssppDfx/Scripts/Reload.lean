import Mathlib.Data.List.Forall2
import PpssppDfx.Scripts.Manifest

/-!
# Reloading the manifest

A reload reads the file of the manifest, parses it and makes an entry of each mapping under
`scripts`. The entries and the index of their names are built on the side and replace the old ones
at the end, so that a reload that raises leaves both as they were. What it raises is meant to be a
`ManifestError`, but two kinds of files raise something else: those that the loader fails on with
an error that is not its own, such as bytes that are no UTF-8, and those with a mapping whose keys
are not all strings.

The YAML loader, and what pydantic makes of values that have to be strings or booleans, are
parameters.

## Main definitions

* `Scripts.construct` — `ScriptEntry(**raw)`
* `Scripts.reload` — a reload
* `Scripts.Atomic` — what a reload is to do

## Main results

* `Scripts.reload_atomic_iff` — when it does so
-/

set_option autoImplicit false

namespace Scripts

open Python

/-! ## Documents -/

/-- What `yaml.safe_load` returns or raises for the content of a file. -/
inductive Loaded where
  | value (v : Value)
  | yamlError (text : String)
  | raised (exception : String)

/-- The code that is used to read a manifest. -/
structure Libraries where
  safeLoad : List UInt8 → Loaded
  /-- A value for a field of type `str`, and one of type `bool`. -/
  str : Value → Option String
  bool : Value → Option Bool
  /-- The text of a `ValidationError`. -/
  report : Dict → String
  /-- The name of a type that no check looks into. -/
  otherType : Value → String

inductive ManifestFile where
  | missing
  | unreadable (text : String)
  | content (bytes : List UInt8)

def IsStr : Value → Prop
  | .str _ => True
  | _ => False

instance : DecidablePred IsStr := fun v =>
  match v with
  | .str _ => isTrue trivial
  | .none | .bool _ | .int _ | .float _ _ | .list _ | .dict _ | .other _ _ => isFalse id

/-- A key of the mapping is no string. -/
def HasStrayKey (raw : Dict) : Prop := ∃ e ∈ raw, ¬ IsStr e.1

instance : DecidablePred HasStrayKey := fun raw =>
  inferInstanceAs (Decidable (∃ e ∈ raw, ¬ IsStr e.1))

/-! ## Entries -/

section Fields

variable (lib : Libraries) (raw : Dict)

/-- `type(value).__name__`. -/
def typeName : Value → String
  | .none => "NoneType"
  | .bool _ => "bool"
  | .int _ => "int"
  | .float _ _ => "float"
  | .str _ => "str"
  | .list _ => "list"
  | .dict _ => "dict"
  | .other truth text => lib.otherType (.other truth text)

/-- A field with `min_length=1` and no default. -/
def requiredText (field : String) : Option String :=
  ((raw.get? field).bind lib.str).filter fun s => s ≠ ""

def optionalText (field dflt : String) : Option String :=
  match raw.get? field with
  | none => some dflt
  | some v => lib.str v

/-- A flag that is off by default. -/
def optionalFlag (field : String) : Option Bool :=
  match raw.get? field with
  | none => some false
  | some v => lib.bool v

/-- The pattern `^[a-z][a-z0-9_]*$`. -/
def isScriptName (s : String) : Bool :=
  match s.toList with
  | [] => false
  | c :: cs => c.isLower && cs.all fun d => d.isLower || d.isDigit || d == '_'

def Category.ofText? (s : String) : Option Category :=
  [.eboot, .state, .p0ab, .ndx, .memory, .misc, .recipe].find? fun c => c.text = s

def Status.ofText? (s : String) : Option Status :=
  if s = "migrated" then some .migrated
  else if s = "skeleton" then some .skeleton
  else none

def fieldNames : List String :=
  ["name", "description", "category", "requires_ppsspp", "path", "input_model", "output_model",
    "entry", "exposed", "status"]

def isFieldName : Value → Bool
  | .str key => fieldNames.contains key
  | _ => false

/-- The fields of a mapping that pass their checks, with no others around. -/
def validFields : Option ScriptEntry := do
  let name ← (requiredText lib raw "name").filter isScriptName
  let description ← requiredText lib raw "description"
  let category ← (requiredText lib raw "category").bind Category.ofText?
  let requiresPpsspp ← optionalFlag lib raw "requires_ppsspp"
  let path ← requiredText lib raw "path"
  let inputModel ← requiredText lib raw "input_model"
  let outputModel ← requiredText lib raw "output_model"
  let entry ← optionalText lib raw "entry" "run"
  let exposed ← optionalFlag lib raw "exposed"
  let status ← (optionalText lib raw "status" "migrated").bind Status.ofText?
  if raw.all fun e => isFieldName e.1 then
    some
      { name, description, category, requiresPpsspp, path, inputModel, outputModel, entry,
        exposed, status }
  else none

/-- Why a mapping makes no entry. The validators of `category` and `status` raise their own error,
which ends the validation. -/
inductive Rejection where
  | typeError
  | manifestError (message : String)
  | validationError (text : String)

/-- `ScriptEntry(**raw)`. -/
def construct : Except Rejection ScriptEntry :=
  -- keywords must be strings
  if HasStrayKey raw then .error .typeError
  else
    match (requiredText lib raw "category").filter fun c => (Category.ofText? c).isNone with
    | some c => .error (.manifestError ("has invalid category=" ++ strRepr c ++
        "; expected one of ['eboot', 'memory', 'misc', 'ndx', 'p0ab', 'recipe', 'state']"))
    | none =>
      match (optionalText lib raw "status" "migrated").filter fun s => (Status.ofText? s).isNone with
      | some s => .error (.manifestError ("has invalid status=" ++ strRepr s ++
          "; expected one of ['migrated', 'skeleton']"))
      | none =>
        match validFields lib raw with
        | none => .error (.validationError (lib.report raw))
        | some entry => .ok entry

/-- Only keys that are no strings raise something that is not reported as a `ManifestError`. -/
theorem construct_eq_typeError_iff :
    construct lib raw = .error .typeError ↔ HasStrayKey raw := by
  unfold construct
  split_ifs with hstray
  · exact iff_of_true rfl hstray
  · refine iff_of_false ?_ hstray
    repeat' split
    all_goals exact fun h => nomatch h

end Fields

/-! ## The registry -/

/-- `_entries`, `_by_name` and `_loaded`. -/
structure Registry where
  entries : List ScriptEntry
  byName : List (String × ScriptEntry)
  loaded : Bool

/-- No two entries have one name, and the index has them under their names. -/
structure Registry.Indexed (r : Registry) : Prop where
  unique : (r.entries.map ScriptEntry.name).Nodup
  lookup_iff (name : String) (e : ScriptEntry) :
    r.byName.lookup name = some e ↔ e ∈ r.entries ∧ e.name = name

inductive Raised where
  | manifestError (message : String)
  | other (exception : String)

section Loading

variable (lib : Libraries)

/-- What the loop makes of an item of `scripts`. -/
def entryOf (idx : ℕ) : Value → Except Raised ScriptEntry
  | .dict raw =>
    match construct lib raw with
    | .error .typeError => .error (.other "TypeError")
    | .error (.manifestError message) => .error (.manifestError message)
    | .error (.validationError text) => .error (.manifestError
        ("manifest scripts[" ++ toString idx ++ "] validation failed: " ++ text))
    | .ok entry => .ok entry
  | v => .error (.manifestError
      ("manifest scripts[" ++ toString idx ++ "] must be a mapping, got " ++ typeName lib v))

/-- What is under `scripts`, or why there is nothing. -/
def scriptsOf (data : Value) : Except String (List Value) :=
  match data.orElse (.dict []) with
  | .dict entries =>
    match (Dict.get? entries "scripts").getD (.list []) with
    | .list items => .ok items
    | v => .error ("manifest 'scripts' must be a list, got " ++ typeName lib v)
  | v => .error ("manifest root must be a mapping, got " ++ typeName lib v)

/-- `_load_locked` up to the assignments. -/
def loadFile : ManifestFile → Except Raised Collected
  -- a warning is logged, and the list of scripts is empty
  | .missing => .ok .start
  | .unreadable text => .error (.manifestError ("manifest read failed: " ++ text))
  | .content bytes =>
    match lib.safeLoad bytes with
    | .yamlError text => .error (.manifestError ("manifest YAML parse failed: " ++ text))
    | .raised exception => .error (.other exception)
    | .value data =>
      match scriptsOf lib data with
      | .error message => .error (.manifestError message)
      | .ok items => collect (entryOf lib) .manifestError 0 .start items

/-- `reload()`: the number of entries. -/
def reload (file : ManifestFile) (r : Registry) : Except Raised ℕ × Registry :=
  match loadFile lib file with
  | .error e => (.error e, r)
  -- the old entries and the old index are replaced together
  | .ok c => (.ok c.entries.length, ⟨c.entries, c.byName, true⟩)

end Loading

section Entries

variable {lib : Libraries} {v : Value} {rest items : List Value} {before : List ScriptEntry}

/-- An item of `scripts` is a mapping that makes an entry. -/
def Makes (lib : Libraries) (v : Value) (e : ScriptEntry) : Prop :=
  ∃ raw, v = .dict raw ∧ construct lib raw = .ok e

theorem makes_dict_iff {raw : Dict} {e : ScriptEntry} :
    Makes lib (.dict raw) e ↔ construct lib raw = .ok e := by
  constructor
  · rintro ⟨raw', heq, hok⟩
    cases heq
    exact hok
  · exact fun hok => ⟨raw, rfl, hok⟩

/-- After items that make entries, all of different names, comes a mapping with a key that is no
string. -/
def StrayAfter (lib : Libraries) (before : List ScriptEntry) (items : List Value) : Prop :=
  ∃ front raw back entries, items = front ++ .dict raw :: back ∧
    List.Forall₂ (Makes lib) front entries ∧ ((before ++ entries).map ScriptEntry.name).Nodup ∧
      HasStrayKey raw

theorem not_strayAfter_nil : ¬ StrayAfter lib before [] := by
  rintro ⟨front, raw, back, entries, heq, -⟩
  exact List.append_ne_nil_of_right_ne_nil front (List.cons_ne_nil _ _) heq.symm

theorem strayAfter_cons_iff (hunique : (before.map ScriptEntry.name).Nodup) :
    StrayAfter lib before (v :: rest) ↔ (∃ raw, v = .dict raw ∧ HasStrayKey raw) ∨
      ∃ e, Makes lib v e ∧ e.name ∉ before.map ScriptEntry.name ∧
        StrayAfter lib (before ++ [e]) rest := by
  constructor
  · rintro ⟨front, raw, back, entries, heq, hmakes, hnodup, hstray⟩
    cases hmakes with
    | nil =>
      cases heq
      exact Or.inl ⟨raw, rfl, hstray⟩
    -- the first item makes an entry, whose name no later one has
    | @cons v' e front entries hv hfront =>
      cases heq
      rw [← List.singleton_append, ← List.append_assoc] at hnodup
      have hnew : ((before ++ [e]).map ScriptEntry.name).Nodup := by
        rw [List.map_append] at hnodup
        exact (List.nodup_append.mp hnodup).1
      rw [List.map_append, List.nodup_append] at hnew
      refine Or.inr ⟨e, hv, fun hmem => ?_, front, raw, back, entries, rfl, hfront, hnodup, hstray⟩
      exact hnew.2.2 e.name hmem e.name List.mem_cons_self rfl
  · rintro (⟨raw, rfl, hstray⟩ | ⟨e, hv, -, front, raw, back, entries, rfl, hfront, hnodup, hstray⟩)
    · refine ⟨[], raw, rest, [], rfl, .nil, ?_, hstray⟩
      rw [List.append_nil]
      exact hunique
    · refine ⟨v :: front, raw, back, e :: entries, rfl, .cons hv hfront, ?_, hstray⟩
      rw [← List.singleton_append, ← List.append_assoc]
      exact hnodup

/-- The entry does not depend on where the item stands. -/
theorem entryOf_eq_ok_iff (idx : ℕ) (v : Value) (e : ScriptEntry) :
    entryOf lib idx v = .ok e ↔ Makes lib v e := by
  match v with
  | .dict raw =>
    rw [makes_dict_iff, entryOf]
    cases construct lib raw with
    | ok entry => simp only [Except.ok.injEq]
    | error reason => cases reason <;> exact iff_of_false nofun nofun
  | .none | .bool _ | .int _ | .float _ _ | .str _ | .list _ | .other _ _ =>
    refine iff_of_false nofun ?_
    rintro ⟨raw, ⟨⟩, -⟩

theorem entryOf_eq_other_iff {idx : ℕ} {exception : String} :
    entryOf lib idx v = .error (.other exception) ↔
      exception = "TypeError" ∧ ∃ raw, v = .dict raw ∧ HasStrayKey raw := by
  match v with
  | .dict raw =>
    have hstray := construct_eq_typeError_iff lib raw
    simp only [Value.dict.injEq, exists_eq_left']
    rw [← hstray, entryOf]
    cases construct lib raw with
    | ok entry => simp
    | error reason => cases reason <;> simp [eq_comm]
  | .none | .bool _ | .int _ | .float _ _ | .str _ | .list _ | .other _ _ =>
    refine iff_of_false nofun ?_
    rintro ⟨-, raw, ⟨⟩, -⟩

/-- The loop raises something else than a `ManifestError` at a mapping with a key that is no string,
if it gets there. -/
theorem collect_eq_other_iff {idx : ℕ} {c : Collected} {exception : String} :
    collect (entryOf lib) .manifestError idx c items = .error (.other exception) ↔
      exception = "TypeError" ∧ StrayAfter lib c.entries items := by
  induction items generalizing idx c with
  | nil =>
    refine iff_of_false ?_ fun h => not_strayAfter_nil h.2
    rintro ⟨⟩
  | cons v rest ih =>
    have hmade (e : ScriptEntry) : entryOf lib idx v = .ok e ↔ Makes lib v e :=
      entryOf_eq_ok_iff idx v e
    have hraised : entryOf lib idx v = .error (.other exception) ↔
        exception = "TypeError" ∧ ∃ raw, v = .dict raw ∧ HasStrayKey raw := entryOf_eq_other_iff
    rw [strayAfter_cons_iff c.unique, collect]
    -- what the item makes decides whether the loop goes on
    cases hentry : entryOf lib idx v with
    | error raised =>
      have hnone : ¬ ∃ e, Makes lib v e ∧ e.name ∉ c.entries.map ScriptEntry.name ∧
          StrayAfter lib (c.entries ++ [e]) rest := by
        rintro ⟨e, he, -⟩
        rw [(hmade e).mpr he] at hentry
        cases hentry
      rw [or_iff_left hnone, ← hraised, hentry]
      simp only [Except.error.injEq]
    | ok entry =>
      have hplain : ¬ ∃ raw, v = .dict raw ∧ HasStrayKey raw := by
        intro hstray
        rw [entryOf_eq_other_iff.mpr ⟨rfl, hstray⟩] at hentry
        cases hentry
      have honly (e : ScriptEntry) : Makes lib v e ↔ entry = e := by
        rw [← hmade e, hentry, Except.ok.injEq]
      simp only [or_iff_right hplain, honly, exists_eq_left', ← c.names_eq]
      split
      next hold =>
        refine iff_of_false ?_ fun h => h.2.1 hold
        rintro ⟨⟩
      next hnew => rw [ih, Collected.entries_add, and_iff_right hnew]

end Entries

/-! ## Atomic reloads -/

/-- A reload succeeds and the entries are those of the index, or it raises a `ManifestError` and both
are what they were. -/
def Atomic (r : Registry) (outcome : Except Raised ℕ × Registry) : Prop :=
  match outcome.1 with
  | .ok n => outcome.2.Indexed ∧ n = outcome.2.entries.length
  | .error (.manifestError _) => outcome.2.entries = r.entries ∧ outcome.2.byName = r.byName
  | .error (.other _) => False

/-- Reading the file raises nothing but errors of YAML and of the system, and none of the mappings
that the loop gets to has a key that is no string. -/
def ManifestFile.Harmless (lib : Libraries) : ManifestFile → Prop
  | .missing | .unreadable _ => True
  | .content bytes =>
    match lib.safeLoad bytes with
    | .yamlError _ => True
    | .raised _ => False
    | .value data => ∀ items, scriptsOf lib data = .ok items → ¬ StrayAfter lib [] items

/-- In a list of entries with different names, the index finds each entry under its name. -/
theorem lookup_index_iff {entries : List ScriptEntry} {name : String} {e : ScriptEntry}
    (hunique : (entries.map ScriptEntry.name).Nodup) :
    (entries.map fun e => (e.name, e)).lookup name = some e ↔ e ∈ entries ∧ e.name = name := by
  induction entries with
  | nil => simp
  | cons head rest ih =>
    rw [List.map_cons, List.nodup_cons] at hunique
    rw [List.map_cons, List.lookup_cons, List.mem_cons]
    by_cases hname : name = head.name
    · rw [hname, beq_self_eq_true]
      constructor
      · rintro ⟨⟩
        exact ⟨Or.inl rfl, rfl⟩
      · rintro ⟨rfl | hrest, heq⟩
        · rfl
        · exact absurd (List.mem_map.mpr ⟨e, hrest, heq⟩) hunique.1
    · rw [beq_false_of_ne hname]
      refine (ih hunique.2).trans ⟨fun h => ⟨Or.inr h.1, h.2⟩, ?_⟩
      rintro ⟨rfl | hrest, heq⟩
      · exact absurd heq.symm hname
      · exact ⟨hrest, heq⟩

theorem Collected.indexed (c : Collected) (loaded : Bool) :
    Registry.Indexed ⟨c.entries, c.byName, loaded⟩ where
  unique := c.unique
  lookup_iff name e := by
    rw [c.byName_eq]
    exact lookup_index_iff c.unique

theorem loadFile_eq_other_iff (lib : Libraries) (file : ManifestFile) :
    (∃ exception, loadFile lib file = .error (.other exception)) ↔ ¬ file.Harmless lib := by
  match file with
  | .missing | .unreadable text =>
    refine iff_of_false ?_ (not_not_intro trivial)
    rintro ⟨exception, ⟨⟩⟩
  | .content bytes =>
    rw [loadFile, ManifestFile.Harmless]
    cases lib.safeLoad bytes with
    | yamlError text =>
      refine iff_of_false ?_ (not_not_intro trivial)
      rintro ⟨exception, ⟨⟩⟩
    | raised exception => exact iff_of_true ⟨exception, rfl⟩ id
    | value data =>
      dsimp only
      cases scriptsOf lib data with
      | error message =>
        refine iff_of_false ?_ (not_not_intro ?_)
        · rintro ⟨exception, ⟨⟩⟩
        · rintro items ⟨⟩
      | ok items =>
        simp only [collect_eq_other_iff, exists_eq_left, Except.ok.injEq, forall_eq', not_not]
        exact Iff.rfl

/-- A reload is atomic exactly for the files whose loading raises no error but those that are
caught. -/
theorem reload_atomic_iff (lib : Libraries) (file : ManifestFile) (r : Registry) :
    Atomic r (reload lib file r) ↔ file.Harmless lib := by
  have hother := loadFile_eq_other_iff lib file
  have hharmless : (∀ exception, loadFile lib file ≠ .error (.other exception)) →
      file.Harmless lib := by
    intro hcaught
    by_contra hnot
    obtain ⟨exception, hraised⟩ := hother.mpr hnot
    exact hcaught exception hraised
  rw [reload]
  cases hfile : loadFile lib file with
  | ok c =>
    refine iff_of_true ⟨c.indexed true, rfl⟩ (hharmless fun exception => ?_)
    rw [hfile]
    exact nofun
  | error e =>
    cases e with
    -- the assignments come after all that can raise
    | manifestError message =>
      refine iff_of_true ⟨rfl, rfl⟩ (hharmless fun exception => ?_)
      rw [hfile]
      exact nofun
    | other exception => exact iff_of_false id (hother.mp ⟨exception, hfile⟩)

/-- Libraries as far as a byte matters that begins no character. -/
def strictLibraries : Libraries where
  safeLoad bytes := if 0xFF ∈ bytes then .raised "UnicodeDecodeError" else .value .none
  str
    | .str s => some s
    | _ => none
  bool
    | .bool b => some b
    | _ => none
  report _ := "1 validation error for ScriptEntry"
  otherType _ := "date"

/-- A file that is no text makes a reload raise an error that is no `ManifestError`. -/
theorem not_atomic_undecodable :
    ¬ ∀ (lib : Libraries) (file : ManifestFile) (r : Registry), Atomic r (reload lib file r) :=
  fun h => h strictLibraries (.content [0xFF]) ⟨[], [], false⟩

/-- What a reload that succeeds leaves is a manifest of what the file says. -/
theorem load_of_reload (lib : Libraries) (bytes : List UInt8) (data : Value) (items : List Value)
    (r : Registry) (hdata : lib.safeLoad bytes = .value data)
    (hitems : scriptsOf lib data = .ok items) {n : ℕ} {r' : Registry}
    (h : reload lib (.content bytes) r = (.ok n, r')) :
    ∃ m : ScriptManifest, load r'.entries = .ok m ∧ List.Forall₂ (Makes lib) items m.entries := by
  rw [reload, loadFile, hdata] at h
  simp only [hitems] at h
  cases hcollect : collect (entryOf lib) .manifestError 0 .start items with
  | error e =>
    rw [hcollect] at h
    cases h
  | ok c =>
    rw [hcollect] at h
    cases h
    obtain ⟨entries, hmakes, heq⟩ := (collect_eq_ok_iff entryOf_eq_ok_iff).mp hcollect
    have hentries : c.entries = entries := heq
    exact ⟨⟨c.entries, c.unique⟩, load_eq_ok_iff.mpr rfl, hentries ▸ hmakes⟩

end Scripts
