import Mathlib.Data.List.Sort
import PpssppDfx.Python.Value
import PpssppDfx.Semantics.OrderedDict

/-!
# Output contracts

A tool declares what it returns: for each field a type, and whether all fields are there. The
declarations are derived from the views that the tool returns, and those of a tool that returns
one of several views are merged. What a tool returns is checked against its declaration, so a
declaration that is too narrow makes the tool fail.

Types are a parameter, with what they accept and how they are shown.

## Main definitions

* `Output.deriveOutputContract`, `Output.flattenUnion` — the derived and the merged declarations
* `Output.Contract.Accepts` — the check of a response

## Main results

* `Output.flattenUnion_ok_iff` — which declarations can be merged
* `Output.responses_accepted` — when what a tool returns passes the check
-/

set_option autoImplicit false

namespace Output

open Python Semantics

/-- A type with the description that `Annotated` adds. -/
structure Annotated (τ : Type) where
  type : τ
  description : Option String

/-- A `TypedDict`. -/
structure Contract (τ : Type) where
  name : String
  fields : OrderedDict String (Annotated τ)
  total : Bool

/-- A field of a view. -/
structure ViewField (τ : Type) where
  annotation : Option τ
  description : Option String

/-- A view: its name and `model_fields`. -/
structure View (τ : Type) where
  name : String
  fields : OrderedDict String (ViewField τ)

/-- The types: any value at all, what a type accepts of the values of responses, and its text. -/
structure Types (τ ν : Type) where
  any : τ
  accepts : τ → ν → Prop
  accepts_any : ∀ v, accepts any v
  repr : τ → String

/-- The arguments of a derivation, apart from the name. -/
structure Branch (τ : Type) where
  view : View τ
  exclude : List String
  overrides : OrderedDict String τ

variable {τ ν : Type} (types : Types τ ν)

/-- `sorted(names)`, as a text. -/
def sortedText (names : List String) : String :=
  "[" ++ ", ".intercalate ((names.mergeSort fun a b => decide (a ≤ b)).map strRepr) ++ "]"

/-- The description that a hint is given; an empty one is none. -/
def describe (description : Option String) : Option String :=
  description.filter fun text => text ≠ ""

/-- The annotation of a field. -/
def ViewField.hint (field : ViewField τ) : Annotated τ :=
  ⟨field.annotation.getD types.any, describe field.description⟩

/-- The hints of the fields that are not excluded. -/
def Branch.fieldHints (b : Branch τ) : OrderedDict String (Annotated τ) :=
  OrderedDict.empty.update b.view.fields fun key field =>
    if key ∈ b.exclude then none else some (field.hint types)

/-- The hints with the overrides, which keep the descriptions of the view. -/
def Branch.hints (b : Branch τ) : OrderedDict String (Annotated τ) :=
  (b.fieldHints types).update b.overrides fun key type =>
    some ⟨type, (b.view.fields.get? key).bind fun field => describe field.description⟩

/-- The overrides of fields that the view does not have. -/
def Branch.unknown (b : Branch τ) : List String :=
  (b.overrides.entries.map Prod.fst).filter fun key => key ∉ b.view.fields.entries.map Prod.fst

/-- `derive_output_contract`, with the text of the `ValueError`. -/
def deriveOutputContract (name : String) (b : Branch τ) (partialFields : Bool) :
    Except String (Contract τ) :=
  if b.unknown ≠ [] then
    .error (name ++ ": overrides 含 view 中不存在的字段 " ++ sortedText b.unknown ++ "；view " ++
      b.view.name ++ " 的字段为 " ++ sortedText (b.view.fields.entries.map Prod.fst))
  else .ok ⟨name, b.hints types, !partialFields⟩

/-! ## Merging -/

/-- The variables of the merge. -/
structure Merged (τ : Type) where
  annotations : OrderedDict String (Annotated τ)
  seen : OrderedDict String τ

/-- A field of one of the contracts. -/
structure Declared (τ : Type) where
  contract : String
  key : String
  annotation : Annotated τ

/-- A field is taken over. -/
def Merged.add (m : Merged τ) (f : Declared τ) : Merged τ :=
  ⟨m.annotations.set f.key f.annotation, m.seen.set f.key f.annotation.type⟩

variable [DecidableEq τ]

/-- What the loop does with a field. -/
def mergeField (name : String) (m : Merged τ) (f : Declared τ) : Except String (Merged τ) :=
  match m.seen.get? f.key with
  | none => .ok (m.add f)
  | some prev =>
    if prev ≠ f.annotation.type then
      .error ("flatten_union(" ++ strRepr name ++ "): conflicting annotations for " ++
        strRepr f.key ++ ": " ++ types.repr prev ++ " vs " ++ types.repr f.annotation.type ++
        " (from " ++ f.contract ++ "). The merge is last-wins, so the later type would shadow " ++
        "the earlier one and break output validation for every action — reconcile the branch " ++
        "shapes instead.")
    else .ok (m.add f)

/-- The loop. -/
def mergeFields (name : String) : List (Declared τ) → Merged τ → Except String (Merged τ)
  | [], m => .ok m
  | f :: fields, m =>
    match mergeField types name m f with
    | .error e => .error e
    | .ok m => mergeFields name fields m

omit [DecidableEq τ] in
/-- The fields of a contract, in order. -/
def Contract.declared (c : Contract τ) : List (Declared τ) :=
  c.fields.entries.map fun e => ⟨c.name, e.1, e.2⟩

/-- `flatten_union`. -/
def flattenUnion (name : String) (contracts : List (Contract τ)) : Except String (Contract τ) :=
  (mergeFields types name (contracts.flatMap Contract.declared) ⟨.empty, .empty⟩).map fun m =>
    ⟨name, m.annotations, false⟩

/-! ## Responses -/

omit [DecidableEq τ]

/-- The check of a response: the fields that it has are of their types, and it has those that it
must have. Other fields pass. -/
def Contract.Accepts (c : Contract τ) (response : OrderedDict String ν) : Prop :=
  ∀ key a, c.fields.get? key = some a →
    match response.get? key with
    | some v => types.accepts a.type v
    | none => c.total = false

/-- A response of a branch: the fields of its view that are not excluded, with values of the
types that they have in the view. -/
structure Branch.Returns (b : Branch τ) (response : OrderedDict String ν) : Prop where
  keys : ∀ key, response.get? key ≠ none ↔
    b.view.fields.get? key ≠ none ∧ key ∉ b.exclude
  fits : ∀ key v field, response.get? key = some v → b.view.fields.get? key = some field →
    types.accepts (field.hint types).type v

/-- The overrides are wide enough for a response. -/
def Branch.Covers (b : Branch τ) (response : OrderedDict String ν) : Prop :=
  ∀ key v type, response.get? key = some v → b.overrides.get? key = some type →
    types.accepts type v

/-- The contracts give each field one type. -/
def Agree (contracts : List (Contract τ)) : Prop :=
  ∀ c ∈ contracts, ∀ c' ∈ contracts, ∀ key a a', c.fields.get? key = some a →
    c'.fields.get? key = some a' → a.type = a'.type

/-! ## Derived contracts -/

section

variable {types} {b : Branch τ} {c : Contract τ} {name key : String} {partialFields : Bool}
  {response : OrderedDict String ν}

theorem get?_fieldHints : (b.fieldHints types).get? key =
    if key ∈ b.exclude then none else (b.view.fields.get? key).map (ViewField.hint types) := by
  rw [Branch.fieldHints, OrderedDict.get?_update, OrderedDict.get?_empty, Option.or_none]
  split
  · rw [Option.bind_fun_none]
  · exact Option.map_eq_bind.symm

theorem get?_hints : (b.hints types).get? key =
    ((b.overrides.get? key).map fun type =>
      ⟨type, (b.view.fields.get? key).bind fun field => describe field.description⟩).or
    ((b.fieldHints types).get? key) := by
  rw [Branch.hints, OrderedDict.get?_update, Option.map_eq_bind]
  rfl

theorem fields_of_derive (h : deriveOutputContract types name b partialFields = .ok c) :
    c.fields = b.hints types ∧ c.total = !partialFields ∧ b.unknown = [] := by
  rw [deriveOutputContract] at h
  split at h
  · cases h
  · rename_i hunknown
    cases h
    exact ⟨rfl, rfl, not_not.mp hunknown⟩

/-- An override is of a field that the view has. -/
theorem get?_view_ne_none (hunknown : b.unknown = []) (hkey : b.overrides.get? key ≠ none) :
    b.view.fields.get? key ≠ none := by
  rw [ne_eq, OrderedDict.get?_eq_none_iff, not_not] at hkey ⊢
  by_contra hnot
  have hmem : key ∈ b.unknown := List.mem_filter.mpr ⟨hkey, by simpa using hnot⟩
  rw [hunknown] at hmem
  cases hmem

theorem Branch.Returns.get?_ne_none (h : b.Returns types response) {a : Annotated τ}
    (ha : (b.fieldHints types).get? key = some a) :
    ∃ v, response.get? key = some v ∧ types.accepts a.type v := by
  rw [get?_fieldHints] at ha
  split at ha
  · cases ha
  · rename_i hexclude
    obtain ⟨field, hfield, rfl⟩ := Option.map_eq_some_iff.mp ha
    obtain ⟨v, hv⟩ := Option.ne_none_iff_exists'.mp
      ((h.keys key).mpr ⟨by rw [hfield]; exact Option.some_ne_none field, hexclude⟩)
    exact ⟨v, hv, h.fits key v field hv hfield⟩

/-- A field is declared with the type of its override. -/
theorem get?_override (hfields : c.fields = b.hints types) {type : τ}
    (htype : b.overrides.get? key = some type) :
    ∃ a, c.fields.get? key = some a ∧ a.type = type := by
  rw [hfields, get?_hints, htype]
  exact ⟨_, rfl, rfl⟩

/-- A response passes the check of the contract of its branch exactly when the overrides are wide
enough and the contract does not demand an excluded field, which an override brings back. -/
theorem accepts_derived_iff (hderive : deriveOutputContract types name b partialFields = .ok c)
    (h : b.Returns types response) :
    c.Accepts types response ↔ b.Covers types response ∧
      (partialFields = false → ∀ key ∈ b.exclude, b.overrides.get? key = none) := by
  obtain ⟨hfields, htotal, hunknown⟩ := fields_of_derive hderive
  constructor
  · intro haccepts
    refine ⟨fun key v type hv htype => ?_, fun hpartial key hexclude => ?_⟩
    · obtain ⟨a, hdeclared, rfl⟩ := get?_override hfields htype
      have hcheck := haccepts key a hdeclared
      rwa [hv] at hcheck
    · by_contra hoverride
      obtain ⟨type, htype⟩ := Option.ne_none_iff_exists'.mp hoverride
      have hmissing : response.get? key = none := by
        by_contra hkey
        exact ((h.keys key).mp hkey).2 hexclude
      obtain ⟨a, hdeclared, -⟩ := get?_override hfields htype
      have hcheck := haccepts key a hdeclared
      rw [hmissing, htotal, hpartial] at hcheck
      cases hcheck
  · rintro ⟨hcovers, hexcluded⟩ key a ha
    cases htype : b.overrides.get? key with
    | none =>
      rw [hfields, get?_hints, htype] at ha
      obtain ⟨v, hv, hfits⟩ := h.get?_ne_none ha
      rw [hv]
      exact hfits
    | some type =>
      obtain ⟨a', hdeclared, rfl⟩ := get?_override hfields htype
      obtain rfl := Option.some.inj (hdeclared.symm.trans ha)
      cases hv : response.get? key with
      | some v => exact hcovers key v _ hv htype
      | none =>
        rw [htotal]
        cases hpartial : partialFields with
        | true => rfl
        | false =>
          have hview := get?_view_ne_none hunknown (htype ▸ Option.some_ne_none a'.type)
          refine absurd hv ((h.keys key).mpr ⟨hview, fun hexclude => ?_⟩)
          have := hexcluded hpartial key hexclude
          rw [htype] at this
          cases this

/-! ## Merged contracts -/

variable {m m' : Merged τ} {fields : List (Declared τ)} {f g : Declared τ}

/-- What is seen are the types of the annotations so far. -/
def Merged.Consistent (m : Merged τ) : Prop :=
  ∀ key, m.seen.get? key = (m.annotations.get? key).map Annotated.type

theorem Merged.Consistent.add (h : m.Consistent) (f : Declared τ) : (m.add f).Consistent := by
  intro key
  simp only [Merged.add, OrderedDict.get?_set]
  split
  · rfl
  · exact h key

/-- Fields agree with one another and with those before. -/
structure Merged.Fits (m : Merged τ) (fields : List (Declared τ)) : Prop where
  before : ∀ f ∈ fields, ∀ type, m.seen.get? f.key = some type → type = f.annotation.type
  among : ∀ f ∈ fields, ∀ g ∈ fields, f.key = g.key → f.annotation.type = g.annotation.type

theorem Merged.fits_cons_iff : m.Fits (f :: fields) ↔
    (∀ type, m.seen.get? f.key = some type → type = f.annotation.type) ∧
      (m.add f).Fits fields := by
  have hadd (g : Declared τ) : (m.add f).seen.get? g.key =
      if g.key = f.key then some f.annotation.type else m.seen.get? g.key := OrderedDict.get?_set
  constructor
  · intro h
    refine ⟨h.before f List.mem_cons_self, ⟨fun g hg type htype => ?_, fun g hg g' hg' =>
      h.among g (List.mem_cons_of_mem f hg) g' (List.mem_cons_of_mem f hg')⟩⟩
    rw [hadd] at htype
    split at htype
    · rename_i hkey
      obtain rfl := Option.some.inj htype
      exact h.among f List.mem_cons_self g (List.mem_cons_of_mem f hg) hkey.symm
    · exact h.before g (List.mem_cons_of_mem f hg) type htype
  · rintro ⟨hf, hrest⟩
    have hsame (g : Declared τ) (hg : g ∈ fields) (hkey : g.key = f.key) :
        f.annotation.type = g.annotation.type :=
      hrest.before g hg _ (by rw [hadd, if_pos hkey])
    constructor
    · intro g hg type htype
      rcases List.mem_cons.mp hg with rfl | hg
      · exact hf type htype
      · by_cases hkey : g.key = f.key
        · exact (hf type (hkey ▸ htype)).trans (hsame g hg hkey)
        · exact hrest.before g hg type (by rw [hadd, if_neg hkey, htype])
    · intro g hg g' hg' hkey
      rcases List.mem_cons.mp hg with rfl | hgrest
      · rcases List.mem_cons.mp hg' with rfl | hgrest'
        · rfl
        · exact hsame g' hgrest' hkey.symm
      · rcases List.mem_cons.mp hg' with rfl | hgrest'
        · exact (hsame g hgrest hkey).symm
        · exact hrest.among g hgrest g' hgrest' hkey

variable [DecidableEq τ]

theorem mergeField_ok_iff : mergeField types name m f = .ok m' ↔
    (∀ type, m.seen.get? f.key = some type → type = f.annotation.type) ∧ m.add f = m' := by
  rw [mergeField]
  cases hseen : m.seen.get? f.key with
  | none => simp
  | some prev =>
    by_cases hprev : prev = f.annotation.type
    · simp [hprev]
    · simp [hprev]

/-- The loop gets to its end when the fields agree. -/
theorem mergeFields_ok_iff : (∃ m', mergeFields types name fields m = .ok m') ↔ m.Fits fields := by
  induction fields generalizing m with
  | nil =>
    refine iff_of_true ⟨m, rfl⟩ ⟨fun f hf => ?_, fun f hf => ?_⟩
    · cases hf
    · cases hf
  | cons f fields ih =>
    rw [Merged.fits_cons_iff, ← ih, mergeFields]
    cases hfield : mergeField types name m f with
    | error e =>
      refine iff_of_false (fun ⟨m', h⟩ => (nomatch h)) fun ⟨hf, _⟩ => ?_
      rw [mergeField_ok_iff.mpr ⟨hf, rfl⟩] at hfield
      cases hfield
    | ok m'' =>
      obtain ⟨hf, rfl⟩ := mergeField_ok_iff.mp hfield
      exact (and_iff_right hf).symm

/-- What the annotations are at the end of the loop. -/
structure Merged.Gathers (m : Merged τ) (fields : List (Declared τ)) (m' : Merged τ) : Prop where
  all : ∀ f ∈ fields, ∃ a, m'.annotations.get? f.key = some a ∧ a.type = f.annotation.type
  before : ∀ key a, m.annotations.get? key = some a →
    ∃ a', m'.annotations.get? key = some a' ∧ a'.type = a.type
  only : ∀ key a, m'.annotations.get? key = some a →
    m.annotations.get? key = some a ∨ ∃ f ∈ fields, f.key = key ∧ f.annotation = a

theorem gathers_of_mergeFields (hconsistent : m.Consistent)
    (h : mergeFields types name fields m = .ok m') : m.Gathers fields m' := by
  induction fields generalizing m with
  | nil =>
    cases h
    exact ⟨fun f hf => (nomatch hf), fun key a ha => ⟨a, ha, rfl⟩, fun key a ha => Or.inl ha⟩
  | cons f fields ih =>
    rw [mergeFields] at h
    split at h
    · cases h
    · rename_i m'' hfield
      obtain ⟨hf, rfl⟩ := mergeField_ok_iff.mp hfield
      have hadd (key : String) : (m.add f).annotations.get? key =
          if key = f.key then some f.annotation else m.annotations.get? key := OrderedDict.get?_set
      have hgathers := ih (hconsistent.add f) h
      have hself : ∃ a, m'.annotations.get? f.key = some a ∧ a.type = f.annotation.type :=
        hgathers.before f.key f.annotation (by rw [hadd, if_pos rfl])
      refine ⟨?_, ?_, ?_⟩
      · intro g hg
        rcases List.mem_cons.mp hg with rfl | hg
        · exact hself
        · exact hgathers.all g hg
      · intro key a ha
        by_cases hkey : key = f.key
        · subst hkey
          obtain ⟨a', ha', htype⟩ := hself
          refine ⟨a', ha', htype.trans (hf a.type ?_).symm⟩
          rw [hconsistent, ha]
          rfl
        · exact hgathers.before key a (by rw [hadd, if_neg hkey, ha])
      · intro key a ha
        rcases hgathers.only key a ha with ha | ⟨g, hg, hgkey, hga⟩
        · rw [hadd] at ha
          split at ha
          · rename_i hkey
            exact Or.inr ⟨f, List.mem_cons_self, hkey.symm, Option.some.inj ha⟩
          · exact Or.inl ha
        · exact Or.inr ⟨g, List.mem_cons_of_mem f hg, hgkey, hga⟩

/-! ## The results -/

variable {u : Contract τ} {contracts : List (Contract τ)}

omit [DecidableEq τ] in
theorem mem_declared_iff {c : Contract τ} {f : Declared τ} :
    f ∈ c.declared ↔ f.contract = c.name ∧ c.fields.get? f.key = some f.annotation := by
  rw [Contract.declared, List.mem_map]
  constructor
  · rintro ⟨e, he, rfl⟩
    exact ⟨rfl, OrderedDict.mem_entries_iff.mp he⟩
  · rintro ⟨hname, hfield⟩
    exact ⟨(f.key, f.annotation), OrderedDict.mem_entries_iff.mpr hfield, by rw [← hname]⟩

/-- Contracts can be merged when they agree. -/
theorem flattenUnion_ok_iff (name : String) (contracts : List (Contract τ)) :
    (∃ u, flattenUnion types name contracts = .ok u) ↔ Agree contracts := by
  have hmerge : (∃ u, flattenUnion types name contracts = .ok u) ↔
      ∃ m', mergeFields types name (contracts.flatMap Contract.declared) ⟨.empty, .empty⟩ =
        .ok m' := by
    rw [flattenUnion]
    cases mergeFields types name (contracts.flatMap Contract.declared) ⟨.empty, .empty⟩ with
    | error e => exact iff_of_false (fun ⟨u, h⟩ => (nomatch h)) fun ⟨m', h⟩ => (nomatch h)
    | ok m' => exact iff_of_true ⟨_, rfl⟩ ⟨m', rfl⟩
  rw [hmerge, mergeFields_ok_iff]
  constructor
  · intro h c hc c' hc' key a a' ha ha'
    exact h.among ⟨c.name, key, a⟩ (List.mem_flatMap.mpr ⟨c, hc, mem_declared_iff.mpr ⟨rfl, ha⟩⟩)
      ⟨c'.name, key, a'⟩ (List.mem_flatMap.mpr ⟨c', hc', mem_declared_iff.mpr ⟨rfl, ha'⟩⟩) rfl
  · intro h
    refine ⟨fun f _ type htype => (nomatch htype), fun f hf g hg hkey => ?_⟩
    obtain ⟨c, hc, hf⟩ := List.mem_flatMap.mp hf
    obtain ⟨c', hc', hg⟩ := List.mem_flatMap.mp hg
    exact h c hc c' hc' f.key _ _ (mem_declared_iff.mp hf).2 (hkey ▸ (mem_declared_iff.mp hg).2)

/-- A response that has no other fields than a contract with optional fields passes the check of
the merged contracts exactly when it passes the check of this one. -/
theorem accepts_flattened_iff (hu : flattenUnion types name contracts = .ok u)
    (hc : c ∈ contracts) (htotal : c.total = false)
    (hkeys : ∀ key, response.get? key ≠ none → c.fields.get? key ≠ none) :
    u.Accepts types response ↔ c.Accepts types response := by
  obtain ⟨m', hmerge, rfl⟩ : ∃ m', mergeFields types name (contracts.flatMap Contract.declared)
      ⟨.empty, .empty⟩ = .ok m' ∧ ⟨name, m'.annotations, false⟩ = u := by
    rw [flattenUnion] at hu
    cases hmerge : mergeFields types name (contracts.flatMap Contract.declared)
        ⟨.empty, .empty⟩ with
    | error e => rw [hmerge] at hu; cases hu
    | ok m' => rw [hmerge] at hu; exact ⟨m', rfl, Except.ok.inj hu⟩
  have hgathers := gathers_of_mergeFields (fun _ => rfl) hmerge
  -- the union gives a field the type that its contract gives it
  have hsame (key : String) (a : Annotated τ) (ha : c.fields.get? key = some a) :
      ∃ a', m'.annotations.get? key = some a' ∧ a'.type = a.type :=
    hgathers.all ⟨c.name, key, a⟩ (List.mem_flatMap.mpr ⟨c, hc, mem_declared_iff.mpr ⟨rfl, ha⟩⟩)
  constructor
  · intro h key a ha
    obtain ⟨a', ha', htype⟩ := hsame key a ha
    have hcheck := h key a' ha'
    cases hv : response.get? key with
    | none => exact htotal
    | some v =>
      rw [hv] at hcheck
      exact htype ▸ hcheck
  · intro h key a ha
    cases hv : response.get? key with
    | none => rfl
    | some v =>
      obtain ⟨a', ha'⟩ := Option.ne_none_iff_exists'.mp (hkeys key (hv ▸ Option.some_ne_none v))
      obtain ⟨a'', ha'', htype⟩ := hsame key a' ha'
      obtain rfl := Option.some.inj (ha''.symm.trans ha)
      have hcheck := h key a' ha'
      rw [hv] at hcheck
      exact htype ▸ hcheck

omit [DecidableEq τ] in
/-- The contract of a branch has the fields that the branch returns. -/
theorem declared_of_returns (hderive : deriveOutputContract types name b partialFields = .ok c)
    (h : b.Returns types response) (key : String) (hkey : response.get? key ≠ none) :
    c.fields.get? key ≠ none := by
  obtain ⟨hview, hexclude⟩ := (h.keys key).mp hkey
  obtain ⟨field, hfield⟩ := Option.ne_none_iff_exists'.mp hview
  rw [(fields_of_derive hderive).1, get?_hints, get?_fieldHints, if_neg hexclude, hfield]
  cases b.overrides.get? key with
  | none => exact Option.some_ne_none _
  | some type => exact Option.some_ne_none _

/-- The contracts of the branches of a tool can be merged exactly when they agree. What a branch
returns then passes the check of the tool exactly when the overrides of the branch are wide enough
for it. The contract of a tool with one branch must not demand a field that it leaves out,
either. -/
theorem responses_accepted (name : String) (contracts : List (Contract τ)) :
    ((∃ u, flattenUnion types name contracts = .ok u) ↔ Agree contracts) ∧
      (∀ u, flattenUnion types name contracts = .ok u → ∀ n b c, c ∈ contracts →
        deriveOutputContract types n b true = .ok c → ∀ response : OrderedDict String ν,
          b.Returns types response → (u.Accepts types response ↔ b.Covers types response)) ∧
      (∀ n b c, deriveOutputContract types n b false = .ok c → ∀ response : OrderedDict String ν,
        b.Returns types response → (c.Accepts types response ↔
          b.Covers types response ∧ ∀ key ∈ b.exclude, b.overrides.get? key = none)) := by
  refine ⟨flattenUnion_ok_iff name contracts, ?_, ?_⟩
  · intro u hu n b c hc hderive response hreturns
    have htotal : c.total = false := (fields_of_derive hderive).2.1
    rw [accepts_flattened_iff hu hc htotal (declared_of_returns hderive hreturns),
      accepts_derived_iff hderive hreturns]
    exact and_iff_left fun hpartial => (nomatch hpartial)
  · intro n b c hderive response hreturns
    rw [accepts_derived_iff hderive hreturns, forall_prop_of_true rfl]

end

/-! ## A tool with two branches -/

/-- Types that are known by name. -/
def namedTypes : Types String Value where
  any := "Any"
  accepts type v := match type with
    | "Any" => True
    | "str" => ∃ text, v = .str text
    | "int | str" => (∃ n, v = .int n) ∨ ∃ text, v = .str text
    | _ => False
  accepts_any _ := trivial
  repr := id

/-- A read: the value is anything in the view, and a number or a text in the contract. -/
def readBranch : Branch String where
  view := ⟨"MemoryReadResponse", (OrderedDict.empty.set "address" ⟨some "str", none⟩).set "value"
    ⟨some "Any", some "the value"⟩⟩
  exclude := []
  overrides := OrderedDict.empty.set "value" "int | str"

/-- A picture, whose pixels go another way. -/
def pictureBranch : Branch String where
  view := ⟨"ScreenshotResponse", (OrderedDict.empty.set "address" ⟨some "str", none⟩).set
    "image_base64" ⟨some "str", none⟩⟩
  exclude := ["image_base64"]
  overrides := .empty

def branchContracts : List (Contract String) :=
  [⟨"ReadOutput", readBranch.hints namedTypes, false⟩,
    ⟨"PictureOutput", pictureBranch.hints namedTypes, false⟩]

def readResponse (v : Value) : OrderedDict String Value :=
  (OrderedDict.empty.set "address" (.str "0x08804000")).set "value" v

theorem returns_readResponse (v : Value) : readBranch.Returns namedTypes (readResponse v) := by
  have hkeys (key : String) : (readResponse v).get? key ≠ none ↔
      readBranch.view.fields.get? key ≠ none := by
    simp only [readResponse, readBranch, OrderedDict.get?_set, OrderedDict.get?_empty]
    split_ifs <;> simp
  constructor
  · intro key
    rw [hkeys]
    exact (and_iff_left List.not_mem_nil).symm
  · intro key w field hw hfield
    simp only [readResponse, readBranch, OrderedDict.get?_set, OrderedDict.get?_empty]
      at hw hfield
    split_ifs at hw hfield with hvalue haddress
    · obtain rfl := Option.some.inj hfield
      trivial
    · obtain rfl := Option.some.inj hw
      obtain rfl := Option.some.inj hfield
      exact ⟨_, rfl⟩

theorem covers_readResponse_iff (v : Value) :
    readBranch.Covers (ν := Value) namedTypes (readResponse v) ↔
      namedTypes.accepts "int | str" v := by
  have hvalue : (readResponse v).get? "value" = some v := rfl
  constructor
  · intro h
    exact h "value" v _ hvalue rfl
  · intro h key w type hw htype
    simp only [readBranch, OrderedDict.get?_set, OrderedDict.get?_empty] at htype
    split_ifs at htype with hkey
    subst hkey
    obtain rfl := Option.some.inj (hvalue.symm.trans hw)
    obtain rfl := Option.some.inj htype
    exact h

/-- A number passes the check of the read, alone or beside the picture; a list does not. -/
theorem responses_accepted_read :
    (∃ u, flattenUnion namedTypes "Output" branchContracts = .ok u ∧
      u.Accepts namedTypes (readResponse (.int 5)) ∧
      ¬ u.Accepts namedTypes (readResponse (.list [.int 5]))) ∧
    ∃ c, deriveOutputContract namedTypes "ReadOutput" readBranch false = .ok c ∧
      c.Accepts namedTypes (readResponse (.int 5)) := by
  have hnumber : namedTypes.accepts "int | str" (.int 5) := .inl ⟨5, rfl⟩
  have hlist : ¬ namedTypes.accepts "int | str" (.list [.int 5]) := by
    rintro (⟨_, h⟩ | ⟨_, h⟩) <;> cases h
  obtain ⟨-, hmerged, hsingle⟩ :=
    @responses_accepted String Value namedTypes _ "Output" branchContracts
  obtain ⟨u, hu⟩ : ∃ u, flattenUnion namedTypes "Output" branchContracts = .ok u := ⟨_, rfl⟩
  have hiff (v : Value) := hmerged u hu "ReadOutput" readBranch _ List.mem_cons_self rfl _
    (returns_readResponse v)
  refine ⟨⟨u, hu, (hiff _).mpr ((covers_readResponse_iff _).mpr hnumber), fun h => ?_⟩, _, rfl,
    (hsingle "ReadOutput" readBranch _ rfl _ (returns_readResponse _)).mpr
      ⟨(covers_readResponse_iff _).mpr hnumber, fun key hkey => (nomatch hkey)⟩⟩
  exact hlist ((covers_readResponse_iff _).mp ((hiff _).mp h))

def addressContract (name type : String) : Contract String :=
  ⟨name, OrderedDict.empty.set "address" ⟨type, none⟩, false⟩

/-- Two branches of a tool with the field `address`, once a text and once a number. -/
example :
    (flattenUnion namedTypes "BreakpointOutput" [addressContract "BreakpointResponseOut" "str",
      addressContract "TraceKeys" "int"]).isOk = false ∧
    (flattenUnion namedTypes "BreakpointOutput" [addressContract "BreakpointResponseOut" "str",
      addressContract "TraceKeys" "str"]).isOk = true := by
  decide

end Output
