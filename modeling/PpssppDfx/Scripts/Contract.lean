import Mathlib.Logic.Function.Basic
import PpssppDfx.Scripts.Manifest

/-!
# The contract of a script

Before a script is used, its file is imported and the names of its entry are looked up in the
module: an Input model, an Output model and an async entry function. A module is cached under
its path, with a stamp of the contents of the file.

A tool that exposes a script has a wrapper, whose signature is read off the Input model and
whose return annotation is the envelope around the Output model.

## Main definitions

* `Scripts.Project` — what the import of a script reads
* `Scripts.loadScriptModule`, `Scripts.validateScriptContract` — the checks of the source
* `Scripts.contractOf` — the contract of an entry, whatever is cached
* `Scripts.buildExposedWrapper` — the wrapper of an exposed script

## Main results

* `Scripts.validateScriptContract_eq` — a cache that is true to the files changes no check
-/

set_option autoImplicit false

namespace Scripts

open Python Function

/-- What a field of a model falls back to. A factory may raise, and `none` is
`inspect.Parameter.empty`. -/
inductive FieldDefault where
  | required
  | value (v : Value)
  | factory (result : Except String (Option Value))

structure FieldInfo where
  annotationText : Option String
  description : Option String
  default : FieldDefault

/-- A subclass of `pydantic.BaseModel`. -/
structure ModelClass where
  name : String
  fields : List (String × FieldInfo)

/-- What an attribute of a module may be, as far as the checks tell. -/
inductive Attribute where
  | model (cls : ModelClass)
  | function (isCoroutine : Bool)
  | callable
  | value

/-- `callable(fn)`; a class is callable. -/
def Attribute.isCallable : Attribute → Bool
  | .value => false
  | _ => true

/-- `inspect.iscoroutinefunction(fn)`. -/
def Attribute.isCoroutineFunction : Attribute → Bool
  | .function isCoroutine => isCoroutine
  | _ => false

/-- `getattr(module, name, None)`. -/
abbrev ScriptModule := String → Option Attribute

/-- The files of a project and the import of a script: running the text of a file gives a
module or an error. -/
structure Project where
  normalizedPath : String → Except String String
  files : String → Option (Except String String)
  contentStamp : String → String
  hasLoader : String → Bool
  execModule : String → Except String ScriptModule

/-- `_module_cache`: the stamp and the module under each path. -/
abbrev ModuleCache := String → Option (String × ScriptModule)

inductive ContractError where
  | pathRefused (reason : String)
  | fileNotFound
  | unreadable (reason : String)
  | noLoader
  | importFailed (reason : String)
  | missingEntry
  | entryNotCallable
  | entryNotAsync
  | missingInputModel
  | missingOutputModel
  | inputNotModel
  | outputNotModel

/-- `cached is not None and cached[0] == stamp`. -/
def ModuleCache.get (cache : ModuleCache) (path stamp : String) : Option ScriptModule :=
  match cache path with
  | some (cachedStamp, m) => if cachedStamp = stamp then some m else none
  | none => none

/-- The part of `_load_script_module` that runs the file. -/
def importModule (p : Project) (path source : String) (e : ScriptEntry) :
    Except ContractError ScriptModule :=
  if !p.hasLoader path then .error .noLoader
  else match p.execModule source with
    | .error reason => .error (.importFailed reason)
    | .ok m =>
      match m e.entry with
      | none => .error .missingEntry
      | some fn => if fn.isCallable then .ok m else .error .entryNotCallable

def loadScriptModule (p : Project) (cache : ModuleCache) (e : ScriptEntry) :
    ModuleCache × Except ContractError ScriptModule :=
  match p.normalizedPath e.path with
  | .error reason => (cache, .error (.pathRefused reason))
  | .ok path =>
    match p.files path with
    | none => (cache, .error .fileNotFound)
    | some (.error reason) => (cache, .error (.unreadable reason))
    | some (.ok source) =>
      match cache.get path (p.contentStamp source) with
      -- a cached module is returned before the entry function is looked up
      | some m => (cache, .ok m)
      | none =>
        match importModule p path source e with
        | .error reason => (cache, .error reason)
        | .ok m => (update cache path (some (p.contentStamp source, m)), .ok m)

def getInputOutputModels (m : ScriptModule) (e : ScriptEntry) :
    Except ContractError (ModelClass × ModelClass) :=
  match m e.inputModel, m e.outputModel with
  | none, _ => .error .missingInputModel
  | some _, none => .error .missingOutputModel
  | some (.model input), some (.model output) => .ok (input, output)
  | some (.model _), some _ => .error .outputNotModel
  | some _, some _ => .error .inputNotModel

structure Contract where
  module : ScriptModule
  inputCls : ModelClass
  outputCls : ModelClass
  fn : Attribute

/-- The checks of `validate_script_contract` on a module. -/
def checkModule (m : ScriptModule) (e : ScriptEntry) : Except ContractError Contract :=
  match getInputOutputModels m e with
  | .error reason => .error reason
  | .ok (input, output) =>
    match m e.entry with
    | none => .error .missingEntry
    | some fn =>
      -- the module may have been cached for another entry, so this is asked again
      if !fn.isCallable then .error .missingEntry
      else if !fn.isCoroutineFunction then .error .entryNotAsync
      else .ok ⟨m, input, output, fn⟩

def validateScriptContract (p : Project) (cache : ModuleCache) (e : ScriptEntry) :
    ModuleCache × Except ContractError Contract :=
  ((loadScriptModule p cache e).1,
    match (loadScriptModule p cache e).2 with
    | .error reason => .error reason
    | .ok m => checkModule m e)

section Cache

/-- Nothing is cached. -/
def ModuleCache.clear : ModuleCache := fun _ => none

/-- Every module cached for the present contents of a file is what running the file gives. -/
def ModuleCache.Sound (p : Project) (cache : ModuleCache) : Prop :=
  ∀ path source m, p.files path = some (.ok source) →
    cache.get path (p.contentStamp source) = some m →
      p.hasLoader path = true ∧ p.execModule source = .ok m

/-- The module in the file of an entry. -/
def moduleOf (p : Project) (e : ScriptEntry) : Option ScriptModule :=
  match p.normalizedPath e.path with
  | .error _ => none
  | .ok path =>
    match p.files path with
    | some (.ok source) => if p.hasLoader path then (p.execModule source).toOption else none
    | _ => none

/-- The contract of an entry: that of the module in its file, if there is one. -/
def contractOf (p : Project) (e : ScriptEntry) : Option Contract :=
  (moduleOf p e).bind fun m => (checkModule m e).toOption

variable {p : Project} {cache : ModuleCache} {e : ScriptEntry} {path source stamp : String}
  {m : ScriptModule}

theorem ModuleCache.sound_clear (p : Project) : ModuleCache.clear.Sound p := by
  intro path source m _ hget
  cases hget

theorem ModuleCache.get_update_self :
    ModuleCache.get (update cache path (some (stamp, m))) path stamp = some m := by
  simp [ModuleCache.get]

theorem ModuleCache.get_update_of_ne {other : String} (h : other ≠ path) {s : String} :
    ModuleCache.get (update cache path (some (stamp, m))) other s = cache.get other s := by
  simp [ModuleCache.get, update_of_ne h]

/-- A module that lacks the entry function has no contract. -/
theorem checkModule_of_not_callable (h : ∀ fn, m e.entry = some fn → fn.isCallable = false) :
    (checkModule m e).toOption = none := by
  rw [checkModule]
  cases getInputOutputModels m e with
  | error => rfl
  | ok models =>
    cases hfn : m e.entry with
    | none => rfl
    | some fn => simp [h fn hfn, Except.toOption]

/-- An import that succeeds gives the module of the file, and one that fails leaves the entry
without a contract. -/
theorem importModule_eq (p : Project) (path source : String) (e : ScriptEntry) :
    (∃ m, importModule p path source e = .ok m ∧ p.hasLoader path = true ∧
      p.execModule source = .ok m) ∨
    ((∃ reason, importModule p path source e = .error reason) ∧
      ∀ m, p.hasLoader path = true → p.execModule source = .ok m →
        (checkModule m e).toOption = none) := by
  rw [importModule]
  -- an import fails without a loader, in the file, or at the entry function
  by_cases hloader : p.hasLoader path = true
  · rw [if_neg (by simp [hloader])]
    cases hexec : p.execModule source with
    | error reason => exact .inr ⟨⟨_, rfl⟩, fun _ _ h => by cases h⟩
    | ok m =>
      cases hfn : m e.entry with
      | none =>
        refine .inr ⟨⟨.missingEntry, by simp [hfn]⟩, fun m' _ h => ?_⟩
        cases h
        exact checkModule_of_not_callable fun fn h => by simp [hfn] at h
      | some fn =>
        by_cases hcallable : fn.isCallable = true
        · exact .inl ⟨m, by simp [hfn, hcallable], hloader, rfl⟩
        · refine .inr ⟨⟨.entryNotCallable, by simp [hfn, hcallable]⟩, fun m' _ h => ?_⟩
          cases h
          apply checkModule_of_not_callable
          intro fn' hfn'
          rw [hfn] at hfn'
          cases hfn'
          simpa using hcallable
  · rw [if_pos (by simp [hloader])]
    exact .inr ⟨⟨_, rfl⟩, fun _ h => absurd h hloader⟩

theorem contractOf_of_source (hpath : p.normalizedPath e.path = .ok path)
    (hfile : p.files path = some (.ok source)) (hloader : p.hasLoader path = true)
    (hexec : p.execModule source = .ok m) : contractOf p e = (checkModule m e).toOption := by
  simp only [contractOf, moduleOf, hpath, hfile, if_pos hloader, hexec]
  rfl

/-- A module that the file of an entry holds may be cached. -/
theorem ModuleCache.Sound.update (hsound : cache.Sound p)
    (hfile : p.files path = some (.ok source)) (hloader : p.hasLoader path = true)
    (hexec : p.execModule source = .ok m) :
    ModuleCache.Sound p (Function.update cache path (some (p.contentStamp source, m))) := by
  intro other text m' hother hget
  -- under the path itself the stamp of the contents is the one just stored
  by_cases hpath : other = path
  · subst hpath
    rw [hfile] at hother
    cases hother
    rw [ModuleCache.get_update_self] at hget
    cases hget
    exact ⟨hloader, hexec⟩
  · rw [ModuleCache.get_update_of_ne hpath] at hget
    exact hsound other text m' hother hget

/-- Loading keeps the cache true to the files, and what it loads has the contract of the
entry. -/
theorem loadScriptModule_sound (hsound : cache.Sound p) :
    (loadScriptModule p cache e).1.Sound p ∧
      ((loadScriptModule p cache e).2.toOption.bind fun m => (checkModule m e).toOption) =
        contractOf p e := by
  cases hpath : p.normalizedPath e.path with
  | error reason => exact ⟨by simpa [loadScriptModule, hpath] using hsound,
      by simp [loadScriptModule, contractOf, moduleOf, hpath, Except.toOption]⟩
  | ok path =>
    rcases hfile : p.files path with _ | _ | source
    · exact ⟨by simpa [loadScriptModule, hpath, hfile] using hsound,
        by simp [loadScriptModule, contractOf, moduleOf, hpath, hfile, Except.toOption]⟩
    · exact ⟨by simpa [loadScriptModule, hpath, hfile] using hsound,
        by simp [loadScriptModule, contractOf, moduleOf, hpath, hfile, Except.toOption]⟩
    · simp only [loadScriptModule, hpath, hfile]
      cases hget : cache.get path (p.contentStamp source) with
      -- the stamp matches, so the cached module is what running the file gives
      | some m =>
        obtain ⟨hloader, hexec⟩ := hsound path source m hfile hget
        exact ⟨hsound, (contractOf_of_source hpath hfile hloader hexec).symm⟩
      | none =>
        rcases importModule_eq p path source e with ⟨m, hok, hloader, hexec⟩ |
          ⟨⟨reason, herror⟩, hnone⟩
        · rw [hok]
          exact ⟨hsound.update hfile hloader hexec,
            (contractOf_of_source hpath hfile hloader hexec).symm⟩
        · -- nothing is cached, and no module in the file has a contract for this entry
          rw [herror]
          refine ⟨hsound, ?_⟩
          by_cases hloader : p.hasLoader path = true
          · cases hexec : p.execModule source with
            | error => simp [contractOf, moduleOf, hpath, hfile, hexec, Except.toOption]
            | ok m =>
              rw [contractOf_of_source hpath hfile hloader hexec, hnone m hloader hexec]
              rfl
          · simp [contractOf, moduleOf, hpath, hfile, hloader, Except.toOption]

theorem validateScriptContract_sound (hsound : cache.Sound p) :
    (validateScriptContract p cache e).1.Sound p :=
  (loadScriptModule_sound hsound).1

/-- A cache that is true to the files decides no check: an entry passes exactly when it has a
contract. -/
theorem validateScriptContract_eq (hsound : cache.Sound p) :
    (validateScriptContract p cache e).2.toOption = contractOf p e := by
  rw [← (loadScriptModule_sound hsound).2, validateScriptContract]
  cases (loadScriptModule p cache e).2 <;> rfl

end Cache

section Wrapper

/-- A keyword-only parameter. -/
structure Parameter where
  name : String
  annotationText : String
  description : Option String
  default : Option Value

/-- The parameter of one field of an Input model. -/
def parameterOf (field : String × FieldInfo) : Except String Parameter :=
  let annotationText := field.2.annotationText.getD "Any"
  let description := field.2.description.filter (· ≠ "")
  match field.2.default with
  | .required => .ok ⟨field.1, annotationText, description, none⟩
  | .value v => .ok ⟨field.1, annotationText, description, some v⟩
  | .factory result => result.map fun v => ⟨field.1, annotationText, description, v⟩

/-- The signature of a wrapper, one parameter for each field of the Input model. -/
def parameters (input : ModelClass) : Except String (List Parameter) :=
  input.fields.mapM parameterOf

/-- The return annotation: `name`, `output` and `output_model`. -/
structure EnvelopeContract where
  typeName : String
  output : ModelClass

def envelopeContract (name : String) (output : ModelClass) : EnvelopeContract :=
  ⟨name ++ "OutputContract", output⟩

/-- A wrapper with the entry that it captured. -/
structure ExposedWrapper where
  entry : ScriptEntry
  parameters : List Parameter
  returnContract : EnvelopeContract
  doc : String

def wrapperDoc (e : ScriptEntry) : String :=
  "Exposed diagnostic script: " ++ e.description ++ " (category=" ++ e.category.text ++
    ", requires_ppsspp=" ++ (Value.bool e.requiresPpsspp).text ++ "). Input model: " ++
    e.inputModel ++ ". Output model: " ++ e.outputModel ++ "."

def buildExposedWrapper (e : ScriptEntry) (input output : ModelClass) :
    Except String ExposedWrapper :=
  (parameters input).map fun params => ⟨e, params, envelopeContract e.name output, wrapperDoc e⟩

/-- A wrapper can be built exactly when the fallbacks of the Input model can be computed. -/
theorem buildExposedWrapper_eq_ok_iff {e : ScriptEntry} {input output : ModelClass}
    {w : ExposedWrapper} :
    buildExposedWrapper e input output = .ok w ↔
      w.entry = e ∧ parameters input = .ok w.parameters ∧
        w.returnContract = envelopeContract e.name output ∧ w.doc = wrapperDoc e := by
  obtain ⟨entry, params, returns, doc⟩ := w
  rw [buildExposedWrapper]
  cases parameters input with
  | error reason => simp [Except.map]
  | ok params' =>
    simp only [Except.map, Except.ok.injEq, ExposedWrapper.mk.injEq]
    constructor
    · rintro ⟨rfl, rfl, rfl, rfl⟩
      exact ⟨rfl, rfl, rfl, rfl⟩
    · rintro ⟨rfl, rfl, rfl, rfl⟩
      exact ⟨rfl, rfl, rfl, rfl⟩

end Wrapper

end Scripts
