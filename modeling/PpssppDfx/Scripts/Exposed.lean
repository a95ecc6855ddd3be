import Mathlib.Data.List.AList
import Mathlib.Data.List.Sort
import PpssppDfx.Scripts.Contract
import PpssppDfx.Semantics.Machine
import PpssppDfx.Semantics.Pass

/-!
# Exposed scripts

An exposed script is also a tool, `ppsspp_script_<name>`. The server keeps book of the scripts
that have a tool, and after each load of the manifest it brings its tools in line: scripts that
are not booked get a tool, and booked scripts that are no longer to be exposed lose it.

What the SDK makes of a wrapper (`Tool.from_function`) is a parameter: a schema, or an error.
The tools of the server that are not scripts bear other names and are left out.

## Main definitions

* `Scripts.Server` — the tools, the book and the cached modules
* `Scripts.syncExposedTools` — the reconciliation, with its report
* `Scripts.exposure` — a server that loads one manifest after the other
-/

set_option autoImplicit false

namespace Scripts

open Semantics

variable {Schema : Type*}

/-- A tool as the SDK keeps it. -/
structure Tool (Schema : Type*) where
  description : String
  wrapper : ExposedWrapper
  schema : Schema

structure Server (Schema : Type*) where
  exposedRegistry : AList fun _ : String => String
  tools : AList fun _ : String => Tool Schema
  moduleCache : ModuleCache

/-- A server that has loaded no manifest. -/
def Server.start : Server Schema := ⟨∅, ∅, .clear⟩

def toolName (name : String) : String := "ppsspp_script_" ++ name

theorem toolName_inj {name other : String} : toolName name = toolName other ↔ name = other :=
  String.append_right_inj _

def toolDescription (e : ScriptEntry) : String :=
  "Diagnostic script '" ++ e.name ++ "': " ++ e.description ++
    " (category=" ++ e.category.text ++ ")."

/-- `mcp.add_tool`: a name that is taken keeps its tool. -/
def addTool (fromFunction : ExposedWrapper → Except String Schema)
    (tools : AList fun _ : String => Tool Schema) (w : ExposedWrapper)
    (name description : String) : Except String (AList fun _ : String => Tool Schema) :=
  match fromFunction w with
  | .error reason => .error reason
  | .ok schema =>
    if name ∈ tools then .ok tools else .ok (tools.insert name ⟨description, w, schema⟩)

/-- What follows the check of the contract in `_register_exposed_entry`. Nothing in it awaits, and
only the construction of the wrapper can raise. -/
def bookChecked (fromFunction : ExposedWrapper → Except String Schema) (s : Server Schema)
    (e : ScriptEntry) (checked : Except ContractError Contract) :
    Server Schema × Except String Bool :=
  match checked with
  -- an entry that fails a check is not booked, and the loop goes on
  | .error _ => (s, .ok false)
  | .ok c =>
    match buildExposedWrapper e c.inputCls c.outputCls with
    | .error reason => (s, .error reason)
    | .ok w =>
      -- another sync may have registered the script during the check
      if e.name ∈ s.exposedRegistry then (s, .ok true)
      else
        match addTool fromFunction s.tools w (toolName e.name) (toolDescription e) with
        | .error _ => (s, .ok false)
        | .ok tools =>
          ({ s with
              tools := tools
              exposedRegistry := s.exposedRegistry.insert e.name (toolName e.name) },
            .ok true)

/-- `_register_exposed_entry`. -/
def registerExposedEntry (fromFunction : ExposedWrapper → Except String Schema) (p : Project)
    (s : Server Schema) (e : ScriptEntry) : Server Schema × Except String Bool :=
  if e.status = .skeleton then (s, .ok false)
  else if e.name ∈ s.exposedRegistry then (s, .ok true)
  else
    let checked := validateScriptContract p s.moduleCache e
    bookChecked fromFunction { s with moduleCache := checked.1 } e checked.2

/-- `_unregister_exposed_tool`. -/
def unregisterExposedTool (s : Server Schema) (name : String) : Server Schema × Bool :=
  match s.exposedRegistry.lookup name with
  | none => (s, false)
  | some tool =>
    ({ s with
        exposedRegistry := s.exposedRegistry.erase name
        tools := s.tools.erase tool },
      decide (tool ∈ s.tools))

/-- What the loop over the desired scripts does with one of them. -/
inductive Outcome where
  | kept
  | added
  | failed
  | unlisted
  deriving DecidableEq

/-- The line of the report on a script that the loop has tried to register. -/
def roundOutcome (s : Server Schema) (e : ScriptEntry) :
    Except String Bool → Except String (String × Outcome)
  | .error reason => .error reason
  | .ok true => .ok (e.name, if e.name ∈ s.exposedRegistry then .added else .unlisted)
  | .ok false => .ok (e.name, if e.status = .skeleton then .unlisted else .failed)

/-- One round of the loop over the desired scripts. -/
def syncEntry (fromFunction : ExposedWrapper → Except String Schema) (p : Project)
    (current : List String) (s : Server Schema) (e : ScriptEntry) :
    Server Schema × Except String (String × Outcome) :=
  -- a booked script is skipped by its name; neither its entry nor its file is looked at
  if e.name ∈ current then (s, .ok (e.name, .kept))
  else
    let registered := registerExposedEntry fromFunction p s e
    (registered.1, roundOutcome registered.1 e registered.2)

/-- One round of the loop over the scripts that are no longer desired. -/
def withdraw (s : Server Schema) (name : String) : Server Schema × Except String Unit :=
  ((unregisterExposedTool s name).1, .ok ())

structure Report where
  declared : ℕ
  registered : ℕ
  added : List String
  removed : List String
  skippedSkeleton : List String
  failed : List String
  restartRequired : Bool

/-- The entries that are to have a tool. -/
def ScriptManifest.desired (m : ScriptManifest) : List ScriptEntry :=
  m.listExposed.filter (·.status ≠ .skeleton)

/-- `sorted(current - set(desired))`. -/
def staleNames (current : List String) (m : ScriptManifest) : List String :=
  (current.filter (· ∉ m.desired.map ScriptEntry.name)).insertionSort (· ≤ ·)

/-- Every booked tool is there, and no removed one. -/
def reconciled (s : Server Schema) (removed : List String) : Bool :=
  s.exposedRegistry.entries.all (fun booked => decide (booked.2 ∈ s.tools)) &&
    !removed.any fun name => decide (toolName name ∈ s.tools)

/-- The names that the loop has put on a list of the report. -/
def listed (outcomes : List (String × Outcome)) (o : Outcome) : List String :=
  (outcomes.filter (·.2 = o)).map (·.1)

def syncExposedTools (fromFunction : ExposedWrapper → Except String Schema) (p : Project)
    (m : ScriptManifest) (s : Server Schema) : Server Schema × Except String Report :=
  let exposed := m.listExposed
  let current := s.exposedRegistry.keys
  -- what the first loop raises leaves the second one undone
  let registered := pass (syncEntry fromFunction p current) s m.desired
  match registered.2 with
  | .error reason => (registered.1, .error reason)
  | .ok outcomes =>
    let removed := staleNames current m
    let s' := (pass withdraw registered.1 removed).1
    (s', .ok
      { declared := exposed.length
        registered := s'.exposedRegistry.keys.length
        added := listed outcomes .added
        removed := removed
        skippedSkeleton := (exposed.filter (·.status = .skeleton)).map (·.name)
        failed := listed outcomes .failed
        restartRequired := !reconciled s' removed })

/-- `_clear_module_cache()`. -/
def Server.clearModuleCache (s : Server Schema) : Server Schema :=
  { s with moduleCache := .clear }

/-- A load of the manifest: with the entries in the file and the files of the scripts. -/
structure Reload where
  project : Project
  raw : List ScriptEntry

/-- `reload_scripts`, up to its answer. A start of the server is a load by a server without
tools. -/
def Server.reload (fromFunction : ExposedWrapper → Except String Schema) (s : Server Schema)
    (r : Reload) : Server Schema :=
  match load r.raw with
  | .error _ => s.clearModuleCache
  | .ok m => (syncExposedTools fromFunction r.project m s.clearModuleCache).1

/-- A server over all its loads. -/
def exposure (fromFunction : ExposedWrapper → Except String Schema) :
    Machine (Server Schema) Reload :=
  ⟨fun s r => some (s.reload fromFunction r)⟩

end Scripts
