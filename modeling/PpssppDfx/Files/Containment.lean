import Mathlib.Data.List.DropRight
import PpssppDfx.Python.Value
import PpssppDfx.Semantics.Realpath

/-!
# Paths of callers

Four operations take a path from a caller or a manifest and open it: a tool writes or reads a file
of its output directory, a log is analysed, a game is started, a script is loaded. Each resolves
the path and refuses it if the result is outside of a tree. The file system may hold links, also
inside of that tree.

Paths are those of a POSIX system. `expanduser` and `is_file` are parameters.

## Main definitions

* `Files.PurePath` — a path as `pathlib` reads it
* `Files.Machine.resolveOutputPath`, `Files.Machine.resolveLogPath`,
  `Files.Machine.validateIsoPath`, `Files.Machine.normalizedPath`

## Main results

* `Files.Machine.accepted_stay_inside` — what is opened under a path that was let through is in its
  tree
-/

set_option autoImplicit false

namespace Files

open Python Semantics

abbrev Name := List Char

/-- The names of a place, from the root of the file system. -/
abbrev Place := List Name

/-- A path of `pathlib`: its root and its parts. -/
structure PurePath where
  root : List Char
  parts : List Name
  deriving DecidableEq

/-- The root of a path; two slashes are a root of their own. -/
def rootOf : List Char → List Char
  | '/' :: '/' :: '/' :: _ => ['/']
  | '/' :: '/' :: _ => ['/', '/']
  | '/' :: _ => ['/']
  | _ => []

/-- `Path(text)`. -/
def PurePath.parse (text : List Char) : PurePath where
  root := rootOf text
  parts := (text.splitOn '/').filter fun part => part ≠ [] ∧ part ≠ ['.']

namespace PurePath

variable (p : PurePath)

def isAbsolute : Bool := p.root ≠ []

/-- `path.name`. -/
def name : Name := p.parts.getLast?.getD []

/-- `str(path)`. -/
def text : List Char :=
  if p.root = [] ∧ p.parts = [] then ['.'] else p.root ++ ['/'].intercalate p.parts

/-- `path.suffix`: from the last dot on, if there is something on both of its sides. -/
def suffix : Name :=
  let tail := p.name.rtakeWhile (· ≠ '.')
  if tail ≠ [] ∧ tail.length + 1 < p.name.length then '.' :: tail else []

/-- The way of a path. -/
def route : Route Name where
  absolute := p.isAbsolute
  steps := p.parts.map fun part => if part = ['.', '.'] then .up else .down part

end PurePath

/-- The text of a place. -/
def placeText (place : Place) : String := String.ofList ('/' :: ['/'].intercalate place)

inductive PathError where
  | argsInvalid (message : String)
  | isoNotFound (message : String)
  | manifestError (message : String)
  | runtimeError (message : String)

/-- The links of the file system, and the working directory, which `os.getcwd` names without any. -/
structure Machine where
  tree : LinkTree Name
  cwd : Place
  cwd_canonical : Canonical tree.lookup cwd

/-- The directories that the server is configured with. -/
structure Directories where
  projectRoot : Place
  configDir : Place

/-- `output_dir()`. -/
def Directories.outputDir (d : Directories) : Place :=
  d.projectRoot ++ [".ppsspp-dfx".toList, "output".toList]

namespace Machine

variable (m : Machine) (d : Directories)

/-- `path.resolve()`. -/
def resolve (r : Route Name) : Place := realpath m.tree m.cwd r

/-- The way of a place. -/
def wayTo (place : Place) : Route Name := ⟨true, downs place⟩

/-- The directory that a tool may write to. -/
def outputRoot (subdir : Name) : Place := m.resolve (wayTo (d.outputDir ++ [subdir]))

/-- `resolve_output_path`. -/
def resolveOutputPath (subdir filename : Name) : Except PathError Place :=
  if filename = [] ∨ (PurePath.parse filename).name ≠ filename then
    .error (.argsInvalid ("filename must be a bare file name without directory parts: " ++
      strRepr (String.ofList filename)))
  else
    let root := m.outputRoot d subdir
    let path := m.resolve ⟨true, downs root ++ (PurePath.parse filename).route.steps⟩
    if root <+: path then .ok path
    else .error (.argsInvalid ("filename " ++ strRepr (String.ofList filename) ++
      " resolves outside the output directory"))

/-- `_log_allowed_roots()`, which are resolved when they are first asked for. -/
def logAllowedRoots : List Place :=
  [m.resolve (wayTo d.outputDir), m.resolve (wayTo d.configDir.dropLast)]

/-- `_resolve_log_path`. -/
def resolveLogPath (roots : List Place) (expanduser : PurePath → Option PurePath)
    (logPath : List Char) : Except PathError Place :=
  match expanduser (.parse logPath) with
  | none => .error (.runtimeError "Could not determine home directory.")
  | some path =>
    let resolved := m.resolve path.route
    if roots.any fun root => root.isPrefixOf resolved then .ok resolved
    else .error (.argsInvalid ("log_path is outside the allowed .ppsspp-dfx tree — pass a path " ++
      "under the server-managed .ppsspp-dfx directory (see tool description); got: " ++
      strRepr (String.ofList logPath)))

/-- A path of another host; the device namespaces are not. -/
def isUnc (raw : List Char) : Bool :=
  let slash := Char.ofNat 92
  ([slash, slash].isPrefixOf raw && !([slash, slash, '?', slash].isPrefixOf raw ||
    [slash, slash, '.', slash].isPrefixOf raw)) || ['/', '/'].isPrefixOf raw

/-- `_validate_iso_path`; the text of the environment variable is stripped. -/
def validateIsoPath (isoRoot : List Char) (isFile : Place → Bool) (isoPath : List Char) :
    Except PathError Place :=
  let path := PurePath.parse isoPath
  if isUnc path.text then
    .error (.isoNotFound ("ISO path must be a local file, not a UNC/SMB path (resolving it " ++
      "would send this account's SMB credentials to a remote host): " ++ String.ofList path.text))
  else
    let resolved := m.resolve path.route
    let rootPath := m.resolve (PurePath.parse isoRoot).route
    if isoRoot ≠ [] ∧ ¬ rootPath <+: resolved then
      .error (.isoNotFound ("ISO path " ++ placeText resolved ++
        " is outside PPSSPP_DFX_ISO_ROOT (" ++ placeText rootPath ++ ")"))
    else if isFile resolved then .ok resolved
    else .error (.isoNotFound ("ISO file not found: " ++ placeText resolved))

/-- `ScriptEntry.normalized_path`; the path that is returned is not resolved. -/
def normalizedPath (allowAbsScript : Bool) (path : List Char) : Except PathError (Route Name) :=
  let p := PurePath.parse path
  if p.isAbsolute then
    if ['.', '.'] ∈ p.parts then
      .error (.manifestError ("script path must not contain '..': " ++ String.ofList path))
    else if p.suffix ≠ ".py".toList then
      .error (.manifestError ("script path must point at a .py file: " ++ String.ofList path))
    else if ¬ allowAbsScript then
      .error (.manifestError ("absolute script path requires PPSSPP_DFX_ALLOW_ABS_SCRIPT=1: " ++
        String.ofList path ++ " — manifest paths must be project-root-relative so a tampered " ++
        "manifest cannot execute arbitrary files outside the project; set the env var only for " ++
        "trusted fixtures / workspace-rewired dev scripts"))
    else .ok p.route
  else
    let resolved : Route Name := ⟨true, downs d.projectRoot ++ p.route.steps⟩
    if ['.', '.'] ∈ p.parts ∨ ¬ m.resolve (wayTo d.projectRoot) <+: m.resolve resolved then
      .error (.manifestError ("script path escapes project root: " ++ String.ofList path))
    else .ok resolved

/-! ## What is opened -/

/-- What is opened under a path is in a tree, however many links there are on the way. -/
def OpensIn (r : Route Name) (root : Place) : Prop :=
  ∀ n place, Walk m.tree.lookup n (r.start m.cwd) r.steps place → root <+: place

/-- What is opened under a place is that place. -/
def OpensItself (place : Place) : Prop :=
  ∀ n place', Walk m.tree.lookup n [] (downs place) place' → place' = place

variable {m} {d}

theorem opensItself_resolve (r : Route Name) : m.OpensItself (m.resolve r) :=
  fun _ _ h => eq_realpath_of_walk m.cwd_canonical h

/-- A path whose result is in a tree is opened there. -/
theorem opensIn_of_resolve {r : Route Name} {root : Place} (h : root <+: m.resolve r) :
    m.OpensIn r root := by
  intro n place hwalk
  rwa [resolve, realpath_eq_of_walk m.cwd_canonical hwalk] at h

theorem resolveOutputPath_spec {subdir filename : Name} {path : Place}
    (h : m.resolveOutputPath d subdir filename = .ok path) :
    m.OpensItself path ∧ m.outputRoot d subdir <+: path := by
  rw [resolveOutputPath] at h
  split at h
  · cases h
  · dsimp only at h
    split at h
    · rename_i hinside
      cases h
      exact ⟨opensItself_resolve _, hinside⟩
    · cases h

theorem resolveLogPath_spec {roots : List Place} {expanduser : PurePath → Option PurePath}
    {logPath : List Char} {path : Place}
    (h : m.resolveLogPath roots expanduser logPath = .ok path) :
    m.OpensItself path ∧ ∃ root ∈ roots, root <+: path := by
  rw [resolveLogPath] at h
  split at h
  · cases h
  · dsimp only at h
    split at h
    · rename_i hinside
      cases h
      obtain ⟨root, hroot, hprefix⟩ := List.any_eq_true.mp hinside
      exact ⟨opensItself_resolve _, root, hroot, List.isPrefixOf_iff_prefix.mp hprefix⟩
    · cases h

theorem validateIsoPath_spec {isoRoot isoPath : List Char} {isFile : Place → Bool} {path : Place}
    (h : m.validateIsoPath isoRoot isFile isoPath = .ok path) :
    m.OpensItself path ∧ isFile path ∧
      (isoRoot ≠ [] → m.resolve (PurePath.parse isoRoot).route <+: path) := by
  rw [validateIsoPath] at h
  dsimp only at h
  split at h
  · cases h
  · split at h
    · cases h
    · rename_i hinside
      split at h
      · rename_i hfile
        cases h
        refine ⟨opensItself_resolve _, hfile, fun hroot => ?_⟩
        by_contra houtside
        exact hinside ⟨hroot, houtside⟩
      · cases h

/-- Without the opt-in, a script is one of the project. -/
theorem normalizedPath_spec {path : List Char} {r : Route Name}
    (h : m.normalizedPath d false path = .ok r) :
    m.OpensIn r (m.resolve (wayTo d.projectRoot)) := by
  rw [normalizedPath] at h
  dsimp only at h
  split at h
  · split at h
    · cases h
    · split at h
      · cases h
      · split at h
        · cases h
        · rename_i hallow
          exact absurd (by decide) hallow
  · split at h
    · cases h
    · rename_i hinside
      cases h
      refine opensIn_of_resolve ?_
      by_contra houtside
      exact hinside (Or.inr houtside)

/-- A plain file of an output directory is let through under its own name. -/
theorem resolveOutputPath_eq {subdir filename : Name}
    (hname : PurePath.parse filename = ⟨[], [filename]⟩) (hup : filename ≠ ['.', '.'])
    (hroot : Canonical m.tree.lookup (m.outputRoot d subdir))
    (hplain : m.tree.lookup (m.outputRoot d subdir ++ [filename]) = none) :
    m.resolveOutputPath d subdir filename = .ok (m.outputRoot d subdir ++ [filename]) := by
  have hresolve : m.resolve ⟨true, downs (m.outputRoot d subdir) ++
      (PurePath.parse filename).route.steps⟩ = m.outputRoot d subdir ++ [filename] := by
    have hwalk : Walk m.tree.lookup 0 (m.outputRoot d subdir) (PurePath.parse filename).route.steps
        (m.outputRoot d subdir ++ [filename]) := by
      rw [hname, PurePath.route, List.map_singleton, if_neg hup]
      exact .down hplain (.nil _)
    exact realpath_eq_of_walk m.cwd_canonical (hroot.walk_downs_append_iff.mpr hwalk)
  have hne : filename ≠ [] := by
    rintro rfl
    cases hname
  rw [resolveOutputPath, if_neg]
  · dsimp only
    rw [hresolve]
    exact if_pos (List.prefix_append _ _)
  · rw [hname]
    exact fun h => h.elim hne fun h => h rfl

/-- A path that is let through stays in its tree: what is opened under it is there, whatever links
the file system holds. Of the result of a resolution it is also the place itself that is opened. -/
theorem accepted_stay_inside (m₀ m : Machine) (d : Directories) :
    (∀ subdir filename path, m.resolveOutputPath d subdir filename = .ok path →
        m.OpensItself path ∧ m.outputRoot d subdir <+: path) ∧
      (∀ expanduser logPath path,
        m.resolveLogPath (m₀.logAllowedRoots d) expanduser logPath = .ok path →
          m.OpensItself path ∧ ∃ root ∈ m₀.logAllowedRoots d, root <+: path) ∧
      (∀ isoRoot isFile isoPath path, m.validateIsoPath isoRoot isFile isoPath = .ok path →
          m.OpensItself path ∧ isFile path ∧
            (isoRoot ≠ [] → m.resolve (PurePath.parse isoRoot).route <+: path)) ∧
      (∀ path r, m.normalizedPath d false path = .ok r →
        m.OpensIn r (m.resolve (wayTo d.projectRoot))) :=
  ⟨fun _ _ _ => resolveOutputPath_spec, fun _ _ _ => resolveLogPath_spec,
    fun _ _ _ _ => validateIsoPath_spec, fun _ _ => normalizedPath_spec⟩

end Machine

/-! ## A server -/

def srvDirectories : Directories where
  projectRoot := ["srv".toList]
  configDir := ["srv".toList, ".ppsspp-dfx".toList, "config".toList]

/-- Among the replays are a link to another replay, one to a file of the system and a loop. -/
def srvTree : LinkTree Name where
  entries :=
    let replay (name : String) : Place :=
      srvDirectories.outputDir ++ ["replays".toList, name.toList]
    [(replay "latest.ppr", ⟨false, [.down "run.ppr".toList]⟩),
      (replay "secret.ppr", ⟨true, downs ["etc".toList, "passwd".toList]⟩),
      (replay "loop.ppr", ⟨false, [.down "loop.ppr".toList]⟩)]

def srvMachine : Machine where
  tree := srvTree
  cwd := ["srv".toList]
  cwd_canonical := canonical_nil.concat rfl

def srvReplay (name : String) : Place := srvDirectories.outputDir ++ ["replays".toList, name.toList]

theorem accepted_stay_inside_srv :
    srvMachine.resolveOutputPath srvDirectories "replays".toList "latest.ppr".toList =
        .ok (srvReplay "run.ppr") ∧
      srvMachine.OpensItself (srvReplay "run.ppr") :=
  have hlatest : srvMachine.resolveOutputPath srvDirectories "replays".toList
      "latest.ppr".toList = .ok (srvReplay "run.ppr") := rfl
  ⟨hlatest, ((Machine.accepted_stay_inside srvMachine srvMachine srvDirectories).1 _ _ _ hlatest).1⟩

/-- A bare name may lead out of the tree: it is the second check that refuses it. -/
example : (PurePath.parse "..".toList).name = "..".toList ∧
    srvMachine.resolveOutputPath srvDirectories "replays".toList "..".toList =
      .error (.argsInvalid "filename '..' resolves outside the output directory") ∧
    srvMachine.resolveOutputPath srvDirectories "replays".toList "secret.ppr".toList =
      .error (.argsInvalid "filename 'secret.ppr' resolves outside the output directory") := by
  refine ⟨rfl, rfl, rfl⟩

end Files
