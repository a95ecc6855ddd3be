import PpssppDfx.Memory.Address
import PpssppDfx.Semantics.BoundedTable

/-!
# The probe library of a session

A session has a table of named probes. It is seeded once with the probes of `addresses.yaml`;
probes that are registered come on top, and may take the name of a built-in one. A clear
spares the names that the configuration gives, which it reads anew each time.

## Main definitions

* `Probe.Registry` — probes by their names
* `Probe.seedFromYaml`, `Probe.builtinNames`, `Probe.clearProbes` — seeding and clearing
* `Probe.stateObserver` — one call of the tool, up to the reads of an observation
* `Probe.Restored` — a bulk clear leaves what a fresh start seeds

## Main results

* `lookup_run_of_builtin` — a built-in name has the probe that was last registered under it
* `lookup_after_bulkClear` — what a bulk clear leaves: the baseline, and under the built-in
  names what was registered
-/

set_option autoImplicit false

namespace Probe

open Python Semantics Memory

/-! ## Probes by name -/

/-- A `StateProbe`, as it is kept in the library. -/
structure RegisteredProbe where
  name : String
  address : ℤ
  size : ℤ
  description : String
  deriving DecidableEq

structure Registry where
  table : List (String × RegisteredProbe)
  unique : (table.map Prod.fst).Nodup

namespace Registry

def empty : Registry := ⟨[], List.nodup_nil⟩

def lookup (registry : Registry) (name : String) : Option RegisteredProbe :=
  registry.table.lookup name

/-- `registry[name] = probe`. -/
def put (registry : Registry) (probe : RegisteredProbe) : Registry :=
  ⟨putKey registry.table probe.name probe, nodup_putKey registry.unique⟩

/-- `registry.setdefault(name, probe)`. -/
def setDefault (registry : Registry) (probe : RegisteredProbe) : Registry :=
  if (registry.lookup probe.name).isSome then registry else registry.put probe

/-- Only the names that pass a test stay. -/
def keep (registry : Registry) (p : String → Bool) : Registry :=
  ⟨registry.table.filter fun entry => p entry.1,
    (List.filter_sublist.map Prod.fst).nodup registry.unique⟩

def remove (registry : Registry) (name : String) : Registry := registry.keep (· ≠ name)

variable {registry : Registry} {probe : RegisteredProbe} {name : String}

@[simp] theorem lookup_empty : empty.lookup name = none := rfl

theorem lookup_put : (registry.put probe).lookup name =
    if probe.name = name then some probe else registry.lookup name := by
  by_cases hname : probe.name = name
  · subst hname
    rw [if_pos rfl]
    exact lookup_putKey_self
  · rw [if_neg hname]
    exact lookup_putKey_of_ne (Ne.symm hname)

theorem lookup_setDefault : (registry.setDefault probe).lookup name =
    (registry.lookup name).or (if probe.name = name then some probe else none) := by
  unfold setDefault
  by_cases hname : probe.name = name
  · subst hname
    cases hold : registry.lookup probe.name with
    | none => rw [if_neg (by decide), lookup_put, if_pos rfl, if_pos rfl, Option.none_or]
    | some old => simp [hold]
  · rw [if_neg hname, Option.or_none]
    split
    · rfl
    · rw [lookup_put, if_neg hname]

theorem lookup_keep (p : String → Bool) : (registry.keep p).lookup name =
    if p name then registry.lookup name else none :=
  lookup_filter_key p

theorem lookup_remove_of_ne {key : String} (hne : name ≠ key) :
    (registry.remove key).lookup name = registry.lookup name := by
  rw [remove, lookup_keep, if_pos (decide_eq_true hne)]

end Registry

/-! ## Seeding -/

inductive IntError where
  /-- `TypeError` or `ValueError`. -/
  | invalid
  | overflow
  deriving DecidableEq

/-- What `addresses.yaml` parses to, and `int` of floats and of other values by their text. -/
structure Config where
  root : Dict
  foreign : String → Except IntError ℤ

/-- What a reading of the configuration comes to. -/
inductive Reading where
  | parsed
  /-- A file that cannot be opened or parsed counts as empty. -/
  | unreadable
  | raised
  deriving DecidableEq

/-- `config.addresses()`. -/
def Config.addresses (config : Config) : Reading → Option Dict
  | .parsed => some config.root
  | .unreadable => some []
  | .raised => none

/-- `int(value)`; a text is read in the way that is given. -/
def Config.int (config : Config) (ofText : String → Option ℤ) : Value → Except IntError ℤ
  | .int n => .ok n
  | .bool b => .ok (if b then 1 else 0)
  | .str s => match ofText s with
    | none => .error .invalid
    | some n => .ok n
  | .float _ text | .other _ text => config.foreign text
  | .none | .list _ | .dict _ => .error .invalid

def validSizes : List ℤ := [1, 2, 4]

/-- An entry of `state_probes`; `none` if it is skipped. -/
def seedEntry (config : Config) : Value × Value → Except IntError (Option RegisteredProbe)
  | (name, .dict spec) =>
    match Dict.get? spec "address" with
    | none | some .none => .ok none
    | some addr =>
      match config.int intLiteral addr with
      -- an address that is no number skips the entry, and a size that is none counts as 4
      | .error .invalid => .ok none
      | .error .overflow => .error .overflow
      | .ok address =>
        match config.int (fun s => intDecimal s.toList) ((Dict.get? spec "size").getD (.int 4)) with
        | .error .overflow => .error .overflow
        | .error .invalid =>
          .ok (some ⟨name.text, address, 4, ((Dict.get? spec "description").getD (.str "")).text⟩)
        | .ok size =>
          .ok (some ⟨name.text, address, if size ∈ validSizes then size else 4,
            ((Dict.get? spec "description").getD (.str "")).text⟩)
  | _ => .ok none

/-- The loop over `state_probes`; what raises leaves the entries so far. -/
def seedEntries (config : Config) : Registry → Dict → Registry × Option IntError
  | registry, [] => (registry, none)
  | registry, entry :: rest =>
    match seedEntry config entry with
    | .error e => (registry, some e)
    | .ok none => seedEntries config registry rest
    -- a probe that is registered already under the name wins
    | .ok (some probe) => seedEntries config (registry.setDefault probe) rest

/-- `_REGISTRY_BY_SESSION` and `_SEEDED_BY_SESSION`, for one session. -/
structure Library where
  registry : Registry
  seeded : Bool

/-- `_seed_from_yaml`, and what it raises. -/
def seedFromYaml (config : Config) (reading : Reading) (library : Library) :
    Library × Option IntError :=
  if library.seeded then (library, none)
  else match config.addresses reading with
    -- the next call tries again
    | none => (library, none)
    | some addrs =>
      match Dict.get? addrs "state_probes" with
      | some (.dict probes) =>
        match seedEntries config library.registry probes with
        | (registry, none) => (⟨registry, true⟩, none)
        | (registry, some e) => ({ library with registry := registry }, some e)
      -- no configured probes is a legitimate state
      | _ => ({ library with seeded := true }, none)

/-! ## Clearing -/

/-- The name of an entry whose specification is a mapping. -/
def builtinName : Value × Value → Option String
  | (name, .dict _) => some name.text
  | _ => none

/-- `_builtin_names`. -/
def builtinNames (config : Config) (reading : Reading) : List String :=
  match config.addresses reading with
  -- without the configuration no name is protected
  | none => []
  | some addrs =>
    match Dict.get? addrs "state_probes" with
    | some (.dict probes) => probes.filterMap builtinName
    | _ => []

/-- `name.strip()`. -/
def strip (name : String) : String := String.ofList (stripBlank name.toList)

/-- `_clear_probes`, with the names that it reads, and the number of probes removed. -/
def clearProbes (registry : Registry) (builtins : List String) : Option String → Registry × ℕ
  | some name =>
    if (registry.lookup (strip name)).isNone ∨ strip name ∈ builtins then (registry, 0)
    else (registry.remove (strip name), 1)
  | none =>
    -- the probe under a built-in name stays, whoever registered it
    let kept := registry.keep (· ∈ builtins)
    (kept, registry.table.length - kept.table.length)

/-! ## Calls -/

inductive Action where
  | register (name : String) (size : ℤ) (description : String)
  | list
  | observe (names : String) (samples : ℤ)
  | clear (name : String)

/-- A call, and what it reads of the configuration for the seeding and for the clear. -/
structure Request where
  action : Action
  address : String
  seeding : Reading
  clearing : Reading

inductive Answer where
  | failed (message : String)
  | raised (e : IntError)
  | registered (probe : RegisteredProbe) (count : ℕ)
  | probes (probes : List RegisteredProbe)
  /-- The probes that are to be read. -/
  | targets (probes : List RegisteredProbe)
  | cleared (count : ℕ)
  deriving DecidableEq

/-- The checks of `register`, and the probe. -/
def checkRegister (name : String) (address size : ℤ) (description : String) :
    Except String RegisteredProbe :=
  if name = "" then .error "name is required when action=register"
  else if address = 0 then
    .error ("address is required when action=register " ++
      "(address=0 is NULL and not a valid probe target)")
  else if size ∉ validSizes then .error ("size must be one of (1, 2, 4); got " ++ toString size)
  else .ok ⟨strip name, address, size, description⟩

/-- `_resolve_target_probes`. -/
def resolveTargetProbes (names : String) (registry : Registry) :
    Except String (List RegisteredProbe) :=
  let available := registry.table.map Prod.fst
  let targetNames :=
    if names = "" then available
    else ((((names.toList.splitOn ',').map stripBlank).filter (· ≠ [])).map String.ofList).eraseDups
  let missing := targetNames.filter fun name => (registry.lookup name).isNone
  let listed (names : List String) := reprValue (.list (names.map .str))
  if targetNames = [] then
    .error ("no probes to observe for this session: the probe library is " ++
      "empty. Register one with action='register', or add a " ++
      "`state_probes` entry to addresses.yaml. (Probes are per-session, " ++
      "so a probe registered under a different session_id is not " ++
      "visible here.)")
  else if missing ≠ [] then
    .error ("unknown probe name(s): " ++ listed missing ++ "; " ++
      if available = [] then
        "the probe library for this session is empty — register one with action='register'"
      else "available probes: " ++ listed available)
  else .ok (targetNames.filterMap registry.lookup)

/-- The actions. -/
def act (config : Config) (library : Library) (request : Request) (address : ℤ) :
    Library × Answer :=
  match request.action with
  | .register name size description =>
    match checkRegister name address size description with
    | .error message => (library, .failed message)
    -- the probe that had the name is replaced, be it built-in or not
    | .ok probe =>
      let registry := library.registry.put probe
      ({ library with registry := registry }, .registered probe registry.table.length)
  | .list => (library, .probes (library.registry.table.map Prod.snd))
  | .clear name =>
    let key := if strip name = "" then none else some (strip name)
    let (registry, _) :=
      clearProbes library.registry (builtinNames config request.clearing) key
    ({ library with registry := registry }, .cleared registry.table.length)
  | .observe names samples =>
    if samples < 1 then (library, .failed ("samples must be >= 1; got " ++ toString samples))
    else match resolveTargetProbes names library.registry with
      | .error message => (library, .failed message)
      | .ok targets => (library, .targets targets)

/-- `state_observer`, up to the reads of an observation. -/
def stateObserver (config : Config) (library : Library) (request : Request) : Library × Answer :=
  match seedFromYaml config request.seeding library with
  | (library, some e) => (library, .raised e)
  | (library, none) =>
    match parseAddress (.str request.address) with
    | .error message => (library, .failed message)
    | .ok address => act config library request address

def run (config : Config) (library : Library) (requests : List Request) : Library :=
  requests.foldl (fun library request => (stateObserver config library request).1) library

/-! ## Baseline -/

/-- The library after a seeding for which the configuration was read. -/
def seeding (config : Config) (earlier : Registry) : Library × Option IntError :=
  seedFromYaml config .parsed ⟨earlier, false⟩

/-- The probes that a fresh start seeds. -/
def baseline (config : Config) : Registry := (seeding config .empty).1.registry

/-- The probe that a call registers. -/
def Request.registers (request : Request) : Option RegisteredProbe :=
  match request.action, parseAddress (.str request.address) with
  | .register name size description, .ok address =>
    (checkRegister name address size description).toOption
  | _, _ => none

/-- A bulk clear that goes through. -/
def Request.ClearsAll (request : Request) : Prop :=
  match request.action, parseAddress (.str request.address) with
  | .clear name, .ok _ => strip name = ""
  | _, _ => False

/-- A clear that depends on the built-in names reads the configuration. -/
def Request.Sheltered (config : Config) (request : Request) : Prop :=
  match request.action with
  | .clear name =>
    request.clearing = .parsed ∨ strip name ≠ "" ∧ strip name ∉ builtinNames config .parsed
  | _ => True

/-- The last probe that was registered under a name. -/
def lastRegistered (requests : List Request) (name : String) : Option RegisteredProbe :=
  (requests.filterMap Request.registers).reverse.find? fun probe => probe.name = name

/-- A bulk clear after some calls leaves the probes of a fresh start. -/
def Restored (config : Config) (earlier : Registry) (requests : List Request) (clear : Request) :
    Prop :=
  ∀ name, (run config (seeding config earlier).1 (requests ++ [clear])).registry.lookup name =
    (baseline config).lookup name

section Seeding

variable {config : Config} {registry earlier : Registry} {entries : Dict} {name : String}

/-- The seeding gives way to what is there. -/
theorem lookup_seedEntries : (seedEntries config registry entries).1.lookup name =
    (registry.lookup name).or ((seedEntries config .empty entries).1.lookup name) := by
  induction entries generalizing registry with
  | nil => exact (Option.or_none).symm
  | cons entry rest ih =>
    rw [seedEntries, seedEntries]
    cases hentry : seedEntry config entry with
    | error e => exact (Option.or_none).symm
    | ok seeded =>
      cases seeded with
      | none => exact ih
      | some probe =>
        show (seedEntries config (registry.setDefault probe) rest).1.lookup name =
          (registry.lookup name).or
            ((seedEntries config (Registry.empty.setDefault probe) rest).1.lookup name)
        rw [ih, @ih (Registry.empty.setDefault probe), Registry.lookup_setDefault,
          Registry.lookup_setDefault, Registry.lookup_empty, Option.none_or, Option.or_assoc]

theorem builtinName_of_seedEntry {entry : Value × Value} {probe : RegisteredProbe}
    (h : seedEntry config entry = .ok (some probe)) : builtinName entry = some probe.name := by
  obtain ⟨key, spec⟩ := entry
  cases spec with
  | dict spec =>
    rw [seedEntry] at h
    split at h
    · cases h
    · cases h
    · split at h
      · cases h
      · cases h
      · split at h
        · cases h
        · cases h
          rfl
        · cases h
          rfl
  | _ => cases h

/-- What is seeded has a built-in name. -/
theorem mem_builtinNames_of_seedEntries
    (h : (seedEntries config .empty entries).1.lookup name ≠ none) :
    name ∈ entries.filterMap builtinName := by
  induction entries with
  | nil => exact absurd rfl h
  | cons entry rest ih =>
    rw [seedEntries] at h
    cases hentry : seedEntry config entry with
    | error e =>
      rw [hentry] at h
      exact absurd rfl h
    | ok seeded =>
      rw [hentry] at h
      have hrest (hmem : name ∈ rest.filterMap builtinName) :
          name ∈ (entry :: rest).filterMap builtinName :=
        ((List.sublist_cons_self entry rest).filterMap builtinName).subset hmem
      cases seeded with
      | none => exact hrest (ih h)
      | some probe =>
        by_cases hname : probe.name = name
        · exact List.mem_filterMap.mpr
            ⟨entry, List.mem_cons_self, hname ▸ builtinName_of_seedEntry hentry⟩
        · refine hrest (ih fun hnone => h ?_)
          show (seedEntries config (Registry.empty.setDefault probe) rest).1.lookup name = none
          rw [lookup_seedEntries, hnone, Registry.lookup_setDefault, if_neg hname]
          rfl

/-- The entries that are seeded, if there are any. -/
def Config.stateProbes (config : Config) : Option Dict :=
  match Dict.get? config.root "state_probes" with
  | some (.dict probes) => some probes
  | _ => none

theorem stateProbes_eq_some {probes : Dict} :
    config.stateProbes = some probes ↔
      Dict.get? config.root "state_probes" = some (.dict probes) := by
  rw [Config.stateProbes]
  split
  case h_1 entries hentries => rw [hentries, Option.some.injEq, Option.some.injEq, Value.dict.injEq]
  case h_2 hnot => exact iff_of_false (by rintro ⟨⟩) (hnot probes)

theorem builtinNames_eq : builtinNames config .parsed =
    (config.stateProbes.getD []).filterMap builtinName := by
  rw [builtinNames, Config.stateProbes]
  simp only [Config.addresses]
  split <;> rfl

theorem seeding_eq (config : Config) (earlier : Registry) : seeding config earlier =
    match config.stateProbes with
    | none => (⟨earlier, true⟩, none)
    | some probes =>
      (⟨(seedEntries config earlier probes).1, (seedEntries config earlier probes).2.isNone⟩,
        (seedEntries config earlier probes).2) := by
  rw [seeding, seedFromYaml, if_neg Bool.false_ne_true]
  cases hprobes : config.stateProbes with
  | some probes =>
    simp only [Config.addresses, stateProbes_eq_some.mp hprobes]
    rcases seedEntries config earlier probes with ⟨registry, _ | e⟩ <;> rfl
  | none =>
    simp only [Config.addresses]
    split
    case h_1 probes hsome => exact absurd (stateProbes_eq_some.mpr hsome) (by simp [hprobes])
    case h_2 => rfl

/-- What a seeding that goes through leaves: the earlier probes, and those of a fresh start. -/
theorem seeding_spec (h : (seeding config earlier).2 = none) :
    (seeding config earlier).1.seeded = true ∧
      ∀ name, (seeding config earlier).1.registry.lookup name =
        (earlier.lookup name).or ((baseline config).lookup name) := by
  rw [baseline, seeding_eq config earlier, seeding_eq config .empty]
  rw [seeding_eq] at h
  cases hprobes : config.stateProbes with
  | none => exact ⟨rfl, fun name => (Option.or_none).symm⟩
  | some probes =>
    rw [hprobes] at h
    exact ⟨Option.isNone_iff_eq_none.mpr h, fun name => lookup_seedEntries⟩

/-- What a fresh start seeds has a built-in name. -/
theorem mem_builtinNames_of_baseline (h : (baseline config).lookup name ≠ none) :
    name ∈ builtinNames config .parsed := by
  rw [builtinNames_eq]
  rw [baseline, seeding_eq] at h
  cases hprobes : config.stateProbes with
  | none =>
    rw [hprobes] at h
    exact absurd rfl h
  | some probes =>
    rw [hprobes] at h
    exact mem_builtinNames_of_seedEntries h

end Seeding

/-! ## Calls of a seeded library -/

section Calls

variable {config : Config} {library : Library} {request clear : Request} {requests : List Request}
  {name : String}

theorem strip_strip (name : String) : strip (strip name) = strip name := by
  rw [strip, strip, String.toList_ofList, stripBlank_stripBlank]

/-- What a call makes of a seeded library. -/
inductive Effect (config : Config) (library : Library) (request : Request) : Library → Prop
  | nothing : request.registers = none → Effect config library request library
  | registered (probe : RegisteredProbe) : request.registers = some probe →
      Effect config library request { library with registry := library.registry.put probe }
  | removed (name : String) : request.action = .clear name → strip name ≠ "" →
      strip name ∉ builtinNames config request.clearing →
      Effect config library request
        { library with registry := library.registry.remove (strip name) }
  | kept (name : String) : request.action = .clear name → strip name = "" →
      Effect config library request { library with
        registry := library.registry.keep (· ∈ builtinNames config request.clearing) }

theorem effect_of_seeded (config : Config) (request : Request) (h : library.seeded = true) :
    Effect config library request (stateObserver config library request).1 := by
  have hseed : seedFromYaml config request.seeding library = (library, none) := if_pos h
  rw [stateObserver, hseed]
  dsimp only
  cases haddress : parseAddress (.str request.address) with
  | error message => exact .nothing (by rw [Request.registers, haddress]; split <;> simp_all)
  | ok address =>
    dsimp only
    rw [act]
    cases haction : request.action with
    | register name size description =>
      dsimp only
      cases hcheck : checkRegister name address size description with
      | error message =>
        exact .nothing (by
          rw [Request.registers, haction, haddress]; simp [hcheck, Except.toOption])
      | ok probe =>
        exact .registered probe (by
          rw [Request.registers, haction, haddress]; simp [hcheck, Except.toOption])
    | list => exact .nothing (by rw [Request.registers, haction])
    | observe names samples =>
      have hnothing : request.registers = none := by rw [Request.registers, haction]
      dsimp only
      split
      · exact .nothing hnothing
      · split <;> exact .nothing hnothing
    | clear name =>
      dsimp only
      by_cases hblank : strip name = ""
      · rw [if_pos hblank]
        exact .kept name haction hblank
      · rw [if_neg hblank, clearProbes, strip_strip]
        split
        case isTrue => exact .nothing (by rw [Request.registers, haction])
        case isFalse hnot => exact .removed name haction hblank fun hmem => hnot (.inr hmem)

theorem run_concat : run config library (requests ++ [request]) =
    (stateObserver config (run config library requests) request).1 := by
  rw [run, List.foldl_append]
  rfl

theorem seeded_stateObserver (h : library.seeded = true) :
    (stateObserver config library request).1.seeded = true := by
  have heffect := effect_of_seeded config request h
  generalize (stateObserver config library request).1 = after at heffect
  cases heffect <;> exact h

theorem seeded_run (hseeded : library.seeded = true) (requests : List Request) :
    (run config library requests).seeded = true := by
  induction requests using List.reverseRecOn with
  | nil => exact hseeded
  | append_singleton requests request ih =>
    rw [run_concat]
    exact seeded_stateObserver ih

/-- A built-in name changes its probe with a registration only. -/
theorem lookup_stateObserver (hseeded : library.seeded = true)
    (hsheltered : request.Sheltered config) (hname : name ∈ builtinNames config .parsed) :
    (stateObserver config library request).1.registry.lookup name =
      (request.registers.filter fun probe => probe.name = name).or
        (library.registry.lookup name) := by
  have heffect := effect_of_seeded config request hseeded
  generalize (stateObserver config library request).1 = after at heffect
  cases heffect with
  | nothing hnone => rw [hnone, Option.filter_none, Option.none_or]
  | registered probe hregisters =>
    rw [Registry.lookup_put, hregisters, Option.filter_some]
    by_cases hprobe : probe.name = name <;> simp [hprobe]
  | removed key haction hkey hnot =>
    have hnone : request.registers = none := by rw [Request.registers, haction]
    rw [hnone, Option.filter_none, Option.none_or]
    refine Registry.lookup_remove_of_ne fun heq => ?_
    -- the name is none of those that were read, or none of those that there are to read
    rw [Request.Sheltered, haction] at hsheltered
    rcases hsheltered with hparsed | hother
    · rw [hparsed, ← heq] at hnot
      exact hnot hname
    · exact hother.2 (heq ▸ hname)
  | kept key haction hblank =>
    have hnone : request.registers = none := by rw [Request.registers, haction]
    rw [Request.Sheltered, haction] at hsheltered
    rw [hnone, Option.filter_none, Option.none_or, Registry.lookup_keep]
    rcases hsheltered with hparsed | hother
    · rw [hparsed, if_pos (decide_eq_true hname)]
    · exact absurd hblank hother.1

theorem lastRegistered_concat : lastRegistered (requests ++ [request]) name =
    (request.registers.filter fun probe => probe.name = name).or
      (lastRegistered requests name) := by
  rw [lastRegistered, lastRegistered, List.filterMap_append, List.reverse_append, List.find?_append]
  congr 1
  cases hregisters : request.registers with
  | none => simp [hregisters]
  | some probe =>
    by_cases hprobe : probe.name = name <;> simp [hregisters, hprobe, Option.filter_some]

/-- Over calls that are sheltered a built-in name has the probe that was last registered
under it, or the one that it had. -/
theorem lookup_run_of_builtin (hseeded : library.seeded = true)
    (hsheltered : ∀ request ∈ requests, request.Sheltered config)
    (hname : name ∈ builtinNames config .parsed) :
    (run config library requests).registry.lookup name =
      (lastRegistered requests name).or (library.registry.lookup name) := by
  induction requests using List.reverseRecOn with
  | nil => rfl
  | append_singleton requests request ih =>
    rw [run_concat, lookup_stateObserver (seeded_run hseeded requests)
        (hsheltered request (List.mem_append_right _ List.mem_cons_self)) hname,
      ih fun r hr => hsheltered r (List.mem_append_left _ hr), lastRegistered_concat,
      Option.or_assoc]

/-- A bulk clear for which the configuration was read keeps the built-in names. -/
theorem lookup_of_clearsAll (hseeded : library.seeded = true) (hclears : clear.ClearsAll)
    (hsheltered : clear.Sheltered config) :
    (stateObserver config library clear).1.registry.lookup name =
      if name ∈ builtinNames config .parsed then library.registry.lookup name else none := by
  have hseed : seedFromYaml config clear.seeding library = (library, none) := if_pos hseeded
  rw [Request.ClearsAll] at hclears
  split at hclears
  case h_1 key address haction haddress =>
    -- a bulk clear depends on the built-in names, so it reads them
    have hparsed : clear.clearing = .parsed := by
      rw [Request.Sheltered, haction] at hsheltered
      exact hsheltered.resolve_right fun h => h.1 hclears
    rw [stateObserver, hseed, haddress]
    dsimp only
    rw [act, haction]
    dsimp only
    rw [if_pos hclears, clearProbes, hparsed, Registry.lookup_keep]
    simp only [decide_eq_true_eq]
  case h_2 => exact hclears.elim

/-- What a bulk clear leaves of the built-in names, and that it leaves no other. -/
theorem lookup_bulkClear {earlier : Registry} (hseeding : (seeding config earlier).2 = none)
    (hsheltered : ∀ request ∈ requests ++ [clear], request.Sheltered config)
    (hclears : clear.ClearsAll) :
    (run config (seeding config earlier).1 (requests ++ [clear])).registry.lookup name =
      if name ∈ builtinNames config .parsed then
        (lastRegistered requests name).or
          ((earlier.lookup name).or ((baseline config).lookup name))
      else none := by
  obtain ⟨hseeded, hlookup⟩ := seeding_spec hseeding
  have hcalls : ∀ request ∈ requests, request.Sheltered config := fun r hr =>
    hsheltered r (List.mem_append_left _ hr)
  rw [run_concat, lookup_of_clearsAll (seeded_run hseeded requests) hclears
    (hsheltered clear (List.mem_append_right _ List.mem_cons_self))]
  split
  case isTrue hname => rw [lookup_run_of_builtin hseeded hcalls hname, hlookup]
  case isFalse => rfl

/-- After a seeding that goes through, and calls that read the configuration where they depend
on it, a bulk clear leaves the built-in names: each has the probe that was last registered
under it, before the seeding or after it, or else the one that a fresh start seeds. Without
such registrations that is the baseline. -/
theorem lookup_after_bulkClear {earlier : Registry} (hseeding : (seeding config earlier).2 = none)
    (hsheltered : ∀ request ∈ requests ++ [clear], request.Sheltered config)
    (hclears : clear.ClearsAll) :
    (∀ name, (run config (seeding config earlier).1 (requests ++ [clear])).registry.lookup name =
        if name ∈ builtinNames config .parsed then
          (lastRegistered requests name).or
            ((earlier.lookup name).or ((baseline config).lookup name))
        else none) ∧
      ((∀ name ∈ builtinNames config .parsed,
          lastRegistered requests name = none ∧ earlier.lookup name = none) →
        Restored config earlier requests clear) := by
  refine ⟨fun name => lookup_bulkClear hseeding hsheltered hclears, fun hunshadowed name => ?_⟩
  rw [lookup_bulkClear hseeding hsheltered hclears]
  split
  case isTrue hname =>
    obtain ⟨hlast, hearlier⟩ := hunshadowed name hname
    rw [hlast, hearlier, Option.none_or, Option.none_or]
  case isFalse hnot => exact (not_not.mp (mt mem_builtinNames_of_baseline hnot)).symm

end Calls

/-! ## A game mode -/

/-- A configuration with one probe. -/
def shipped : Config where
  root := [(.str "state_probes", .dict [(.str "game_mode", .dict
    [(.str "address", .int 0x08A0D000), (.str "size", .int 4),
      (.str "description", .str "0 = title/loading, non-zero = main game loop")])])]
  foreign _ := .error .invalid

/-- The built-in probe is given another address. -/
def override : Request := ⟨.register " game_mode" 2 "elsewhere", "0x08804000", .parsed, .parsed⟩

def scratch : Request := ⟨.register "scratch" 4 "", "0x08805000", .parsed, .parsed⟩

def clearAll (clearing : Reading) : Request := ⟨.clear "", "0x0", .parsed, clearing⟩

example : (run shipped (seeding shipped .empty).1
    [override, scratch, clearAll .parsed]).registry.table =
      [("game_mode", ⟨"game_mode", 0x08804000, 2, "elsewhere"⟩)] := by decide

theorem lookup_after_bulkClear_override :
    (∀ name, (run shipped (seeding shipped .empty).1
          ([override, scratch] ++ [clearAll .parsed])).registry.lookup name =
        if name ∈ builtinNames shipped .parsed then
          (lastRegistered [override, scratch] name).or
            ((Registry.empty.lookup name).or ((baseline shipped).lookup name))
        else none) ∧
      ((∀ name ∈ builtinNames shipped .parsed,
          lastRegistered [override, scratch] name = none ∧ Registry.empty.lookup name = none) →
        Restored shipped .empty [override, scratch] (clearAll .parsed)) := by
  have hsheltered : ∀ request ∈ [override, scratch] ++ [clearAll .parsed],
      request.Sheltered shipped := by
    intro request hrequest
    obtain rfl | rfl | rfl :
        request = override ∨ request = scratch ∨ request = clearAll .parsed := by
      simpa using hrequest
    · exact trivial
    · exact trivial
    · exact .inl rfl
  exact lookup_after_bulkClear rfl hsheltered (by decide : strip "" = "")

/-- The override stays, even if the configuration is always read; and a bulk clear that cannot
read it leaves nothing, even if nothing was registered. -/
theorem not_restored :
    (¬ ∀ requests clear, (∀ request ∈ requests ++ [clear], Request.clearing request = .parsed) →
        Request.ClearsAll clear → Restored shipped .empty requests clear) ∧
      ¬ ∀ clear, Request.ClearsAll clear → Restored shipped .empty [] clear := by
  constructor
  · intro hrestored
    have hread : ∀ request ∈ [override] ++ [clearAll .parsed],
        Request.clearing request = .parsed := by decide
    exact absurd (hrestored [override] (clearAll .parsed) hread (by decide : strip "" = "")
      "game_mode") (by decide)
  · intro hrestored
    exact absurd (hrestored (clearAll .raised) (by decide : strip "" = "") "game_mode") (by decide)

end Probe
