import PpssppDfx.Scripts.Sync

/-!
# A sync, step by step

A sync gives up the event loop only while a worker thread checks the contract of a script. In
between it runs on: over the scripts that need no check, or to the end of both loops. Other
tasks of the server may act whenever it waits.

## Main definitions

* `Scripts.Sync` — a sync between two of its steps
* `Scripts.beginSync`, `Scripts.Sync.move` — its start, and its steps
* `Scripts.solo` — a sync that nobody else interrupts

## Main results

* `Scripts.exists_reachable_syncExposedTools` — a sync that nobody interrupts does what
  `syncExposedTools` says
-/

set_option autoImplicit false

namespace Scripts

open Semantics

variable {Schema : Type*}

/-- The line of the report on a script whose contract is not checked. -/
def uncheckedOutcome (current : List String) (s : Server Schema) (e : ScriptEntry) :
    Option Outcome :=
  if e.name ∈ current then some .kept
  else if e.status = .skeleton then some .unlisted
  else if e.name ∈ s.exposedRegistry then some .added
  else none

/-- What a sync is at. -/
inductive Stage where
  | waiting (e : ScriptEntry) (rest : List ScriptEntry)
  | checked (e : ScriptEntry) (rest : List ScriptEntry) (result : Except ContractError Contract)
  | finished (report : Report)
  | raised (reason : String)

/-- A sync with the manifest that it read, the names that it found booked and its outcomes so
far. -/
structure Sync where
  manifest : ScriptManifest
  current : List String
  outcomes : List (String × Outcome)
  stage : Stage

/-- The loop over the scripts that are no longer desired, and the report. -/
def finish (m : ScriptManifest) (current : List String) (outcomes : List (String × Outcome))
    (s : Server Schema) : Server Schema × Report :=
  let removed := staleNames current m
  let s' := (pass withdraw s removed).1
  (s',
    { declared := m.listExposed.length
      registered := s'.exposedRegistry.keys.length
      added := listed outcomes .added
      removed := removed
      skippedSkeleton := (m.listExposed.filter (·.status = .skeleton)).map (·.name)
      failed := listed outcomes .failed
      restartRequired := !reconciled s' removed })

/-- A sync runs on until it has to wait for a check, or to its end. -/
def proceed (m : ScriptManifest) (current : List String) (s : Server Schema)
    (outcomes : List (String × Outcome)) : List ScriptEntry → Server Schema × Sync
  | [] =>
    ((finish m current outcomes s).1,
      ⟨m, current, outcomes, .finished (finish m current outcomes s).2⟩)
  | e :: rest =>
    match uncheckedOutcome current s e with
    | some o => proceed m current s (outcomes ++ [(e.name, o)]) rest
    | none => (s, ⟨m, current, outcomes, .waiting e rest⟩)

/-- The start of `sync_exposed_tools`. -/
def beginSync (s : Server Schema) (m : ScriptManifest) : Server Schema × Sync :=
  proceed m s.exposedRegistry.keys s [] m.desired

/-- The steps of a sync: its worker thread checks a contract, and the event loop resumes it. -/
inductive Move where
  | check
  | resume
  deriving DecidableEq

def Sync.move (fromFunction : ExposedWrapper → Except String Schema) (p : Project)
    (s : Server Schema) (y : Sync) : Move → Option (Server Schema × Sync)
  | .check =>
    match y.stage with
    | .waiting e rest =>
      let checked := validateScriptContract p s.moduleCache e
      some ({ s with moduleCache := checked.1 }, { y with stage := .checked e rest checked.2 })
    | _ => none
  | .resume =>
    match y.stage with
    | .checked e rest result =>
      let booked := bookChecked fromFunction s e result
      match roundOutcome booked.1 e booked.2 with
      | .error reason => some (booked.1, { y with stage := .raised reason })
      | .ok outcome =>
        some (proceed y.manifest y.current booked.1 (y.outcomes ++ [outcome]) rest)
    | _ => none

/-- A sync that has the server to itself, while the files stay as they are. -/
def solo (fromFunction : ExposedWrapper → Except String Schema) (p : Project) :
    Machine (Server Schema × Sync) Move :=
  ⟨fun r i => r.2.move fromFunction p r.1 i⟩

variable {fromFunction : ExposedWrapper → Except String Schema} {p : Project}
  {s : Server Schema} {e : ScriptEntry} {m : ScriptManifest} {current : List String}
  {outcomes : List (String × Outcome)} {entries : List ScriptEntry}

theorem registerExposedEntry_of_unbooked (hstatus : e.status ≠ .skeleton)
    (hnew : e.name ∉ s.exposedRegistry) :
    registerExposedEntry fromFunction p s e =
      bookChecked fromFunction
        { s with moduleCache := (validateScriptContract p s.moduleCache e).1 } e
        (validateScriptContract p s.moduleCache e).2 := by
  rw [registerExposedEntry, if_neg hstatus, if_neg hnew]

theorem uncheckedOutcome_eq_none_iff :
    uncheckedOutcome current s e = none ↔
      e.name ∉ current ∧ e.status ≠ .skeleton ∧ e.name ∉ s.exposedRegistry := by
  rw [uncheckedOutcome]
  by_cases hcurrent : e.name ∈ current
  · simp [hcurrent]
  by_cases hstatus : e.status = .skeleton
  · simp [hcurrent, hstatus]
  by_cases hbooked : e.name ∈ s.exposedRegistry <;> simp [hcurrent, hstatus, hbooked]

/-- A script whose contract is not checked leaves the server as it is. -/
theorem syncEntry_of_unchecked (fromFunction : ExposedWrapper → Except String Schema) (p : Project)
    {o : Outcome} (h : uncheckedOutcome current s e = some o) :
    syncEntry fromFunction p current s e = (s, .ok (e.name, o)) := by
  rw [uncheckedOutcome] at h
  by_cases hcurrent : e.name ∈ current
  · rw [if_pos hcurrent] at h
    rw [syncEntry, if_pos hcurrent, Option.some.inj h]
  rw [if_neg hcurrent] at h
  by_cases hstatus : e.status = .skeleton
  · rw [if_pos hstatus] at h
    simp only [syncEntry, if_neg hcurrent, registerExposedEntry, roundOutcome, if_pos hstatus,
      Option.some.inj h]
  rw [if_neg hstatus] at h
  by_cases hbooked : e.name ∈ s.exposedRegistry
  · rw [if_pos hbooked] at h
    simp only [syncEntry, if_neg hcurrent, registerExposedEntry, roundOutcome, if_neg hstatus,
      if_pos hbooked, Option.some.inj h]
  · rw [if_neg hbooked] at h
    cases h

/-- A script whose contract is checked takes both steps of a round. -/
theorem syncEntry_of_checked (fromFunction : ExposedWrapper → Except String Schema) (p : Project)
    (h : uncheckedOutcome current s e = none) :
    syncEntry fromFunction p current s e =
      let checked := validateScriptContract p s.moduleCache e
      let booked := bookChecked fromFunction { s with moduleCache := checked.1 } e checked.2
      (booked.1, roundOutcome booked.1 e booked.2) := by
  obtain ⟨hcurrent, hstatus, hnew⟩ := uncheckedOutcome_eq_none_iff.mp h
  rw [syncEntry, if_neg hcurrent, registerExposedEntry_of_unbooked hstatus hnew]

theorem proceed_cons_of_unchecked {o : Outcome} (h : uncheckedOutcome current s e = some o) :
    proceed m current s outcomes (e :: entries) =
      proceed m current s (outcomes ++ [(e.name, o)]) entries := by
  rw [proceed, h]

theorem proceed_cons_of_checked (h : uncheckedOutcome current s e = none) :
    proceed m current s outcomes (e :: entries) =
      (s, ⟨m, current, outcomes, .waiting e entries⟩) := by
  rw [proceed, h]

/-- How a sync ends after its first loop, which a first part `outcomes` of its outcomes is
prefixed to. -/
def ended (m : ScriptManifest) (current : List String) (outcomes : List (String × Outcome))
    (loop : Server Schema × Except String (List (String × Outcome))) : Server Schema × Stage :=
  match loop.2 with
  | .error reason => (loop.1, .raised reason)
  | .ok rest =>
    ((finish m current (outcomes ++ rest) loop.1).1,
      .finished (finish m current (outcomes ++ rest) loop.1).2)

theorem ended_cons {o : String × Outcome}
    (loop : Server Schema × Except String (List (String × Outcome))) :
    ended m current outcomes (loop.1, loop.2.map (o :: ·)) =
      ended m current (outcomes ++ [o]) loop := by
  obtain ⟨s, reason | rest⟩ := loop
  · rfl
  · simp only [ended, Except.map, List.append_assoc, List.singleton_append]

/-- By itself, a sync that awaits a check takes the round of the script, and runs on unless the
round raises. -/
theorem reachable_round (fromFunction : ExposedWrapper → Except String Schema) (p : Project)
    (m : ScriptManifest) (outcomes : List (String × Outcome)) (rest : List ScriptEntry)
    (hunchecked : uncheckedOutcome current s e = none) :
    (solo fromFunction p).Reachable (s, ⟨m, current, outcomes, .waiting e rest⟩)
      (match syncEntry fromFunction p current s e with
        | (s', .error reason) => (s', ⟨m, current, outcomes, .raised reason⟩)
        | (s', .ok outcome) => proceed m current s' (outcomes ++ [outcome]) rest) := by
  rw [syncEntry_of_checked fromFunction p hunchecked]
  -- the check, and then what the event loop makes of its result
  have hcheck : (solo fromFunction p).Reachable
      (s, ⟨m, current, outcomes, .waiting e rest⟩)
      ({ s with moduleCache := (validateScriptContract p s.moduleCache e).1 },
        ⟨m, current, outcomes,
          .checked e rest (validateScriptContract p s.moduleCache e).2⟩) :=
    Machine.Reaches.single (i := .check) trivial rfl
  apply hcheck.trans
  apply Machine.Reaches.single (i := .resume) trivial
  dsimp only
  generalize validateScriptContract p s.moduleCache e = checked
  generalize hbooked : bookChecked fromFunction { s with moduleCache := checked.1 } e
    checked.2 = booked
  cases houtcome : roundOutcome booked.1 e booked.2 with
  | error reason => simp only [solo, Sync.move, hbooked, houtcome]
  | ok outcome => simp only [solo, Sync.move, hbooked, houtcome]

/-- By itself, a sync takes the scripts in turn as the first loop does, and then ends. -/
theorem exists_reachable_ended (fromFunction : ExposedWrapper → Except String Schema)
    (p : Project) (m : ScriptManifest) (current : List String) (s : Server Schema)
    (outcomes : List (String × Outcome)) (entries : List ScriptEntry) :
    ∃ y : Sync,
      y.stage = (ended m current outcomes
        (pass (syncEntry fromFunction p current) s entries)).2 ∧
      (solo fromFunction p).Reachable (proceed m current s outcomes entries)
        ((ended m current outcomes (pass (syncEntry fromFunction p current) s entries)).1, y) := by
  induction entries generalizing s outcomes with
  | nil =>
    have hended : ended m current outcomes (pass (syncEntry fromFunction p current) s []) =
        ((finish m current outcomes s).1, .finished (finish m current outcomes s).2) := by
      simp only [ended, Semantics.pass, List.append_nil]
    rw [hended]
    exact ⟨_, rfl, .refl⟩
  | cons e rest ih =>
    cases hunchecked : uncheckedOutcome current s e with
    | some o =>
      have hround := syncEntry_of_unchecked fromFunction p hunchecked
      rw [proceed_cons_of_unchecked hunchecked, pass_cons_of_ok (congrArg Prod.snd hround),
        ended_cons, hround]
      exact ih s (outcomes ++ [(e.name, o)])
    | none =>
      have hreach := reachable_round fromFunction p m outcomes rest hunchecked
      rw [proceed_cons_of_checked hunchecked]
      rcases hround : syncEntry fromFunction p current s e with ⟨s', reason | outcome⟩
      · rw [hround] at hreach
        rw [pass_cons_of_error (congrArg Prod.snd hround), hround]
        exact ⟨_, rfl, hreach⟩
      · rw [hround] at hreach
        rw [pass_cons_of_ok (congrArg Prod.snd hround), ended_cons, hround]
        obtain ⟨y, hends, hlater⟩ := ih s' (outcomes ++ [outcome])
        exact ⟨y, hends, hreach.trans hlater⟩

/-- The stage of a sync that has come to its end. -/
def lastStage : Except String Report → Stage
  | .error reason => .raised reason
  | .ok report => .finished report

theorem ended_registerDesired :
    ended m s.exposedRegistry.keys [] (registerDesired fromFunction p m s) =
      ((syncExposedTools fromFunction p m s).1,
        lastStage (syncExposedTools fromFunction p m s).2) := by
  simp only [ended, syncExposedTools]
  cases (registerDesired fromFunction p m s).2 <;> rfl

/-- A sync that nobody interrupts does what `syncExposedTools` does, and gives its report or
raises its error. -/
theorem exists_reachable_syncExposedTools (fromFunction : ExposedWrapper → Except String Schema)
    (p : Project) (s : Server Schema) (m : ScriptManifest) :
    ∃ y : Sync,
      y.stage = lastStage (syncExposedTools fromFunction p m s).2 ∧
      (solo fromFunction p).Reachable (beginSync s m)
        ((syncExposedTools fromFunction p m s).1, y) := by
  have h := exists_reachable_ended fromFunction p m s.exposedRegistry.keys s [] m.desired
  rw [ended_registerDesired] at h
  exact h

end Scripts
