import PpssppDfx.Scripts.Exposed

/-!
# A sync against a fresh start

After a sync the exposed scripts should have the tools that a server started on the new manifest
would give them. A sync adds and withdraws tools by name alone. So this holds for scripts that
it adds or withdraws, but a script that is booked keeps the tool it was first given: with the
description, the parameters and the entry of then, and also when its file no longer passes the
checks.

## Main definitions

* `Scripts.exposedTool` — the tool that an entry gets from a server without it
* `Scripts.Consistent` — the book and the tools agree, and every tool was made for its script
* `Scripts.UpToDate` — a wrapper is what its script would be given now

## Main results

* `Scripts.consistent_of_reachable` — every server is consistent after any loads
* `Scripts.restartRequired_eq_false` — a report never asks for a restart
* `Scripts.sync_sameScriptTools_iff` — a sync is as good as a fresh start exactly when the tools
  that it keeps are up to date
-/

set_option autoImplicit false

namespace Scripts

open Semantics

variable {Schema : Type*} {fromFunction : ExposedWrapper → Except String Schema} {p : Project}
  {s : Server Schema} {e : ScriptEntry} {m : ScriptManifest} {name : String}

section Registration

/-- The tool that an entry gets once its contract has been looked for: none if it has none, and
an error if its wrapper cannot be built. -/
def checkedTool (fromFunction : ExposedWrapper → Except String Schema) (e : ScriptEntry)
    (contract : Option Contract) : Except String (Option (Tool Schema)) :=
  match contract with
  | none => .ok none
  | some c =>
    match buildExposedWrapper e c.inputCls c.outputCls with
    | .error reason => .error reason
    | .ok w =>
      match fromFunction w with
      | .error _ => .ok none
      | .ok schema => .ok (some ⟨toolDescription e, w, schema⟩)

/-- The tool that an entry gets from the files as they are. -/
def exposedTool (fromFunction : ExposedWrapper → Except String Schema) (p : Project)
    (e : ScriptEntry) : Except String (Option (Tool Schema)) :=
  checkedTool fromFunction e (contractOf p e)

/-- What a registration does, for a desired script that is not booked and whose tool name is
free. -/
inductive Registers (fromFunction : ExposedWrapper → Except String Schema) (p : Project)
    (s : Server Schema) (e : ScriptEntry) : Server Schema × Except String Bool → Prop
  | raised {cache : ModuleCache} {reason : String} (hsound : cache.Sound p)
      (htool : exposedTool fromFunction p e = .error reason) :
      Registers fromFunction p s e ({ s with moduleCache := cache }, .error reason)
  | refused {cache : ModuleCache} (hsound : cache.Sound p)
      (htool : exposedTool fromFunction p e = .ok none) :
      Registers fromFunction p s e ({ s with moduleCache := cache }, .ok false)
  | added {cache : ModuleCache} {t : Tool Schema} (hsound : cache.Sound p)
      (htool : exposedTool fromFunction p e = .ok (some t)) :
      Registers fromFunction p s e
        (⟨s.exposedRegistry.insert e.name (toolName e.name),
          s.tools.insert (toolName e.name) t, cache⟩, .ok true)

theorem registers (hsound : s.moduleCache.Sound p) (hstatus : e.status ≠ .skeleton)
    (hnew : e.name ∉ s.exposedRegistry) (hfree : toolName e.name ∉ s.tools) :
    Registers fromFunction p s e (registerExposedEntry fromFunction p s e) := by
  have hcontract := validateScriptContract_eq (e := e) hsound
  have hcache := validateScriptContract_sound (e := e) hsound
  -- the check of the contract decides first, then the wrapper, then the schema
  simp only [registerExposedEntry, bookChecked, if_neg hstatus, if_neg hnew]
  cases hchecked : (validateScriptContract p s.moduleCache e).2 with
  | error reason =>
    have hnone : contractOf p e = none := by rw [← hcontract, hchecked]; rfl
    have htool : exposedTool fromFunction p e = .ok none := by
      simp only [exposedTool, checkedTool, hnone]
    exact .refused hcache htool
  | ok c =>
    have hsome : contractOf p e = some c := by rw [← hcontract, hchecked]; rfl
    dsimp only
    cases hbuild : buildExposedWrapper e c.inputCls c.outputCls with
    | error reason =>
      have htool : exposedTool fromFunction p e = .error reason := by
        simp only [exposedTool, checkedTool, hsome, hbuild]
      exact .raised hcache htool
    | ok w =>
      simp only [addTool]
      cases hschema : fromFunction w with
      | error reason =>
        have htool : exposedTool fromFunction p e = .ok none := by
          simp only [exposedTool, checkedTool, hsome, hbuild, hschema]
        exact .refused hcache htool
      | ok schema =>
        have htool : exposedTool fromFunction p e = .ok (some ⟨toolDescription e, w, schema⟩) := by
          simp only [exposedTool, checkedTool, hsome, hbuild, hschema]
        simp only [if_neg hfree]
        exact .added hcache htool

end Registration

section Invariant

/-- A tool as a registration of its own entry made it, at some time and from some models. -/
structure Genuine (fromFunction : ExposedWrapper → Except String Schema) (name : String)
    (t : Tool Schema) : Prop where
  name_eq : t.wrapper.entry.name = name
  built : ∃ input output, buildExposedWrapper t.wrapper.entry input output = .ok t.wrapper
  description_eq : t.description = toolDescription t.wrapper.entry
  schema_eq : fromFunction t.wrapper = .ok t.schema

/-- The book and the tools agree, and every tool was made for the script it is booked for. -/
structure Consistent (fromFunction : ExposedWrapper → Except String Schema)
    (s : Server Schema) : Prop where
  booked : ∀ name tool, s.exposedRegistry.lookup name = some tool → tool = toolName name
  agrees : ∀ name, name ∈ s.exposedRegistry ↔ toolName name ∈ s.tools
  genuine : ∀ name t, s.tools.lookup (toolName name) = some t → Genuine fromFunction name t

theorem genuine_of_checkedTool {contract : Option Contract} {t : Tool Schema}
    (h : checkedTool fromFunction e contract = .ok (some t)) : Genuine fromFunction e.name t := by
  cases contract with
  | none => cases h
  | some c =>
    rw [checkedTool] at h
    split at h
    · cases h
    next w hbuild =>
      split at h
      · cases h
      next schema hschema =>
        cases h
        have hentry := (buildExposedWrapper_eq_ok_iff.mp hbuild).1
        exact ⟨congrArg ScriptEntry.name hentry, ⟨_, _, hentry ▸ hbuild⟩, by rw [hentry],
          hschema⟩

theorem genuine_of_exposedTool {t : Tool Schema}
    (h : exposedTool fromFunction p e = .ok (some t)) : Genuine fromFunction e.name t :=
  genuine_of_checkedTool h

theorem consistent_start : Consistent fromFunction (Server.start : Server Schema) where
  booked _ _ h := by cases h
  agrees name := by
    constructor <;> intro h <;> cases h
  genuine _ _ h := by cases h

theorem Consistent.withCache (h : Consistent fromFunction s) (cache : ModuleCache) :
    Consistent fromFunction { s with moduleCache := cache } :=
  ⟨h.booked, h.agrees, h.genuine⟩

/-- Booking a script with a tool that was made for it. -/
theorem Consistent.insert (h : Consistent fromFunction s) {t : Tool Schema}
    (ht : Genuine fromFunction name t) (cache : ModuleCache) :
    Consistent fromFunction
      ⟨s.exposedRegistry.insert name (toolName name), s.tools.insert (toolName name) t,
        cache⟩ where
  booked other tool hlookup := by
    by_cases hother : other = name
    · subst hother
      rw [AList.lookup_insert] at hlookup
      exact (Option.some.inj hlookup).symm
    · rw [AList.lookup_insert_ne hother] at hlookup
      exact h.booked other tool hlookup
  agrees other := by
    rw [AList.mem_insert, AList.mem_insert, toolName_inj, h.agrees]
  genuine other t' hlookup := by
    by_cases hother : other = name
    · subst hother
      rw [AList.lookup_insert] at hlookup
      exact Option.some.inj hlookup ▸ ht
    · rw [AList.lookup_insert_ne (toolName_inj.not.mpr hother)] at hlookup
      exact h.genuine other t' hlookup

/-- Withdrawing a script together with its tool. -/
theorem Consistent.erase (h : Consistent fromFunction s) (name : String) :
    Consistent fromFunction
      { s with
          exposedRegistry := s.exposedRegistry.erase name
          tools := s.tools.erase (toolName name) } where
  booked other tool hlookup := by
    by_cases hother : other = name
    · subst hother
      rw [AList.lookup_erase] at hlookup
      cases hlookup
    · rw [AList.lookup_erase_ne hother] at hlookup
      exact h.booked other tool hlookup
  agrees other := by
    rw [AList.mem_erase, AList.mem_erase, ne_eq, ne_eq, toolName_inj, h.agrees]
  genuine other t hlookup := by
    by_cases hother : other = name
    · subst hother
      rw [AList.lookup_erase] at hlookup
      cases hlookup
    · rw [AList.lookup_erase_ne (toolName_inj.not.mpr hother)] at hlookup
      exact h.genuine other t hlookup

theorem Registers.consistent {r : Server Schema × Except String Bool}
    (hr : Registers fromFunction p s e r) (h : Consistent fromFunction s) :
    Consistent fromFunction r.1 ∧ r.1.moduleCache.Sound p := by
  cases hr with
  | raised hsound _ => exact ⟨h.withCache _, hsound⟩
  | refused hsound _ => exact ⟨h.withCache _, hsound⟩
  | added hsound htool => exact ⟨h.insert (genuine_of_exposedTool htool) _, hsound⟩

/-- Unregistering withdraws the script and its tool, if it is booked. -/
theorem unregisterExposedTool_eq (h : Consistent fromFunction s) (name : String) :
    (unregisterExposedTool s name).1 = s ∧ name ∉ s.exposedRegistry ∨
      (unregisterExposedTool s name).1 =
        { s with
            exposedRegistry := s.exposedRegistry.erase name
            tools := s.tools.erase (toolName name) } := by
  rw [unregisterExposedTool]
  cases hlookup : s.exposedRegistry.lookup name with
  | none => exact .inl ⟨rfl, AList.lookup_eq_none.mp hlookup⟩
  | some tool =>
    obtain rfl := h.booked name tool hlookup
    exact .inr rfl

end Invariant

section Slots

/-- What the book and the tools say about a script. -/
def slot (s : Server Schema) (name : String) : Option String × Option (Tool Schema) :=
  (s.exposedRegistry.lookup name, s.tools.lookup (toolName name))

theorem slot_eq_none (h : Consistent fromFunction s) (hname : name ∉ s.exposedRegistry) :
    slot s name = (none, none) := by
  have htool : toolName name ∉ s.tools := fun hmem => hname ((h.agrees name).mpr hmem)
  rw [slot, AList.lookup_eq_none.mpr hname, AList.lookup_eq_none.mpr htool]

/-- The effect of one round of the first loop on the slot of its script. -/
def syncEffect (fromFunction : ExposedWrapper → Except String Schema) (p : Project)
    (current : List String) (e : ScriptEntry) (b : Option String × Option (Tool Schema)) :
    (Option String × Option (Tool Schema)) × Except String (String × Outcome) :=
  if e.name ∈ current then (b, .ok (e.name, .kept))
  else if e.status = .skeleton then (b, .ok (e.name, .unlisted))
  else if b.1.isSome then (b, .ok (e.name, .added))
  else
    match exposedTool fromFunction p e with
    | .error reason => (b, .error reason)
    | .ok none => (b, .ok (e.name, .failed))
    | .ok (some t) => ((some (toolName e.name), some t), .ok (e.name, .added))

theorem syncEffect_of_current {current : List String} {b : Option String × Option (Tool Schema)}
    (h : e.name ∈ current) :
    syncEffect fromFunction p current e b = (b, .ok (e.name, .kept)) :=
  if_pos h

theorem syncEffect_of_new {current : List String} (hnew : e.name ∉ current)
    (hstatus : e.status ≠ .skeleton) :
    syncEffect fromFunction p current e (none, none) =
      match exposedTool fromFunction p e with
      | .error reason => ((none, none), .error reason)
      | .ok none => ((none, none), .ok (e.name, .failed))
      | .ok (some t) => ((some (toolName e.name), some t), .ok (e.name, .added)) := by
  rw [syncEffect, if_neg hnew, if_neg hstatus]
  rfl

/-- The state that the first loop works on. -/
def Synced (fromFunction : ExposedWrapper → Except String Schema) (p : Project)
    (s : Server Schema) : Prop :=
  Consistent fromFunction s ∧ s.moduleCache.Sound p

/-- A round of the first loop keeps what the loop works on, leaves the slots of other scripts
alone, and has the effect on the slot of its own. -/
theorem syncEntry_spec (current : List String) (e : ScriptEntry)
    (h : Synced fromFunction p s) :
    Synced fromFunction p (syncEntry fromFunction p current s e).1 ∧
      (∀ name, name ≠ e.name → slot (syncEntry fromFunction p current s e).1 name = slot s name) ∧
      (slot (syncEntry fromFunction p current s e).1 e.name,
          (syncEntry fromFunction p current s e).2) =
        syncEffect fromFunction p current e (slot s e.name) := by
  -- the cases in which the round returns without a registration come first
  by_cases hcurrent : e.name ∈ current
  · rw [syncEntry, syncEffect_of_current hcurrent, if_pos hcurrent]
    exact ⟨h, fun _ _ => rfl, rfl⟩
  by_cases hstatus : e.status = .skeleton
  · have heq : registerExposedEntry fromFunction p s e = (s, .ok false) := by
      rw [registerExposedEntry, if_pos hstatus]
    rw [syncEffect, if_neg hcurrent, if_pos hstatus, syncEntry, if_neg hcurrent, heq]
    exact ⟨h, fun _ _ => rfl, by simp only [roundOutcome, if_pos hstatus]⟩
  by_cases hbooked : e.name ∈ s.exposedRegistry
  · have hsome : (slot s e.name).1.isSome = true := AList.lookup_isSome.mpr hbooked
    have heq : registerExposedEntry fromFunction p s e = (s, .ok true) := by
      rw [registerExposedEntry, if_neg hstatus, if_pos hbooked]
    rw [syncEffect, if_neg hcurrent, if_neg hstatus, if_pos hsome, syncEntry, if_neg hcurrent,
      heq]
    exact ⟨h, fun _ _ => rfl, by simp only [roundOutcome, if_pos hbooked]⟩
  -- a script that is not booked has no tool, so its tool name is free
  have hfree : toolName e.name ∉ s.tools := fun hmem => hbooked ((h.1.agrees e.name).mpr hmem)
  have hempty := slot_eq_none h.1 hbooked
  have hr : Registers fromFunction p s e (registerExposedEntry fromFunction p s e) :=
    registers h.2 hstatus hbooked hfree
  rw [hempty, syncEffect_of_new hcurrent hstatus, syncEntry, if_neg hcurrent]
  refine ⟨hr.consistent h.1, ?_⟩
  generalize registerExposedEntry fromFunction p s e = r at hr
  cases hr with
  | raised hsound htool =>
    simp only [htool]
    exact ⟨fun _ _ => rfl, Prod.ext hempty rfl⟩
  | refused hsound htool =>
    simp only [htool, roundOutcome, if_neg hstatus]
    exact ⟨fun _ _ => rfl, Prod.ext hempty rfl⟩
  | added hsound htool =>
    simp only [htool, slot]
    refine ⟨fun name hname => ?_, ?_⟩
    · rw [AList.lookup_insert_ne hname, AList.lookup_insert_ne (toolName_inj.not.mpr hname)]
    · simp [roundOutcome, AList.lookup_insert, AList.mem_insert]

theorem slotwise_syncEntry (current : List String) :
    Slotwise (syncEntry fromFunction p current) (Synced fromFunction p) slot ScriptEntry.name
      (syncEffect fromFunction p current) where
  keeps _ e h := (syncEntry_spec current e h).1
  frame _ e name h := (syncEntry_spec current e h).2.1 name
  acts _ e h := congrArg Prod.fst (syncEntry_spec current e h).2.2
  answers _ e h := congrArg Prod.snd (syncEntry_spec current e h).2.2

/-- Withdrawing a script empties its slot. -/
theorem withdraw_spec (h : Consistent fromFunction s) (name : String) :
    Consistent fromFunction (withdraw s name).1 ∧
      (∀ other, other ≠ name → slot (withdraw s name).1 other = slot s other) ∧
      slot (withdraw s name).1 name = (none, none) := by
  rw [withdraw]
  rcases unregisterExposedTool_eq h name with ⟨heq, hnot⟩ | heq
  · rw [heq]
    exact ⟨h, fun _ _ => rfl, slot_eq_none h hnot⟩
  · rw [heq]
    refine ⟨h.erase name, fun other hother => ?_, ?_⟩
    · rw [slot, slot, AList.lookup_erase_ne hother,
        AList.lookup_erase_ne (toolName_inj.not.mpr hother)]
    · rw [slot, AList.lookup_erase, AList.lookup_erase]

theorem slotwise_withdraw :
    Slotwise (withdraw : Server Schema → String → _) (Consistent fromFunction) slot id
      fun _ _ => ((none, none), .ok ()) where
  keeps _ name h := (withdraw_spec h name).1
  frame _ name other h := (withdraw_spec h name).2.1 other
  acts _ name h := (withdraw_spec h name).2.2
  answers _ _ _ := rfl

end Slots

section Run

/-- The first loop of a sync. -/
abbrev registerDesired (fromFunction : ExposedWrapper → Except String Schema) (p : Project)
    (m : ScriptManifest) (s : Server Schema) :
    Server Schema × Except String (List (String × Outcome)) :=
  pass (syncEntry fromFunction p s.exposedRegistry.keys) s m.desired

theorem Synced.registerDesired (h : Synced fromFunction p s) (m : ScriptManifest) :
    Synced fromFunction p (registerDesired fromFunction p m s).1 :=
  pass_keeps (slotwise_syncEntry _).keeps h

theorem consistent_sync (h : Consistent fromFunction s) (hsound : s.moduleCache.Sound p) :
    Consistent fromFunction (syncExposedTools fromFunction p m s).1 := by
  have hregistered := Synced.registerDesired ⟨h, hsound⟩ m
  rw [syncExposedTools]
  dsimp only
  split
  · exact hregistered.1
  · exact pass_keeps slotwise_withdraw.keeps hregistered.1

theorem consistent_reload (h : Consistent fromFunction s) (r : Reload) :
    Consistent fromFunction (s.reload fromFunction r) := by
  have hclear : Consistent fromFunction s.clearModuleCache := h.withCache _
  rw [Server.reload]
  split
  · exact hclear
  · exact consistent_sync hclear (ModuleCache.sound_clear _)

/-- Whatever manifests and files a server has loaded, its book and its tools agree. -/
theorem consistent_of_reachable (h : (exposure fromFunction).Reachable Server.start s) :
    Consistent fromFunction s :=
  h.invariant consistent_start fun t r u ht hstep => by
    cases hstep
    exact consistent_reload ht r

theorem ScriptManifest.desired_unique (m : ScriptManifest) :
    (m.desired.map ScriptEntry.name).Nodup :=
  m.unique.sublist ((List.filter_sublist.trans List.filter_sublist).map _)

theorem ScriptManifest.status_of_mem_desired (he : e ∈ m.desired) : e.status ≠ .skeleton :=
  of_decide_eq_true (List.mem_filter.mp he).2

theorem mem_staleNames {current : List String} :
    name ∈ staleNames current m ↔ name ∈ current ∧ name ∉ m.desired.map ScriptEntry.name := by
  rw [staleNames, List.mem_insertionSort, List.mem_filter, decide_eq_true_eq]

theorem staleNames_nodup {current : List String} (h : current.Nodup) :
    ((staleNames current m).map id).Nodup := by
  rw [List.map_id, staleNames, (List.perm_insertionSort _ _).nodup_iff]
  exact h.filter _

/-- A sync that does not raise has gone through both loops. -/
theorem exists_of_sync_eq_ok {report : Report}
    (hok : (syncExposedTools fromFunction p m s).2 = .ok report) :
    (∃ outcomes, (registerDesired fromFunction p m s).2 = .ok outcomes) ∧
      (syncExposedTools fromFunction p m s).1 =
        (pass withdraw (registerDesired fromFunction p m s).1
          (staleNames s.exposedRegistry.keys m)).1 ∧
      report.restartRequired = !reconciled (syncExposedTools fromFunction p m s).1
        (staleNames s.exposedRegistry.keys m) := by
  simp only [syncExposedTools] at hok ⊢
  cases hpass : (registerDesired fromFunction p m s).2 with
  | error reason =>
    rw [hpass] at hok
    cases hok
  | ok outcomes =>
    rw [hpass] at hok
    cases hok
    exact ⟨⟨outcomes, rfl⟩, rfl, rfl⟩

end Run

section Outcome

variable {report : Report} (hconsistent : Consistent fromFunction s)
  (hsound : s.moduleCache.Sound p)
  (hok : (syncExposedTools fromFunction p m s).2 = .ok report)

include hconsistent hsound hok

/-- After a sync, a desired script is as the first loop left it. -/
theorem slot_sync_of_desired (he : e ∈ m.desired) :
    slot (syncExposedTools fromFunction p m s).1 e.name =
      (syncEffect fromFunction p s.exposedRegistry.keys e (slot s e.name)).1 := by
  obtain ⟨⟨outcomes, hpass⟩, heq, -⟩ := exists_of_sync_eq_ok hok
  have hsynced : Synced fromFunction p s := ⟨hconsistent, hsound⟩
  have hnotStale : e.name ∉ (staleNames s.exposedRegistry.keys m).map id := by
    rw [List.map_id, mem_staleNames]
    exact fun h => h.2 (List.mem_map_of_mem he)
  have hregistered := hsynced.registerDesired m
  rw [heq, slotwise_withdraw.read_pass_of_notMem hregistered.1 hnotStale]
  exact (slotwise_syncEntry _).read_pass_of_mem hsynced m.desired_unique hpass he

/-- After a sync, a script that is not desired has no tool. -/
theorem slot_sync_of_undesired (hname : name ∉ m.desired.map ScriptEntry.name) :
    slot (syncExposedTools fromFunction p m s).1 name = (none, none) := by
  obtain ⟨⟨outcomes, hpass⟩, heq, -⟩ := exists_of_sync_eq_ok hok
  have hsynced : Synced fromFunction p s := ⟨hconsistent, hsound⟩
  have hregistered := hsynced.registerDesired m
  rw [heq]
  -- a booked one is withdrawn by the second loop, and the others never had a tool
  by_cases hcurrent : name ∈ s.exposedRegistry.keys
  · have hnodup := staleNames_nodup (m := m) s.exposedRegistry.keys_nodup
    obtain ⟨answers, hwithdrawn⟩ :
        ∃ answers, (pass withdraw (registerDesired fromFunction p m s).1
          (staleNames s.exposedRegistry.keys m)).2 = .ok answers := by
      cases hresult : (pass withdraw (registerDesired fromFunction p m s).1
          (staleNames s.exposedRegistry.keys m)).2 with
      | ok answers => exact ⟨answers, rfl⟩
      | error reason =>
        obtain ⟨_, _, herror, _⟩ :=
          slotwise_withdraw.exists_of_pass_eq_error hregistered.1 hnodup hresult
        cases herror
    exact slotwise_withdraw.read_pass_of_mem hregistered.1 hnodup hwithdrawn
      (mem_staleNames.mpr ⟨hcurrent, hname⟩)
  · have hnotStale : name ∉ (staleNames s.exposedRegistry.keys m).map id := by
      rw [List.map_id, mem_staleNames]
      exact fun h => hcurrent h.1
    rw [slotwise_withdraw.read_pass_of_notMem hregistered.1 hnotStale,
      (slotwise_syncEntry _).read_pass_of_notMem hsynced hname]
    exact slot_eq_none hconsistent hcurrent

/-- A sync that does not raise can compute the tool of every script that it adds. -/
theorem exists_exposedTool_of_new (he : e ∈ m.desired) (hnew : e.name ∉ s.exposedRegistry) :
    ∃ t, exposedTool fromFunction p e = .ok t := by
  obtain ⟨⟨outcomes, hpass⟩, -⟩ := exists_of_sync_eq_ok hok
  obtain ⟨a, ha⟩ := (slotwise_syncEntry _).effect_of_pass_eq_ok
    (⟨hconsistent, hsound⟩ : Synced fromFunction p s) m.desired_unique hpass he
  rw [slot_eq_none hconsistent hnew, syncEffect_of_new hnew (m.status_of_mem_desired he)] at ha
  cases htool : exposedTool fromFunction p e with
  | ok t => exact ⟨t, rfl⟩
  | error reason =>
    rw [htool] at ha
    cases ha

/-- The report of a sync never asks for a restart, up to date or not. -/
theorem restartRequired_eq_false : report.restartRequired = false := by
  obtain ⟨-, -, hreport⟩ := exists_of_sync_eq_ok hok
  have hafter := consistent_sync (m := m) hconsistent hsound
  rw [hreport, reconciled, Bool.not_eq_false', Bool.and_eq_true]
  -- the book and the tools agree after every sync, and what was removed is gone
  constructor
  · rw [List.all_eq_true]
    rintro ⟨name, tool⟩ hbooked
    have hlookup := AList.mem_lookup_iff.mpr hbooked
    obtain rfl := hafter.booked name tool hlookup
    apply decide_eq_true
    exact (hafter.agrees name).mp (AList.lookup_isSome.mp (Option.isSome_iff_exists.mpr
      ⟨_, hlookup⟩))
  · rw [Bool.not_eq_true', List.any_eq_false]
    intro name hname
    have hundesired := (mem_staleNames.mp hname).2
    have hslot := slot_sync_of_undesired hconsistent hsound hok hundesired
    simpa [slot, AList.lookup_eq_none] using congrArg Prod.snd hslot

end Outcome

section FreshStart

/-- The tool of a script. -/
def Server.scriptTool (s : Server Schema) (name : String) : Option (Tool Schema) :=
  s.tools.lookup (toolName name)

/-- The same scripts have tools, with the same descriptions, schemas and bound entries. -/
def SameScriptTools (s s' : Server Schema) : Prop := ∀ name, s.scriptTool name = s'.scriptTool name

/-- The wrapper of a tool captured the entry as it is now, and has the parameters and the output
that the contract of the entry gives now. -/
structure UpToDate (p : Project) (w : ExposedWrapper) (e : ScriptEntry) : Prop where
  entry_eq : w.entry = e
  contract : ∃ c, contractOf p e = some c ∧ parameters c.inputCls = .ok w.parameters ∧
    w.returnContract.output = c.outputCls

/-- A tool is what its script would be given exactly when its wrapper is up to date. -/
theorem exposedTool_eq_some_iff {t : Tool Schema} (ht : Genuine fromFunction e.name t) :
    exposedTool fromFunction p e = .ok (some t) ↔ UpToDate p t.wrapper e := by
  constructor
  · intro htool
    unfold exposedTool checkedTool at htool
    split at htool
    · cases htool
    next c hcontract =>
      split at htool
      · cases htool
      next w hbuild =>
        split at htool
        · cases htool
        next schema hschema =>
          cases htool
          obtain ⟨hentry, hparameters, houtputType, -⟩ := buildExposedWrapper_eq_ok_iff.mp hbuild
          exact ⟨hentry, c, hcontract, hparameters, congrArg EnvelopeContract.output houtputType⟩
  · rintro ⟨hentry, c, hcontract, hparameters, houtput⟩
    obtain ⟨input, output, hbuilt⟩ := ht.built
    obtain ⟨-, -, houtputType, hdoc⟩ := buildExposedWrapper_eq_ok_iff.mp hbuilt
    have houtputs : output = c.outputCls := by rw [← houtput, houtputType]; rfl
    have hbuild : buildExposedWrapper e c.inputCls c.outputCls = .ok t.wrapper := by
      rw [buildExposedWrapper_eq_ok_iff]
      exact ⟨hentry, hparameters, by rw [houtputType, hentry, houtputs], by rw [hdoc, hentry]⟩
    have hdescription : t.description = toolDescription e := by rw [ht.description_eq, hentry]
    simp only [exposedTool, checkedTool, hcontract, hbuild, ht.schema_eq, ← hdescription]

/-- A server without tools ends a sync, also one that raises, as the first loop leaves it. -/
theorem sync_start :
    (syncExposedTools fromFunction p m Server.start).1 =
      (registerDesired fromFunction p m Server.start).1 := by
  have hstale : staleNames (Server.start : Server Schema).exposedRegistry.keys m = [] := rfl
  simp only [syncExposedTools, hstale]
  split <;> rfl

theorem synced_start : Synced fromFunction p (Server.start : Server Schema) :=
  ⟨consistent_start, ModuleCache.sound_clear p⟩

/-- The effect of the first loop on a script without a tool. -/
theorem syncEffect_tool {current : List String} {o : Option (Tool Schema)} (hnew : e.name ∉ current)
    (hstatus : e.status ≠ .skeleton) (h : exposedTool fromFunction p e = .ok o) :
    (syncEffect fromFunction p current e (none, none)).1.2 = o := by
  rw [syncEffect_of_new hnew hstatus, h]
  cases o <;> rfl

/-- A tool that a fresh start registers is the one its entry gets. -/
theorem exposedTool_of_freshStart (he : e ∈ m.desired) {t : Tool Schema}
    (ht : (syncExposedTools fromFunction p m Server.start).1.scriptTool e.name = some t) :
    exposedTool fromFunction p e = .ok (some t) := by
  rw [sync_start] at ht
  have hstart : Synced fromFunction p (Server.start : Server Schema) := synced_start
  rcases (slotwise_syncEntry _).read_pass_eq_or hstart m.desired_unique he with hread | hread
  · have htool : (syncEffect fromFunction p [] e (none, none)).1.2 = some t :=
      (congrArg Prod.snd hread).symm.trans ht
    rw [syncEffect_of_new List.not_mem_nil (m.status_of_mem_desired he)] at htool
    rcases hexposed : exposedTool fromFunction p e with reason | _ | t'
    · rw [hexposed] at htool
      cases htool
    · rw [hexposed] at htool
      cases htool
    · rw [hexposed] at htool
      rw [Option.some.inj htool]
  · have hnone := (congrArg Prod.snd hread).symm.trans ht
    cases hnone

/-- A fresh start gets to the end of its sync when every desired script can be given its tool, or
be refused one. -/
theorem exists_freshStart_eq_ok (h : ∀ e ∈ m.desired, ∃ o, exposedTool fromFunction p e = .ok o) :
    ∃ report, (syncExposedTools fromFunction p m Server.start).2 = .ok report := by
  simp only [syncExposedTools]
  cases hpass : (registerDesired fromFunction p m Server.start).2 with
  | ok outcomes => exact ⟨_, rfl⟩
  | error reason =>
    have hstart : Synced fromFunction p (Server.start : Server Schema) := synced_start
    obtain ⟨e, he, herror, -⟩ :=
      (slotwise_syncEntry _).exists_of_pass_eq_error hstart m.desired_unique hpass
    obtain ⟨o, ho⟩ := h e he
    have hfails : (syncEffect fromFunction p [] e (none, none)).2 = .error reason := herror
    rw [syncEffect_of_new List.not_mem_nil (m.status_of_mem_desired he), ho] at hfails
    cases o <;> cases hfails

/-- A sync from a consistent server gives the scripts the tools of a fresh start exactly when the
tools that it keeps are up to date. -/
theorem Consistent.sameScriptTools_iff (hconsistent : Consistent fromFunction s)
    (hsound : s.moduleCache.Sound p) {report : Report}
    (hok : (syncExposedTools fromFunction p m s).2 = .ok report) :
    SameScriptTools (syncExposedTools fromFunction p m s).1
        (syncExposedTools fromFunction p m Server.start).1 ↔
      ∀ e ∈ m.desired, ∀ t, s.scriptTool e.name = some t → UpToDate p t.wrapper e := by
  have hslot : ∀ e ∈ m.desired, (syncExposedTools fromFunction p m s).1.scriptTool e.name =
      (syncEffect fromFunction p s.exposedRegistry.keys e (slot s e.name)).1.2 := fun e he =>
    congrArg Prod.snd (slot_sync_of_desired hconsistent hsound hok he)
  -- a script with a tool is booked, so the sync keeps its tool
  have hkept : ∀ e ∈ m.desired, ∀ t, s.scriptTool e.name = some t →
      (syncExposedTools fromFunction p m s).1.scriptTool e.name = some t := by
    intro e he t ht
    have hbooked : e.name ∈ s.exposedRegistry := (hconsistent.agrees e.name).mpr
      (AList.lookup_isSome.mp (Option.isSome_iff_exists.mpr ⟨t, ht⟩))
    rw [hslot e he, syncEffect_of_current hbooked]
    exact ht
  constructor
  · intro hsame e he t ht
    have hfresh : (syncExposedTools fromFunction p m Server.start).1.scriptTool e.name = some t :=
      (hsame e.name).symm.trans (hkept e he t ht)
    exact (exposedTool_eq_some_iff (hconsistent.genuine e.name t ht)).mp
      (exposedTool_of_freshStart he hfresh)
  · intro huptodate
    have hkeptTool : ∀ e ∈ m.desired, ∀ t, s.scriptTool e.name = some t →
        exposedTool fromFunction p e = .ok (some t) := fun e he t ht =>
      (exposedTool_eq_some_iff (hconsistent.genuine e.name t ht)).mpr (huptodate e he t ht)
    -- so every desired script has a tool that a fresh start gives it too
    have hsync : ∀ e ∈ m.desired, exposedTool fromFunction p e =
        .ok ((syncExposedTools fromFunction p m s).1.scriptTool e.name) := by
      intro e he
      by_cases hbooked : e.name ∈ s.exposedRegistry
      · obtain ⟨t, ht⟩ := Option.isSome_iff_exists.mp
          (AList.lookup_isSome.mpr ((hconsistent.agrees e.name).mp hbooked))
        rw [hkept e he t ht, hkeptTool e he t ht]
      · obtain ⟨o, ho⟩ := exists_exposedTool_of_new hconsistent hsound hok he hbooked
        rw [ho, hslot e he, slot_eq_none hconsistent hbooked,
          syncEffect_tool hbooked (m.status_of_mem_desired he) ho]
    obtain ⟨report', hfresh⟩ := exists_freshStart_eq_ok (m := m) fun e he => ⟨_, hsync e he⟩
    -- a script that is not desired has a tool on neither side
    intro name
    by_cases hname : name ∈ m.desired.map ScriptEntry.name
    · obtain ⟨e, he, rfl⟩ := List.mem_map.mp hname
      have hslot' := congrArg Prod.snd
        (slot_sync_of_desired consistent_start (ModuleCache.sound_clear p) hfresh he)
      have hnew := syncEffect_tool List.not_mem_nil (m.status_of_mem_desired he) (hsync e he)
      exact (hslot'.trans hnew).symm
    · have hgone := congrArg Prod.snd (slot_sync_of_undesired hconsistent hsound hok hname)
      have hnever := congrArg Prod.snd
        (slot_sync_of_undesired consistent_start (ModuleCache.sound_clear p) hfresh hname)
      exact hgone.trans hnever.symm

/-- Whatever a server has loaded before, a sync of a new manifest leaves the scripts with the
tools of a fresh start exactly when every tool that it keeps is up to date. -/
theorem sync_sameScriptTools_iff (hreach : (exposure fromFunction).Reachable Server.start s)
    {report : Report}
    (hok : (syncExposedTools fromFunction p m s.clearModuleCache).2 = .ok report) :
    SameScriptTools (syncExposedTools fromFunction p m s.clearModuleCache).1
        (syncExposedTools fromFunction p m Server.start).1 ↔
      ∀ e ∈ m.desired, ∀ t, s.scriptTool e.name = some t → UpToDate p t.wrapper e :=
  ((consistent_of_reachable hreach).withCache .clear).sameScriptTools_iff
    (ModuleCache.sound_clear p) hok

end FreshStart

section Probe

def plainScript : ScriptModule := fun name =>
  if name = "PlainInput" then
    some (.model ⟨"PlainInput", [("value", ⟨some "int", some "The value.", .required⟩)]⟩)
  else if name = "PlainOutput" then some (.model ⟨"PlainOutput", []⟩)
  else if name = "run" then some (.function true)
  else none

/-- A project with one script file. -/
def plainProject : Project where
  normalizedPath := .ok
  files path := if path = "plain.py" then some (.ok "plain") else none
  contentStamp := id
  hasLoader _ := true
  execModule _ := .ok plainScript

def syncProbe : ScriptEntry where
  name := "sync_probe"
  description := "Reports its input."
  category := .misc
  path := "plain.py"
  inputModel := "PlainInput"
  outputModel := "PlainOutput"
  exposed := true

def anySchema (_ : ExposedWrapper) : Except String Unit := .ok ()

/-- A server that was started on a manifest with one exposed script. -/
def probedServer : Server Unit := Server.start.reload anySchema ⟨plainProject, [syncProbe]⟩

theorem probedServer_reachable : (exposure anySchema).Reachable Server.start probedServer :=
  Machine.Reaches.single (i := ⟨plainProject, [syncProbe]⟩) trivial rfl

/-- The manifest exposes a second script. -/
def extendedManifest : ScriptManifest where
  entries := [syncProbe, { syncProbe with name := "sync_echo" }]
  unique := by decide

/-- A script that is added next to an unchanged one. -/
theorem sameScriptTools_extended :
    SameScriptTools
      (syncExposedTools anySchema plainProject extendedManifest probedServer.clearModuleCache).1
      (syncExposedTools anySchema plainProject extendedManifest Server.start).1 := by
  obtain ⟨report, hok⟩ : ∃ report, (syncExposedTools anySchema plainProject extendedManifest
      probedServer.clearModuleCache).2 = .ok report := ⟨_, rfl⟩
  refine (sync_sameScriptTools_iff probedServer_reachable hok).mpr ?_
  intro e he t ht
  have hdesired : extendedManifest.desired =
      [syncProbe, { syncProbe with name := "sync_echo" }] := rfl
  rw [hdesired, List.mem_cons, List.mem_singleton] at he
  rcases he with rfl | rfl
  · cases ht
    exact ⟨rfl, _, rfl, rfl, rfl⟩
  · cases ht

/-- The manifest describes the script in other words. -/
def editedManifest : ScriptManifest where
  entries := [{ syncProbe with description := "Reports its input twice." }]
  unique := by decide

/-- A script whose description was edited keeps the tool with the old one. -/
theorem not_sameScriptTools_edited :
    ¬ ∀ (s : Server Unit) (m : ScriptManifest) (report : Report),
      (exposure anySchema).Reachable Server.start s →
      (syncExposedTools anySchema plainProject m s.clearModuleCache).2 = .ok report →
      SameScriptTools (syncExposedTools anySchema plainProject m s.clearModuleCache).1
        (syncExposedTools anySchema plainProject m Server.start).1 := by
  intro h
  have hsame := h probedServer editedManifest _ probedServer_reachable rfl "sync_probe"
  have hdescriptions := congrArg (Option.map Tool.description) hsame
  revert hdescriptions
  decide +kernel

end Probe

end Scripts
